import Acceptor.Proofs.Equivalence
import Mathlib.Data.List.Infix
import Mathlib.Data.List.InsertIdx

/-!
# Symbols that do not occur

A symbol that is possible somewhere in a word occurs in the word and is not empty.  Two alphabets
that declare the same symbols of this kind in the same order therefore cut the word alike, whatever
else they declare (`Cut.of_occurring`).  In particular, any other symbol can be declared at any
place of an alphabet, and the word is cut and accepted as before (`tokenize_declareAt`).
-/

namespace Acceptor

/-- Whether `name` is not empty and is written somewhere in `text`. -/
def occurs (text : List Char) (name : String) : Bool :=
  name ≠ "" ∧ name.toList <:+: text

theorem occurs_iff {text : List Char} {name : String} :
  occurs text name = true ↔ name ≠ "" ∧ name.toList <:+: text
  := decide_eq_true_iff

/-- The members that occur in a text, in their order. -/
def OrderedSet.occurring (alphabet : OrderedSet String) (text : List Char) : List String :=
  alphabet.toList.filter (occurs text)

/-! ### Cuts -/

section Occurring

variable {strategy : MatchStrategy} {alphabet alphabet' : OrderedSet String}
  {word text : List Char} {name : String}

theorem OrderedSet.mem_occurring :
  name ∈ alphabet.occurring text ↔ name ∈ alphabet ∧ occurs text name = true
  := List.mem_filter

theorem Possible.occurs (hsuffix : text <:+ word) (h : Possible alphabet text name) :
  occurs word name = true
  := occurs_iff.mpr ⟨h.ne_empty, h.starts.isInfix.trans hsuffix.isInfix⟩

theorem Possible.of_occurring
    (hoccurring : alphabet.occurring word = alphabet'.occurring word) (hsuffix : text <:+ word)
    (h : Possible alphabet text name) :
  Possible alphabet' text name
  where
  mem := by
    have hname : name ∈ alphabet.occurring word :=
      OrderedSet.mem_occurring.mpr ⟨h.mem, h.occurs hsuffix⟩
    rw [hoccurring] at hname
    apply (OrderedSet.mem_occurring.mp hname).1
  ne_empty := h.ne_empty
  starts := h.starts

/-- What a strategy takes depends only on the symbols that occur in the word. -/
theorem MatchStrategy.Takes.of_occurring
    (hoccurring : alphabet.occurring word = alphabet'.occurring word) (hsuffix : text <:+ word)
    (h : strategy.Takes alphabet text name) :
  strategy.Takes alphabet' text name
  := by
  obtain ⟨hpossible, h⟩ := h
  use hpossible.of_occurring hoccurring hsuffix
  cases strategy with
  | longestMatch =>
    intro other hother
    apply h other (hother.of_occurring hoccurring.symm hsuffix)
  | declarationOrder =>
    obtain ⟨before, after, hsplit, hbefore⟩ := h
    have hsplit' : alphabet'.occurring word
        = before.filter (occurs word) ++ name :: after.filter (occurs word) := by
      rw [← hoccurring, OrderedSet.occurring, hsplit, List.filter_append,
        List.filter_cons_of_pos (hpossible.occurs hsuffix)]
    obtain ⟨before', after', halphabet, hbefore'⟩ := exists_append_of_filter_eq hsplit'
    use before', after', halphabet
    intro other hother hpossible'
    have hmem := hbefore' other hother (hpossible'.occurs hsuffix)
    apply hbefore other (List.mem_filter.mp hmem).1
    apply hpossible'.of_occurring hoccurring.symm hsuffix

/-- Alphabets of which the same symbols occur in a text, in the same order, cut it alike. -/
theorem Cut.of_occurring
    {ps : List Piece} (hoccurring : alphabet.occurring word = alphabet'.occurring word)
    (h : Cut strategy alphabet word ps) :
  Cut strategy alphabet' word ps
  := by
  apply h.imp
  intro text p hsuffix hnext
  apply hnext.imp
  · intro name htakes
    apply htakes.of_occurring hoccurring hsuffix
  · intro name hpossible
    apply hpossible.of_occurring hoccurring.symm hsuffix

end Occurring

/-! ### Words -/

namespace Automaton

variable {a : Automaton} {alphabet : OrderedSet String} {word : String}

theorem tokenize_of_occurring
    (h : alphabet.occurring word.toList = a.descriptor.alphabet.occurring word.toList) :
  (a.withAlphabet alphabet).tokenize word = a.tokenize word
  := by
  have hcut := ((a.withAlphabet alphabet).cut_pieces word).of_occurring h
  have hpieces : (a.withAlphabet alphabet).pieces word = a.pieces word :=
    hcut.unique (a.cut_pieces word)
  rw [tokenize, tokenize, hpieces]

theorem accepts_of_occurring
    (h : alphabet.occurring word.toList = a.descriptor.alphabet.occurring word.toList) :
  (a.withAlphabet alphabet).accepts word = a.accepts word
  := by
  rw [accepts, accepts, tokenize_of_occurring h]
  rfl

end Automaton

/-! ### One more symbol -/

/-- What satisfies a condition is added as if nothing else were. -/
theorem OrderedSet.filter_toList_insertMany
    {α : Type} [DecidableEq α] {p : α → Bool} {s t : OrderedSet α}
    (h : s.toList.filter p = t.toList) (l : List α) :
  (s.insertMany l).toList.filter p = (t.insertMany (l.filter p)).toList
  := by
  induction l generalizing s t with
  | nil => exact h
  | cons a l ih =>
    rw [insertMany_cons]
    by_cases ha : p a = true
    · have hmem : a ∈ t.toList ↔ a ∈ s.toList := by
        rw [← h, List.mem_filter]
        exact and_iff_left ha
      rw [List.filter_cons_of_pos ha, insertMany_cons]
      apply ih
      rw [toList_insert, toList_insert]
      by_cases hs : a ∈ s.toList
      · rw [if_pos hs, if_pos (hmem.mpr hs), h]
      · rw [if_neg hs, if_neg (mt hmem.mp hs), List.filter_append, h, List.filter_cons_of_pos ha]
        rfl
    · rw [List.filter_cons_of_neg ha]
      apply ih
      rw [toList_insert]
      split
      · exact h
      · rw [List.filter_append, h, List.filter_cons_of_neg ha]
        apply List.append_nil

theorem filter_insertIdx {α : Type} {p : α → Bool} {a : α} (h : ¬ p a = true) (l : List α)
    (i : Nat) :
  (l.insertIdx i a).filter p = l.filter p
  := by
  induction l generalizing i with
  | nil =>
    cases i with
    | zero => exact List.filter_cons_of_neg h
    | succ i => rfl
  | cons b l ih =>
    cases i with
    | zero => exact List.filter_cons_of_neg h
    | succ i => rw [List.insertIdx_succ_cons, List.filter_cons, List.filter_cons, ih]

theorem nodup_insertIdx {α : Type} {a : α} {l : List α} (h : l.Nodup) (ha : a ∉ l) (i : Nat) :
  (l.insertIdx i a).Nodup
  := by
  rcases Nat.lt_or_ge l.length i with hi | hi
  · rwa [List.insertIdx_of_length_lt hi]
  · rw [(List.perm_insertIdx a l hi).nodup_iff, List.nodup_cons]
    use ha, h

namespace Automaton

/-- The alphabet in which `s` is declared after the first `i` symbols. -/
def declareAt (a : Automaton) (i : Nat) (s : String) : OrderedSet String :=
  OrderedSet.ofList (a.descriptor.alphabet.toList.insertIdx i s)

theorem toList_declareAt {a : Automaton} {s : String} (h : s ∉ a.descriptor.alphabet) (i : Nat) :
  (a.declareAt i s).toList = a.descriptor.alphabet.toList.insertIdx i s
  := OrderedSet.insertMany_toList (nodup_insertIdx a.descriptor.alphabet.nodup h i)

/-- A symbol that does not occur changes nothing about those that do. -/
theorem occurring_declareAt
    {text : List Char} {s : String} (h : ¬ occurs text s = true) (a : Automaton) (i : Nat) :
  (a.declareAt i s).occurring text = a.descriptor.alphabet.occurring text
  := by
  have hempty : (∅ : OrderedSet String).toList.filter (occurs text)
      = (∅ : OrderedSet String).toList := rfl
  rw [OrderedSet.occurring, declareAt, OrderedSet.ofList,
    OrderedSet.filter_toList_insertMany hempty, filter_insertIdx h]
  apply OrderedSet.insertMany_toList
  apply a.descriptor.alphabet.nodup.filter

end Automaton

/-- A symbol that is empty or does not occur in a word can be declared at any place of the
alphabet.  The word has the same tokens as before, or the same residue, and the same outcome. -/
theorem tokenize_declareAt (a : Automaton) (i : Nat) (s : String) :
  (s ∉ a.descriptor.alphabet →
      (a.declareAt i s).toList = a.descriptor.alphabet.toList.insertIdx i s)
    ∧ ∀ word : String, s = "" ∨ ¬ s.toList <:+: word.toList →
      let b := a.withAlphabet (a.declareAt i s)
      b.tokenize word = a.tokenize word ∧ b.accepts word = a.accepts word
  := by
  use fun h => Automaton.toList_declareAt h i
  intro word h b
  have habsent : ¬ occurs word.toList s = true := by
    rw [occurs_iff, not_and_or, not_ne_iff]
    exact h
  have hoccurring := Automaton.occurring_declareAt habsent a i
  use Automaton.tokenize_of_occurring hoccurring, Automaton.accepts_of_occurring hoccurring

/-- A symbol that begins as the word does, and does not occur in it, is declared between the
others here; and the empty symbol is declared before them. -/
theorem tokenize_declareAt_between :
  let a : Automaton :=
    ⟨Descriptor.ofLists "M" ["q0"] ["a", "aé"] "q0" ["q0"], Table.ofList [⟨"q0", "a", "q0"⟩],
      .declarationOrder⟩
  (a.declareAt 1 "ab").toList = ["a", "ab", "aé"]
    ∧ (a.withAlphabet (a.declareAt 1 "ab")).tokenize "aaé" = .error ⟨"aaé", "é"⟩
    ∧ (a.withAlphabet (a.declareAt 1 "ab")).accepts "aaé" = .error ⟨"aaé", "é"⟩
    ∧ (a.withAlphabet (a.declareAt 0 "")).accepts "a" = .ok (.accepted ⟨["q0", "a", "q0"]⟩)
  := by
  intro a
  obtain ⟨hplace, hword⟩ := tokenize_declareAt a 1 "ab"
  obtain ⟨htokens, haccepts⟩ := hword "aaé" (.inr (by decide))
  have hempty := (tokenize_declareAt a 0 "").2 "a" (.inl rfl)
  use hplace (by decide)
  and_intros
  · apply htokens.trans
    with_unfolding_all rfl
  · apply haccepts.trans
    with_unfolding_all rfl
  · apply hempty.2.trans
    with_unfolding_all rfl

end Acceptor
