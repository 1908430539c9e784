import Acceptor.Proofs.Run
import Acceptor.Proofs.Word.Cut
import Mathlib.Data.List.Basic

/-!
# Strategies that agree

The longest possible symbol is the one declared first wherever a symbol is declared after all
symbols that it begins.  Under such an alphabet the two strategies cut every word alike, and
under any other there is a word that they cut in two ways (`tokenize_eq_iff_longerFirst`).
-/

namespace Acceptor

/-- A symbol that another symbol begins is declared before that other one, which is not
empty. -/
def OrderedSet.LongerFirst (alphabet : OrderedSet String) : Prop :=
  ∀ u ∈ alphabet.toList, u ≠ "" → ∀ v ∈ alphabet.toList, u ≠ v → u.toList <+: v.toList →
    alphabet.toList.idxOf v < alphabet.toList.idxOf u

instance (alphabet : OrderedSet String) : Decidable alphabet.LongerFirst :=
  inferInstanceAs (Decidable
    (∀ u ∈ alphabet.toList, u ≠ "" → ∀ v ∈ alphabet.toList, u ≠ v → u.toList <+: v.toList →
      alphabet.toList.idxOf v < alphabet.toList.idxOf u))

/-- The members of a list that come before `a` are the ones with a smaller index. -/
theorem idxOf_lt_idxOf_iff_mem
    {α : Type} [BEq α] [LawfulBEq α] {before after : List α} {a b : α} (ha : a ∉ before) :
  (before ++ a :: after).idxOf b < (before ++ a :: after).idxOf a ↔ b ∈ before
  := by
  rw [List.idxOf_append_of_notMem ha, List.idxOf_cons_self, Nat.add_zero]
  constructor
  · intro h
    by_contra hb
    rw [List.idxOf_append_of_notMem hb] at h
    omega
  · intro hb
    rw [List.idxOf_append_of_mem hb]
    apply List.idxOf_lt_length_of_mem hb

namespace MatchStrategy

variable {alphabet : OrderedSet String} {text : List Char} {name : String}

/-- The possible symbol that is declared first has no possible one before it. -/
theorem Takes.idxOf_le
    (h : declarationOrder.Takes alphabet text name) {other : String}
    (hother : Possible alphabet text other) :
  alphabet.toList.idxOf name ≤ alphabet.toList.idxOf other
  := by
  obtain ⟨hpossible, before, after, hsplit, hbefore⟩ := h
  have hname : name ∉ before := fun hmem => hbefore name hmem hpossible
  rw [hsplit, ← Nat.not_lt, idxOf_lt_idxOf_iff_mem hname]
  intro hmem
  apply hbefore other hmem hother

/-- Where longer symbols are declared first, the symbol declared first is the longest. -/
theorem Takes.longestMatch
    (hlonger : alphabet.LongerFirst) (h : declarationOrder.Takes alphabet text name) :
  MatchStrategy.longestMatch.Takes alphabet text name
  := by
  use h.1
  intro other hother hne
  rcases List.prefix_or_prefix_of_prefix hother.starts h.1.starts with hstarts | hstarts
  · apply length_lt_of_toList_prefix hstarts hne
  · have hlt := hlonger name h.1.mem h.1.ne_empty other hother.mem (Ne.symm hne) hstarts
    have hle := h.idxOf_le hother
    omega

/-- Of all symbols with which a symbol begins, it is itself the longest. -/
theorem takes_self (hmem : name ∈ alphabet) (hne : name ≠ "") :
  MatchStrategy.longestMatch.Takes alphabet name.toList name
  := by
  use ⟨hmem, hne, List.prefix_rfl⟩
  intro other hother hne'
  apply length_lt_of_toList_prefix hother.starts hne'

end MatchStrategy

/-- Where longer symbols are declared first, the two strategies make the same cut. -/
theorem Cut.longestMatch
    {alphabet : OrderedSet String} {text : List Char} {ps : List Piece}
    (hlonger : alphabet.LongerFirst) (h : Cut .declarationOrder alphabet text ps) :
  Cut .longestMatch alphabet text ps
  := by
  apply h.imp
  intro rest p _ hnext
  apply hnext.imp
  · intro name htakes
    apply htakes.longestMatch hlonger
  · exact fun _ => id

namespace Automaton

variable {d : Descriptor} {t : Table}

theorem pieces_eq_of_longerFirst (hlonger : d.alphabet.LongerFirst) (word : String) :
  (⟨d, t, ⟨.longestMatch⟩⟩ : Automaton).pieces word
    = (⟨d, t, ⟨.declarationOrder⟩⟩ : Automaton).pieces word
  := by
  have hcut := (⟨d, t, ⟨.declarationOrder⟩⟩ : Automaton).cut_pieces word
  apply (cut_pieces ⟨d, t, ⟨.longestMatch⟩⟩ word).unique (hcut.longestMatch hlonger)

/-- A symbol is the only token of itself where the longest symbol is taken. -/
theorem tokenize_self {v : String} (hmem : v ∈ d.alphabet) (hne : v ≠ "") :
  (⟨d, t, ⟨.longestMatch⟩⟩ : Automaton).tokenize v = .ok [v]
  := by
  apply tokenize_eq_ok_iff.mpr
  have htakes := MatchStrategy.takes_self hmem hne
  rw [← List.append_nil v.toList] at htakes
  have hcut := Cut.symbol htakes Cut.nil
  rw [List.append_nil] at hcut
  apply (cut_pieces _ v).unique hcut

/-- A symbol that is its only token where the symbol declared first is taken has no symbol
before it with which it begins. -/
theorem idxOf_le_of_tokenize_self
    {u v : String} (htokens : (⟨d, t, ⟨.declarationOrder⟩⟩ : Automaton).tokenize v = .ok [v])
    (hu : Possible d.alphabet v.toList u) :
  d.alphabet.toList.idxOf v ≤ d.alphabet.toList.idxOf u
  := by
  have hcut := cut_pieces ⟨d, t, ⟨.declarationOrder⟩⟩ v
  rw [tokenize_eq_ok_iff.mp htokens] at hcut
  generalize htext : v.toList = text at hcut hu
  cases hcut with
  | cons hnext hrest =>
    cases hnext with
    | symbol htakes => apply htakes.idxOf_le hu

end Automaton

/-- The two strategies cut all words alike exactly when every symbol, the empty one left out,
is declared after the symbols that it begins; and then they accept all words alike. -/
theorem tokenize_eq_iff_longerFirst (d : Descriptor) (t : Table) :
  ((∀ word, (⟨d, t, ⟨.longestMatch⟩⟩ : Automaton).tokenize word
        = (⟨d, t, ⟨.declarationOrder⟩⟩ : Automaton).tokenize word)
      ↔ d.alphabet.LongerFirst)
    ∧ (d.alphabet.LongerFirst → ∀ word,
      (⟨d, t, ⟨.longestMatch⟩⟩ : Automaton).accepts word
        = (⟨d, t, ⟨.declarationOrder⟩⟩ : Automaton).accepts word)
  := by
  have htokenize : d.alphabet.LongerFirst → ∀ word,
      (⟨d, t, ⟨.longestMatch⟩⟩ : Automaton).tokenize word
        = (⟨d, t, ⟨.declarationOrder⟩⟩ : Automaton).tokenize word := by
    intro hlonger word
    rw [Automaton.tokenize, Automaton.tokenize, Automaton.pieces_eq_of_longerFirst hlonger]
  constructor
  · use fun h => ?_, htokenize
    -- The word that tells the strategies apart is the longer symbol itself.
    intro u hu hne v hv huv hstarts
    have hne' : v ≠ "" := by
      rintro rfl
      apply hne
      apply String.toList_eq_nil_iff.mp (List.prefix_nil.mp hstarts)
    have htokens := Automaton.tokenize_self (t := t) hv hne'
    rw [h v] at htokens
    apply Nat.lt_of_le_of_ne (Automaton.idxOf_le_of_tokenize_self htokens ⟨hu, hne, hstarts⟩)
    intro hindex
    apply huv ((List.idxOf_inj hv).mp hindex).symm
  · intro hlonger word
    rw [Automaton.accepts, Automaton.accepts, htokenize hlonger word]
    rfl

/-- Symbols of one beginning are declared from the longest to the shortest here, with the empty
symbol first of all; in the order `a`, `aé` the word `aé` is cut in two ways. -/
theorem tokenize_eq_longerFirst_declared :
  let d := Descriptor.ofLists "M" ["q0"] ["", "aéé", "b", "aé", "a"] "q0" ["q0"]
  let e := Descriptor.ofLists "M" ["q0"] ["a", "aé"] "q0" ["q0"]
  d.alphabet.LongerFirst
    ∧ (⟨d, ∅, ⟨.longestMatch⟩⟩ : Automaton).accepts "aéba"
      = (⟨d, ∅, ⟨.declarationOrder⟩⟩ : Automaton).accepts "aéba"
    ∧ ∃ word, (⟨e, ∅, ⟨.longestMatch⟩⟩ : Automaton).tokenize word
      ≠ (⟨e, ∅, ⟨.declarationOrder⟩⟩ : Automaton).tokenize word
  := by
  intro d e
  have hlonger : d.alphabet.LongerFirst := by decide
  use hlonger, (tokenize_eq_iff_longerFirst d ∅).2 hlonger "aéba"
  apply Classical.not_forall.mp
  rw [(tokenize_eq_iff_longerFirst e ∅).1]
  decide

end Acceptor
