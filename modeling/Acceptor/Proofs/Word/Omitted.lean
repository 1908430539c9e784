import Acceptor.Proofs.Run
import Acceptor.Proofs.Word.Cut

/-!
# Characters that no symbol has

A symbol that is possible somewhere in a word ends before the next character that no symbol
has.  Such a character is therefore a piece of its own, and the texts on its two sides are cut
as if they stood alone (`Cut.append_omitted`).  The error of the whole word has the residues of
both sides with the character between them (`tokenize_omitted`).
-/

namespace Acceptor

/-- No symbol has the character `c`. -/
def OrderedSet.Omits (alphabet : OrderedSet String) (c : Char) : Prop :=
  ∀ s ∈ alphabet.toList, c ∉ s.toList

instance (alphabet : OrderedSet String) (c : Char) : Decidable (alphabet.Omits c) :=
  inferInstanceAs (Decidable (∀ s ∈ alphabet.toList, c ∉ s.toList))

/-- The characters of a word that belong to no token, as its error reports them; there are
none if it has tokens. -/
def Automaton.residue (a : Automaton) (word : String) : String :=
  match a.tokenize word with
  | .ok _ => ""
  | .error e => e.residue

variable {strategy : MatchStrategy} {alphabet : OrderedSet String} {c : Char}
variable {x y : List Char} {ps qs : List Piece}

/-! ### Cuts -/

/-- The symbols that are possible before an omitted character end before it. -/
theorem possible_append_omitted_iff (hc : alphabet.Omits c) {name : String} :
  Possible alphabet (x ++ c :: y) name ↔ Possible alphabet x name
  := by
  constructor
  · rintro ⟨hmem, hne, hstarts⟩
    use hmem, hne
    rcases List.prefix_or_prefix_of_prefix hstarts (List.prefix_append x _) with h | ⟨more, h⟩
    · exact h
    · rw [← h, List.prefix_append_right_inj] at hstarts
      cases more with
      | nil =>
        use []
        rw [← h, List.append_nil, List.append_nil]
      | cons d more =>
        obtain ⟨rfl, -⟩ := List.cons_prefix_cons.mp hstarts
        apply absurd _ (hc name hmem)
        rw [← h]
        simp
  · rintro ⟨hmem, hne, hstarts⟩
    use hmem, hne
    apply hstarts.trans (List.prefix_append x _)

/-- What a strategy takes depends only on the symbols that are possible. -/
theorem MatchStrategy.Takes.congr
    {text text' : List Char} {name : String}
    (hpossible : ∀ s, Possible alphabet text s ↔ Possible alphabet text' s)
    (h : strategy.Takes alphabet text name) :
  strategy.Takes alphabet text' name
  := by
  obtain ⟨hname, h⟩ := h
  use (hpossible name).mp hname
  cases strategy with
  | longestMatch =>
    intro other hother
    apply h other ((hpossible other).mpr hother)
  | declarationOrder =>
    obtain ⟨before, after, hsplit, hbefore⟩ := h
    use before, after, hsplit
    intro other hother hpossible'
    apply hbefore other hother ((hpossible other).mpr hpossible')

/-- An omitted character is cut off by itself, and the texts on its two sides are cut as if
they stood alone. -/
theorem Cut.append_omitted
    (hc : alphabet.Omits c) (hx : Cut strategy alphabet x ps) (hy : Cut strategy alphabet y qs) :
  Cut strategy alphabet (x ++ c :: y) (ps ++ .foreign c :: qs)
  := by
  induction hx with
  | nil =>
    apply Cut.foreign _ hy
    intro name hname
    apply hname.ne_empty
    rw [← List.nil_append (c :: y), possible_append_omitted_iff hc] at hname
    apply String.toList_eq_nil_iff.mp (List.prefix_nil.mp hname.starts)
  | @cons p rest ps hnext _ ih =>
    rw [List.append_assoc]
    cases hnext with
    | symbol htakes =>
      apply Cut.symbol _ ih
      apply htakes.congr
      intro s
      rw [← List.append_assoc, possible_append_omitted_iff hc]
      rfl
    | foreign hnone =>
      apply Cut.foreign _ ih
      intro name hname
      apply hnone name
      rw [← List.cons_append, possible_append_omitted_iff hc] at hname
      apply hname

/-- The omitted characters of a text are among the foreign pieces of its cut, in the order of
the text. -/
theorem Cut.filter_omitted (h : Cut strategy alphabet x ps) :
  (ps.filterMap Piece.foreign?).filter (alphabet.Omits ·) = x.filter (alphabet.Omits ·)
  := by
  induction h with
  | nil => rfl
  | @cons p rest ps hnext _ ih =>
    rw [List.filter_append, ← ih]
    cases hnext with
    | @symbol name htakes =>
      have hnone : name.toList.filter (alphabet.Omits ·) = [] := by
        apply List.filter_eq_nil_iff.mpr
        intro d hd homits
        apply of_decide_eq_true homits name htakes.1.mem hd
      rw [Piece.chars, hnone]
      rfl
    | @foreign d hnone =>
      apply List.filter_append [d]

/-! ### Residues -/

namespace Automaton

variable {a : Automaton}

theorem toList_residue (a : Automaton) (word : String) :
  (a.residue word).toList = (a.pieces word).filterMap Piece.foreign?
  := by
  rw [residue]
  split
  · next symbols h =>
    rw [tokenize_eq_ok_iff.mp h, filterMap_foreign?_eq_nil_iff.mpr ⟨symbols, rfl⟩]
    rfl
  · next e h =>
    obtain ⟨-, rfl⟩ := tokenize_eq_error_iff.mp h
    rw [String.toList_ofList]

theorem residue_of_tokenize {word : String} {symbols : List String}
    (h : a.tokenize word = .ok symbols) :
  a.residue word = ""
  := by
  rw [residue, h]

/-- The pieces of a word with an omitted character are those of its two sides, with the
character between them. -/
theorem pieces_append_omitted (hc : a.descriptor.alphabet.Omits c) (x y : String) :
  a.pieces (x ++ String.singleton c ++ y) = a.pieces x ++ .foreign c :: a.pieces y
  := by
  have hcut := (a.cut_pieces x).append_omitted hc (a.cut_pieces y)
  have hword : (x ++ String.singleton c ++ y).toList = x.toList ++ c :: y.toList := by
    simp
  rw [← hword] at hcut
  apply (a.cut_pieces _).unique hcut

/-- The residue of a word with an omitted character holds the residues of its two sides. -/
theorem residue_append_omitted (hc : a.descriptor.alphabet.Omits c) (x y : String) :
  a.residue (x ++ String.singleton c ++ y)
    = a.residue x ++ String.singleton c ++ a.residue y
  := by
  rw [← String.toList_inj, toList_residue, pieces_append_omitted hc]
  simp [toList_residue, Piece.foreign?]

theorem tokenize_append_omitted (hc : a.descriptor.alphabet.Omits c) (x y : String) :
  a.tokenize (x ++ String.singleton c ++ y)
    = .error ⟨x ++ String.singleton c ++ y, a.residue x ++ String.singleton c ++ a.residue y⟩
  := by
  apply tokenize_eq_error_iff.mpr
  constructor
  · use c
    rw [pieces_append_omitted hc]
    simp
  · rw [← toList_residue, String.ofList_toList, residue_append_omitted hc]

/-- The residue of texts that have tokens, with omitted characters between them, consists of
these characters. -/
theorem residue_append_join
    {first : String} {rest : List (Char × String)} {symbols : List String}
    (hfirst : a.tokenize first = .ok symbols)
    (hrest : ∀ p ∈ rest,
      a.descriptor.alphabet.Omits p.1 ∧ ∃ symbols, a.tokenize p.2 = .ok symbols) :
  a.residue (first ++ String.join (rest.map fun p => String.singleton p.1 ++ p.2))
    = String.ofList (rest.map Prod.fst)
  := by
  induction rest generalizing first symbols with
  | nil =>
    rw [List.map_nil, String.join_nil, String.append_empty]
    apply residue_of_tokenize hfirst
  | cons p rest ih =>
    obtain ⟨homits, symbols', hp⟩ := hrest p List.mem_cons_self
    have hword : first ++ String.join ((p :: rest).map fun p => String.singleton p.1 ++ p.2)
        = first ++ String.singleton p.1
          ++ (p.2 ++ String.join (rest.map fun p => String.singleton p.1 ++ p.2)) := by
      rw [List.map_cons, String.join_cons, String.append_assoc, String.append_assoc]
    rw [hword, residue_append_omitted homits, residue_of_tokenize hfirst,
      ih hp fun q hq => hrest q (List.mem_cons_of_mem p hq), String.empty_append, List.map_cons,
      String.ofList_cons]

end Automaton

/-- A character that no symbol has divides a word into two texts that are cut apart: the error
of the word, which is also its outcome, has the residue of the text before, the character, and
the residue of the text after.  So every such character of a word is reported, as often as it
occurs and in its place, and nothing else is reported when the texts between them have tokens. -/
theorem tokenize_omitted (a : Automaton) :
  (∀ c, a.descriptor.alphabet.Omits c → ∀ x y : String,
      let word := x ++ String.singleton c ++ y
      let e : InvalidSymbol := ⟨word, a.residue x ++ String.singleton c ++ a.residue y⟩
      a.tokenize word = .error e ∧ a.accepts word = .error e)
    ∧ (∀ word, (a.residue word).toList.filter (a.descriptor.alphabet.Omits ·)
      = word.toList.filter (a.descriptor.alphabet.Omits ·))
    ∧ ∀ (first : String) (rest : List (Char × String)),
      (∃ symbols, a.tokenize first = .ok symbols) →
      (∀ p ∈ rest, a.descriptor.alphabet.Omits p.1 ∧ ∃ symbols, a.tokenize p.2 = .ok symbols) →
        a.residue (first ++ String.join (rest.map fun p => String.singleton p.1 ++ p.2))
          = String.ofList (rest.map Prod.fst)
  := by
  and_intros
  · intro c hc x y word e
    have htokens : a.tokenize word = .error e := Automaton.tokenize_append_omitted hc x y
    use htokens, accepts_of_tokenize_error htokens
  · intro word
    rw [Automaton.toList_residue, (a.cut_pieces word).filter_omitted]
  · rintro first rest ⟨symbols, hfirst⟩ hrest
    apply Automaton.residue_append_join hfirst hrest

/-- The symbols overlap here, and on both sides of the omitted character something is left
over. -/
theorem tokenize_omitted_overlapping :
  let a : Automaton :=
    ⟨Descriptor.ofLists "M" [] ["ab", "aba", "b"] "q0" [], ∅, .declarationOrder⟩
  a.descriptor.alphabet.Omits 'é'
    ∧ a.tokenize "abaéba" = .error ⟨"abaéba", "aéa"⟩
    ∧ a.accepts "abaéba" = .error ⟨"abaéba", "aéa"⟩
    ∧ a.residue "abéébab" = "éé"
  := by
  intro a
  have homits : a.descriptor.alphabet.Omits 'é' := by decide
  have hbefore : a.residue "aba" = "a" := by
    with_unfolding_all rfl
  have hafter : a.residue "ba" = "a" := by
    with_unfolding_all rfl
  obtain ⟨hhalves, -, hparts⟩ := tokenize_omitted a
  obtain ⟨htokens, haccepts⟩ := hhalves 'é' homits "aba" "ba"
  rw [hbefore, hafter] at htokens haccepts
  use homits, htokens, haccepts
  apply hparts "ab" [('é', ""), ('é', "bab")]
  · use ["ab"]
    with_unfolding_all rfl
  · intro p hp
    simp only [List.mem_cons, List.not_mem_nil, or_false] at hp
    rcases hp with rfl | rfl
    · use homits, []
      with_unfolding_all rfl
    · use homits, ["b", "ab"]
      with_unfolding_all rfl

end Acceptor
