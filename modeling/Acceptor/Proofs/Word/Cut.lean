import Acceptor.Piece
import Acceptor.Text.ByteLength
import Mathlib.Tactic.Use

/-!
# Words cut into pieces

`Cut` says, without the order in which symbols are tried, how a word is cut from left to
right.  A symbol is possible at a place if it is not empty and the rest of the word begins
with it.  Where no symbol is possible, the next piece is a foreign character; elsewhere it
is the symbol that the strategy takes: the longest possible one, or the possible one that
is declared first.  `pieces` makes a cut (`cut_pieces`), there is no other (`Cut.unique`),
and `tokenize_cut` reads the tokens of a word off it.
-/

namespace Acceptor

/-! ### Possible symbols -/

/-- `name` is a symbol, other than the empty one, with which `text` begins. -/
structure Possible (alphabet : OrderedSet String) (text : List Char) (name : String) : Prop where
  mem : name ∈ alphabet
  ne_empty : name ≠ ""
  starts : name.toList <+: text

instance (alphabet : OrderedSet String) (text : List Char) (name : String) :
    Decidable (Possible alphabet text name) :=
  decidable_of_iff (name ∈ alphabet ∧ name ≠ "" ∧ name.toList <+: text)
    ⟨fun h => ⟨h.1, h.2.1, h.2.2⟩, fun h => ⟨h.mem, h.ne_empty, h.starts⟩⟩

/-- `name` is the symbol that a strategy takes where `text` is left: the possible symbol
that is longer than all others, or the one before which no possible one is declared. -/
def MatchStrategy.Takes (strategy : MatchStrategy) (alphabet : OrderedSet String)
    (text : List Char) (name : String) : Prop :=
  Possible alphabet text name ∧
    match strategy with
    | .longestMatch =>
      ∀ other, Possible alphabet text other → other ≠ name → other.length < name.length
    | .declarationOrder =>
      ∃ before after, alphabet.toList = before ++ name :: after ∧
        ∀ other ∈ before, ¬ Possible alphabet text other

/-- No symbol is possible where none of the alphabet is. -/
theorem not_possible_of_forall_mem {alphabet : OrderedSet String} {text : List Char}
    (h : ∀ name ∈ alphabet.toList, ¬ Possible alphabet text name) (name : String) :
  ¬ Possible alphabet text name
  := fun hname => h name hname.mem hname

/-- A string is shorter than any other that it begins. -/
theorem length_lt_of_toList_prefix {s t : String} (h : s.toList <+: t.toList) (hne : s ≠ t) :
  s.length < t.length
  := by
  rw [← String.length_toList, ← String.length_toList]
  apply Nat.lt_of_le_of_ne h.length_le
  intro hlength
  apply hne (String.toList_inj.mp (h.eq_of_length hlength))

/-- Of two strings with which a text begins, one that has no fewer bytes is longer. -/
theorem length_lt_of_utf8ByteSize_le
    {text : List Char} {s t : String} (hs : s.toList <+: text) (ht : t.toList <+: text)
    (hne : s ≠ t) (h : s.utf8ByteSize ≤ t.utf8ByteSize) :
  s.length < t.length
  := by
  rcases List.prefix_or_prefix_of_prefix hs ht with hst | hts
  · apply length_lt_of_toList_prefix hst hne
  · obtain ⟨rest, hrest⟩ := hts
    have hbytes := congrArg byteLength hrest
    rw [byteLength_append, byteLength_toList, byteLength_toList] at hbytes
    obtain rfl : rest = [] := by
      cases rest with
      | nil => rfl
      | cons c cs =>
        have hpos := c.utf8Size_pos
        rw [byteLength_cons] at hbytes
        omega
    rw [List.append_nil] at hrest
    exact absurd (String.toList_inj.mp hrest.symm) hne

namespace MatchStrategy

variable {strategy : MatchStrategy} {alphabet : OrderedSet String} {text : List Char}

/-- A strategy takes one symbol at most. -/
theorem Takes.unique {name name' : String}
    (h : strategy.Takes alphabet text name) (h' : strategy.Takes alphabet text name') :
  name = name'
  := by
  obtain ⟨hp, h⟩ := h
  obtain ⟨hp', h'⟩ := h'
  cases strategy with
  | longestMatch =>
    by_cases heq : name = name'
    · exact heq
    · have hlt := h name' hp' (Ne.symm heq)
      have hlt' := h' name hp heq
      omega
  | declarationOrder =>
    obtain ⟨before, after, hsplit, hbefore⟩ := h
    obtain ⟨before', after', hsplit', hbefore'⟩ := h'
    rw [hsplit] at hsplit'
    rcases List.append_eq_append_iff.mp hsplit' with ⟨middle, rfl, hcons⟩ | ⟨middle, rfl, hcons⟩
    · cases middle with
      | nil => exact (List.cons.inj hcons).1
      | cons s middle =>
        obtain ⟨rfl, -⟩ := List.cons.inj hcons
        exact absurd hp (hbefore' name (by simp))
    · cases middle with
      | nil => exact (List.cons.inj hcons).1.symm
      | cons s middle =>
        obtain ⟨rfl, -⟩ := List.cons.inj hcons
        exact absurd hp' (hbefore name' (by simp))

/-- Only symbols of the alphabet can be longer than one that is possible. -/
theorem takes_of_forall_mem {name : String} (h : Possible alphabet text name)
    (hshorter : ∀ other ∈ alphabet.toList, Possible alphabet text other → other ≠ name →
      other.length < name.length) :
  MatchStrategy.longestMatch.Takes alphabet text name
  := ⟨h, fun other hother => hshorter other hother.mem hother⟩

end MatchStrategy

/-! ### The candidate that is tried first -/

/-- A list that is filtered splits where the filtered list does. -/
theorem exists_append_of_filter_eq
    {α : Type} {p : α → Bool} {l before after : List α} {a : α}
    (h : l.filter p = before ++ a :: after) :
  ∃ before' after', l = before' ++ a :: after' ∧ ∀ b ∈ before', p b = true → b ∈ before
  := by
  obtain ⟨front, back, rfl, rfl, hback⟩ := List.filter_eq_append_iff.mp h
  obtain ⟨dropped, after', rfl, hdropped, -⟩ := List.filter_eq_cons_iff.mp hback
  use front ++ dropped, after', (List.append_assoc _ _ _).symm
  intro b hb hp
  rcases List.mem_append.mp hb with hb | hb
  · apply List.mem_filter.mpr ⟨hb, hp⟩
  · exact absurd hp (hdropped b hb)

namespace Candidates

variable {strategy : MatchStrategy} {alphabet : OrderedSet String} {text : List Char}

theorem mem_ofAlphabet {name : String} :
  name ∈ (ofAlphabet strategy alphabet).toList ↔ name ∈ alphabet ∧ name ≠ ""
  := by
  simp [ofAlphabet, OrderedSet.mem_def]

theorem first?_eq_none_iff :
  (ofAlphabet strategy alphabet).first? text = none ↔ ∀ name, ¬ Possible alphabet text name
  := by
  rw [first?, List.find?_eq_none]
  constructor
  · rintro h name ⟨hmem, hne, hstarts⟩
    apply h name (mem_ofAlphabet.mpr ⟨hmem, hne⟩)
    apply List.isPrefixOf_iff_prefix.mpr hstarts
  · intro h name hname hstarts
    obtain ⟨hmem, hne⟩ := mem_ofAlphabet.mp hname
    apply h name ⟨hmem, hne, List.isPrefixOf_iff_prefix.mp hstarts⟩

/-- Where a candidate is found, it is possible, and none that is tried before is. -/
theorem exists_of_first? {name : String}
    (h : (ofAlphabet strategy alphabet).first? text = some name) :
  Possible alphabet text name
    ∧ ∃ before after, (ofAlphabet strategy alphabet).toList = before ++ name :: after
      ∧ ∀ other ∈ before, ¬ Possible alphabet text other
  := by
  obtain ⟨hstarts, before, after, hsplit, hbefore⟩ := List.find?_eq_some_iff_append.mp h
  obtain ⟨hmem, hne⟩ := mem_ofAlphabet.mp (List.mem_of_find?_eq_some h)
  constructor
  · use hmem, hne
    apply List.isPrefixOf_iff_prefix.mp hstarts
  · use before, after, hsplit
    rintro other hother ⟨_, _, hstarts'⟩
    have hnot := hbefore other hother
    rw [List.isPrefixOf_iff_prefix.mpr hstarts'] at hnot
    cases hnot

/-- Symbols of more bytes are tried first. -/
theorem pairwise_arrange_longestMatch (names : List String) :
  (MatchStrategy.longestMatch.arrange names).Pairwise fun s t => t.utf8ByteSize ≤ s.utf8ByteSize
  := by
  have htrans : ∀ s t u : String, decide (t.utf8ByteSize ≤ s.utf8ByteSize) = true →
      decide (u.utf8ByteSize ≤ t.utf8ByteSize) = true →
      decide (u.utf8ByteSize ≤ s.utf8ByteSize) = true := by
    intro s t u hst htu
    rw [decide_eq_true_eq] at hst htu ⊢
    apply Nat.le_trans htu hst
  have htotal : ∀ s t : String, (decide (t.utf8ByteSize ≤ s.utf8ByteSize)
      || decide (s.utf8ByteSize ≤ t.utf8ByteSize)) = true := by
    intro s t
    rw [Bool.or_eq_true, decide_eq_true_eq, decide_eq_true_eq]
    apply Nat.le_total
  apply (List.pairwise_mergeSort htrans htotal names).imp
  intro s t hst
  apply of_decide_eq_true hst

/-- The first possible one of the symbols by their bytes is the longest. -/
theorem takes_longestMatch {name : String}
    (h : (ofAlphabet .longestMatch alphabet).first? text = some name) :
  MatchStrategy.longestMatch.Takes alphabet text name
  := by
  obtain ⟨hpossible, before, after, hsplit, hbefore⟩ := exists_of_first? h
  use hpossible
  intro other hother hne
  -- A possible symbol is not tried earlier, and those tried later have no more bytes.
  have hsorted : (ofAlphabet .longestMatch alphabet).toList.Pairwise
      fun s t => t.utf8ByteSize ≤ s.utf8ByteSize := pairwise_arrange_longestMatch _
  have hmem : other ∈ (ofAlphabet .longestMatch alphabet).toList :=
    mem_ofAlphabet.mpr ⟨hother.mem, hother.ne_empty⟩
  rw [hsplit] at hsorted hmem
  rcases List.mem_append.mp hmem with hmem | hmem
  · exact absurd hother (hbefore other hmem)
  rcases List.mem_cons.mp hmem with heq | hmem
  · exact absurd heq hne
  · have hle := List.rel_of_pairwise_cons (List.pairwise_append.mp hsorted).2.1 hmem
    apply length_lt_of_utf8ByteSize_le hother.starts hpossible.starts hne hle

/-- The first possible one of the symbols as they are declared is declared first among the
possible ones, the empty symbol counted as one that is not. -/
theorem takes_declarationOrder {name : String}
    (h : (ofAlphabet .declarationOrder alphabet).first? text = some name) :
  MatchStrategy.declarationOrder.Takes alphabet text name
  := by
  obtain ⟨hpossible, before, after, hsplit, hbefore⟩ := exists_of_first? h
  use hpossible
  obtain ⟨before', after', halphabet, hbefore'⟩ := exists_append_of_filter_eq hsplit
  use before', after', halphabet
  intro other hother hpossible'
  have hmem := hbefore' other hother (decide_eq_true hpossible'.ne_empty)
  apply hbefore other hmem hpossible'

/-- The first candidate with which a text begins is the symbol that the strategy takes. -/
theorem takes_of_first? {name : String}
    (h : (ofAlphabet strategy alphabet).first? text = some name) :
  strategy.Takes alphabet text name
  := by
  cases strategy with
  | longestMatch => apply takes_longestMatch h
  | declarationOrder => apply takes_declarationOrder h

end Candidates

/-! ### Cuts -/

/-- `p` is the piece that has to be cut off where `text` is left. -/
inductive IsNext (strategy : MatchStrategy) (alphabet : OrderedSet String) (text : List Char) :
    Piece → Prop
  /-- The symbol that the strategy takes. -/
  | symbol {name : String} :
      strategy.Takes alphabet text name → IsNext strategy alphabet text (.symbol name)
  /-- A character, where no symbol is possible. -/
  | foreign {c : Char} :
      (∀ name, ¬ Possible alphabet text name) → IsNext strategy alphabet text (.foreign c)

/-- A text is cut into pieces from left to right, each of which has to be cut off where it
stands. -/
inductive Cut (strategy : MatchStrategy) (alphabet : OrderedSet String) :
    List Char → List Piece → Prop
  | nil : Cut strategy alphabet [] []
  | cons {p : Piece} {rest : List Char} {ps : List Piece} :
      IsNext strategy alphabet (p.chars ++ rest) p → Cut strategy alphabet rest ps →
        Cut strategy alphabet (p.chars ++ rest) (p :: ps)

variable {strategy : MatchStrategy} {alphabet : OrderedSet String}

/-- Every piece that is cut off has characters. -/
theorem IsNext.chars_ne_nil {text : List Char} {p : Piece} (h : IsNext strategy alphabet text p) :
  p.chars ≠ []
  := by
  cases h with
  | @symbol name htakes =>
    intro hnil
    apply htakes.1.ne_empty
    apply String.toList_eq_nil_iff.mp hnil
  | foreign => apply List.cons_ne_nil

/-- There is one piece at most that has to be cut off. -/
theorem IsNext.unique
    {p q : Piece} {rest rest' : List Char} (h : IsNext strategy alphabet (p.chars ++ rest) p)
    (h' : IsNext strategy alphabet (p.chars ++ rest) q)
    (htext : p.chars ++ rest = q.chars ++ rest') :
  p = q
  := by
  cases h with
  | symbol htakes =>
    cases h' with
    | symbol htakes' => rw [htakes.unique htakes']
    | foreign hnone => exact absurd htakes.1 (hnone _)
  | foreign hnone =>
    cases h' with
    | symbol htakes' => exact absurd htakes'.1 (hnone _)
    | foreign => rw [(List.cons.inj htext).1]

/-- What has to be cut off is the same where the strategy takes the same symbols and no more are
possible. -/
theorem IsNext.imp
    {strategy' : MatchStrategy} {alphabet' : OrderedSet String} {text : List Char} {p : Piece}
    (htakes : ∀ name, strategy.Takes alphabet text name → strategy'.Takes alphabet' text name)
    (hpossible : ∀ name, Possible alphabet' text name → Possible alphabet text name)
    (h : IsNext strategy alphabet text p) :
  IsNext strategy' alphabet' text p
  := by
  cases h with
  | symbol h => apply IsNext.symbol (htakes _ h)
  | foreign hnone =>
    apply IsNext.foreign
    intro name hname
    apply hnone name (hpossible name hname)

namespace Cut

variable {text : List Char} {ps qs : List Piece}

/-- A symbol is cut off. -/
theorem symbol {name : String} {rest : List Char}
    (htakes : strategy.Takes alphabet (name.toList ++ rest) name)
    (h : Cut strategy alphabet rest ps) :
  Cut strategy alphabet (name.toList ++ rest) (.symbol name :: ps)
  := cons (p := .symbol name) (.symbol htakes) h

/-- A foreign character is cut off. -/
theorem foreign {c : Char} {cs : List Char} (hnone : ∀ name, ¬ Possible alphabet (c :: cs) name)
    (h : Cut strategy alphabet cs ps) :
  Cut strategy alphabet (c :: cs) (.foreign c :: ps)
  := cons (p := .foreign c) (.foreign hnone) h

/-- A text is cut alike where the same piece has to be cut off from each of its ends. -/
theorem imp
    {strategy' : MatchStrategy} {alphabet' : OrderedSet String}
    (himp : ∀ rest p, rest <:+ text → IsNext strategy alphabet rest p →
      IsNext strategy' alphabet' rest p)
    (h : Cut strategy alphabet text ps) :
  Cut strategy' alphabet' text ps
  := by
  induction h with
  | nil => apply Cut.nil
  | @cons p rest ps hnext _ ih =>
    apply Cut.cons (himp _ p List.suffix_rfl hnext)
    apply ih
    intro rest' p' hsuffix
    apply himp rest' p' (hsuffix.trans (List.suffix_append _ _))

/-- The pieces of a cut make up the text. -/
theorem flatMap_chars (h : Cut strategy alphabet text ps) :
  ps.flatMap Piece.chars = text
  := by
  induction h with
  | nil => rfl
  | cons _ _ ih => rw [List.flatMap_cons, ih]

theorem length_le (h : Cut strategy alphabet text ps) :
  ps.length ≤ text.length
  := by
  induction h with
  | nil => apply Nat.le_refl
  | cons hnext _ ih =>
    have hpos := List.length_pos_iff.mpr hnext.chars_ne_nil
    rw [List.length_cons, List.length_append]
    omega

/-- There is one cut at most. -/
theorem unique (h : Cut strategy alphabet text ps) (h' : Cut strategy alphabet text qs) :
  ps = qs
  := by
  induction h generalizing qs with
  | nil =>
    generalize htext : [] = text at h'
    cases h' with
    | nil => rfl
    | cons hnext _ => exact absurd (List.append_eq_nil_iff.mp htext.symm).1 hnext.chars_ne_nil
  | @cons p rest ps hnext _ ih =>
    generalize htext : p.chars ++ rest = text at h'
    cases h' with
    | nil => exact absurd (List.append_eq_nil_iff.mp htext).1 hnext.chars_ne_nil
    | @cons q rest' qs hnext' hcut' =>
      rw [← htext] at hnext'
      obtain rfl := hnext.unique hnext' htext
      rw [← List.append_cancel_left htext] at hcut'
      rw [ih hcut']

/-- The symbols of a cut are symbols of the alphabet other than the empty one. -/
theorem mem_of_symbol_mem (h : Cut strategy alphabet text ps) {name : String}
    (hname : .symbol name ∈ ps) :
  name ∈ alphabet ∧ name ≠ ""
  := by
  induction h with
  | nil => cases hname
  | @cons p rest ps hnext _ ih =>
    rcases List.mem_cons.mp hname with rfl | hname
    · cases hnext with
      | symbol htakes => exact ⟨htakes.1.mem, htakes.1.ne_empty⟩
    · apply ih hname

end Cut

/-- `pieces` cuts a text. -/
theorem cut_pieces (strategy : MatchStrategy) (alphabet : OrderedSet String) (text : List Char) :
  Cut strategy alphabet text (pieces (.ofAlphabet strategy alphabet) text)
  := by
  -- Not on the characters: a symbol takes several of them off at once.
  induction hn : text.length using Nat.strongRecOn generalizing text with
  | ind n ih =>
  subst hn
  cases hfirst : (Candidates.ofAlphabet strategy alphabet).first? text with
  | some name =>
    have htext := Candidates.exists_append_of_first? hfirst
    have hpos := Candidates.length_pos_of_first? hfirst
    have hlt : (text.drop name.length).length < text.length := by
      have hlength := congrArg List.length htext
      rw [List.length_append, String.length_toList] at hlength
      omega
    have htakes := Candidates.takes_of_first? hfirst
    rw [htext] at htakes
    have hcut := Cut.symbol htakes (ih _ hlt _ rfl)
    rwa [← htext, ← pieces_of_first?_eq_some hfirst] at hcut
  | none =>
    cases text with
    | nil =>
      rw [pieces_nil]
      apply Cut.nil
    | cons c cs =>
      rw [pieces_of_first?_eq_none hfirst]
      apply Cut.foreign (Candidates.first?_eq_none_iff.mp hfirst)
      apply ih _ (Nat.lt_succ_self _) _ rfl

/-! ### Tokens -/

theorem mem_filterMap_foreign? {ps : List Piece} {c : Char} :
  c ∈ ps.filterMap Piece.foreign? ↔ .foreign c ∈ ps
  := by
  rw [List.mem_filterMap]
  constructor
  · rintro ⟨p, hp, hc⟩
    cases p with
    | symbol name => cases hc
    | foreign d =>
      obtain rfl := Option.some.inj hc
      exact hp
  · intro h
    use .foreign c, h
    rfl

theorem filterMap_foreign?_ne_nil_iff {ps : List Piece} :
  ps.filterMap Piece.foreign? ≠ [] ↔ ∃ c, .foreign c ∈ ps
  := by
  constructor
  · intro h
    obtain ⟨c, hc⟩ := List.exists_mem_of_ne_nil _ h
    use c, mem_filterMap_foreign?.mp hc
  · rintro ⟨c, hc⟩
    apply List.ne_nil_of_mem (mem_filterMap_foreign?.mpr hc)

/-- Pieces none of which is foreign are symbols. -/
theorem filterMap_foreign?_eq_nil_iff {ps : List Piece} :
  ps.filterMap Piece.foreign? = [] ↔ ∃ names : List String, ps = names.map Piece.symbol
  := by
  constructor
  · intro h
    induction ps with
    | nil =>
      use []
      rfl
    | cons p ps ih =>
      cases p with
      | symbol name =>
        obtain ⟨names, rfl⟩ := ih h
        use name :: names
        rfl
      | foreign c => cases h
  · rintro ⟨names, rfl⟩
    rw [List.filterMap_map]
    apply List.filterMap_eq_nil_iff.mpr
    intro name _
    rfl

theorem filterMap_symbol?_map_symbol (names : List String) :
  (names.map Piece.symbol).filterMap Piece.symbol? = names
  := by
  rw [List.filterMap_map]
  apply List.filterMap_some

theorem map_symbol_inj {names names' : List String} :
  names.map Piece.symbol = names'.map Piece.symbol ↔ names = names'
  := List.map_inj_right fun _ _ h => Piece.symbol.inj h

namespace Automaton

variable {a : Automaton} {word : String}

/-- The pieces of a word are a cut of it. -/
theorem cut_pieces (a : Automaton) (word : String) :
  Cut a.config.strategy a.descriptor.alphabet word.toList (a.pieces word)
  := Acceptor.cut_pieces _ _ _

/-- A word has tokens when its pieces are symbols. -/
theorem tokenize_eq_ok_iff {symbols : List String} :
  a.tokenize word = .ok symbols ↔ a.pieces word = symbols.map Piece.symbol
  := by
  rw [tokenize]
  split
  · next hnone =>
    obtain ⟨names, hnames⟩ := filterMap_foreign?_eq_nil_iff.mp hnone
    rw [hnames, filterMap_symbol?_map_symbol, map_symbol_inj, Except.ok.injEq]
  · next hsome =>
    constructor
    · intro h
      cases h
    · intro h
      exact absurd (filterMap_foreign?_eq_nil_iff.mpr ⟨symbols, h⟩) hsome

/-- A word has no tokens when a piece is foreign, and the error lists all that are. -/
theorem tokenize_eq_error_iff {e : InvalidSymbol} :
  a.tokenize word = .error e
    ↔ (∃ c, .foreign c ∈ a.pieces word)
      ∧ e = ⟨word, String.ofList ((a.pieces word).filterMap Piece.foreign?)⟩
  := by
  rw [← filterMap_foreign?_ne_nil_iff, tokenize]
  split
  · next hnone => simp [hnone]
  · next hsome =>
    rw [Except.error.injEq, eq_comm]
    constructor
    · intro h
      use hsome, h
    · apply And.right

/-- The tokens of a word are symbols other than the empty one, and they make up the word. -/
theorem join_of_tokenize {symbols : List String} (h : a.tokenize word = .ok symbols) :
  (∀ s ∈ symbols, s ∈ a.descriptor.alphabet ∧ s ≠ "") ∧ String.join symbols = word
  := by
  have hcut := a.cut_pieces word
  rw [tokenize_eq_ok_iff.mp h] at hcut
  constructor
  · intro s hs
    apply hcut.mem_of_symbol_mem (List.mem_map_of_mem hs)
  · have hchars := hcut.flatMap_chars
    rw [List.flatMap_map] at hchars
    rw [← String.toList_inj, String.toList_join]
    apply hchars

end Automaton

/-- A word is cut in one way into pieces.  Its tokens are the pieces if all of them are
symbols; these are symbols of the alphabet other than the empty one and make up the word.
Otherwise the error holds all foreign characters, of which there is one at least. -/
theorem tokenize_cut (a : Automaton) (word : String) :
  ∃ ps, Cut a.config.strategy a.descriptor.alphabet word.toList ps
    ∧ (∀ qs, Cut a.config.strategy a.descriptor.alphabet word.toList qs → qs = ps)
    ∧ ps.length ≤ word.length
    ∧ (∀ symbols, a.tokenize word = .ok symbols ↔ ps = symbols.map Piece.symbol)
    ∧ (∀ symbols, a.tokenize word = .ok symbols →
      (∀ s ∈ symbols, s ∈ a.descriptor.alphabet ∧ s ≠ "") ∧ String.join symbols = word)
    ∧ (∀ e, a.tokenize word = .error e
      ↔ (∃ c, .foreign c ∈ ps)
        ∧ e = ⟨word, String.ofList (ps.filterMap Piece.foreign?)⟩)
    ∧ ∀ e, a.tokenize word = .error e → e.residue ≠ ""
  := by
  have hcut := a.cut_pieces word
  use a.pieces word, hcut
  and_intros
  · intro qs hqs
    apply hqs.unique hcut
  · rw [← String.length_toList]
    apply hcut.length_le
  · intro symbols
    apply Automaton.tokenize_eq_ok_iff
  · intro symbols
    apply Automaton.join_of_tokenize
  · intro e
    apply Automaton.tokenize_eq_error_iff
  · intro e he
    obtain ⟨hforeign, rfl⟩ := Automaton.tokenize_eq_error_iff.mp he
    intro hempty
    apply filterMap_foreign?_ne_nil_iff.mpr hforeign
    apply String.ofList_eq_empty_iff.mp hempty

/-- The longer of two possible symbols is taken here, and the symbol that begins inside it is
not: of it, one character is left over. -/
theorem tokenize_cut_overlapping :
  let a : Automaton :=
    ⟨Descriptor.ofLists "M" [] ["", "a", "aé", "éx"] "q0" [], ∅, default⟩
  Cut .longestMatch a.descriptor.alphabet "aéxa".toList
      [.symbol "aé", .foreign 'x', .symbol "a"]
    ∧ a.tokenize "aéxa" = .error ⟨"aéxa", "x"⟩
  := by
  intro a
  have hfirst : MatchStrategy.longestMatch.Takes a.descriptor.alphabet
      ("aé".toList ++ "xa".toList) "aé" := by
    apply MatchStrategy.takes_of_forall_mem <;> decide
  have hforeign : ∀ name, ¬ Possible a.descriptor.alphabet "xa".toList name := by
    apply not_possible_of_forall_mem
    decide
  have hlast : MatchStrategy.longestMatch.Takes a.descriptor.alphabet
      ("a".toList ++ []) "a" := by
    apply MatchStrategy.takes_of_forall_mem <;> decide
  have hcut : Cut .longestMatch a.descriptor.alphabet "aéxa".toList
      [.symbol "aé", .foreign 'x', .symbol "a"] :=
    .symbol hfirst (.foreign hforeign (.symbol hlast .nil))
  obtain ⟨ps, -, hunique, -, -, -, herror, -⟩ := tokenize_cut a "aéxa"
  obtain rfl := hunique _ hcut
  use hcut
  apply (herror _).mpr
  use ⟨'x', by decide⟩
  rfl

end Acceptor
