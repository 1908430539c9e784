import Acceptor.Proofs.Word.Cut

/-!
# Prefix-free alphabets

An alphabet is prefix-free if no symbol other than the empty one begins another symbol.
One symbol at most is then possible at each place of a word, so that both strategies take
it, and the symbols of which a word is made up are its tokens (`tokenize_join`).
-/

namespace Acceptor

/-- No symbol, other than the empty one, is the beginning of another symbol. -/
def OrderedSet.PrefixFree (alphabet : OrderedSet String) : Prop :=
  ∀ s ∈ alphabet.toList, s ≠ "" → ∀ t ∈ alphabet.toList, s.toList <+: t.toList → s = t

instance (alphabet : OrderedSet String) : Decidable alphabet.PrefixFree :=
  inferInstanceAs (Decidable
    (∀ s ∈ alphabet.toList, s ≠ "" → ∀ t ∈ alphabet.toList, s.toList <+: t.toList → s = t))

variable {strategy : MatchStrategy} {alphabet : OrderedSet String} {text : List Char}

/-- One symbol at most is possible at a place. -/
theorem Possible.unique
    (hfree : alphabet.PrefixFree) {s t : String} (hs : Possible alphabet text s)
    (ht : Possible alphabet text t) :
  s = t
  := by
  rcases List.prefix_or_prefix_of_prefix hs.starts ht.starts with hst | hts
  · apply hfree s hs.mem hs.ne_empty t ht.mem hst
  · symm
    apply hfree t ht.mem ht.ne_empty s hs.mem hts

/-- Every strategy takes the symbol that is possible. -/
theorem Possible.takes
    (hfree : alphabet.PrefixFree) {name : String} (h : Possible alphabet text name)
    (strategy : MatchStrategy) :
  strategy.Takes alphabet text name
  := by
  use h
  cases strategy with
  | longestMatch =>
    intro other hother hne
    exact absurd (hother.unique hfree h) hne
  | declarationOrder =>
    obtain ⟨before, after, hsplit, hnotMem⟩ := List.eq_append_cons_of_mem h.mem
    use before, after, hsplit
    intro other hother hpossible
    obtain rfl := hpossible.unique hfree h
    exact hnotMem hother

/-- Symbols in front of a text are cut off, whatever the text. -/
theorem Cut.symbols_append
    (hfree : alphabet.PrefixFree) {names : List String}
    (h : ∀ name ∈ names, name ∈ alphabet ∧ name ≠ "") {ps : List Piece}
    (hcut : Cut strategy alphabet text ps) :
  Cut strategy alphabet (names.flatMap String.toList ++ text) (names.map Piece.symbol ++ ps)
  := by
  induction names with
  | nil => exact hcut
  | cons name names ih =>
    obtain ⟨hmem, hne⟩ := h name List.mem_cons_self
    have hnames := ih fun n hn => h n (List.mem_cons_of_mem _ hn)
    have hpossible :
        Possible alphabet (name.toList ++ (names.flatMap String.toList ++ text)) name :=
      ⟨hmem, hne, List.prefix_append _ _⟩
    rw [List.flatMap_cons, List.append_assoc]
    apply Cut.symbol (hpossible.takes hfree strategy) hnames

theorem join_filter_ne_empty (names : List String) :
  String.join (names.filter (· ≠ "")) = String.join names
  := by
  rw [← String.toList_inj, String.toList_join, String.toList_join]
  induction names with
  | nil => rfl
  | cons name names ih =>
    by_cases hne : name = ""
    · rw [List.filter_cons_of_neg (by simpa using hne), ih, hne]
      rfl
    · rw [List.filter_cons_of_pos (by simpa using hne), List.flatMap_cons, List.flatMap_cons, ih]

namespace Automaton

variable {a : Automaton}

/-- The pieces of a word that symbols begin are these symbols and the pieces of the rest. -/
theorem pieces_join_append
    (hfree : a.descriptor.alphabet.PrefixFree) {names : List String}
    (h : ∀ name ∈ names, name ∈ a.descriptor.alphabet ∧ name ≠ "") (rest : String) :
  a.pieces (String.join names ++ rest) = names.map Piece.symbol ++ a.pieces rest
  := by
  apply (a.cut_pieces _).unique
  rw [String.toList_append, String.toList_join]
  apply (a.cut_pieces rest).symbols_append hfree h

/-- The tokens of joined symbols are these symbols. -/
theorem tokenize_join_of_ne_empty
    (hfree : a.descriptor.alphabet.PrefixFree) {names : List String}
    (h : ∀ name ∈ names, name ∈ a.descriptor.alphabet ∧ name ≠ "") :
  a.tokenize (String.join names) = .ok names
  := by
  apply tokenize_eq_ok_iff.mpr
  have hpieces := pieces_join_append hfree h ""
  have hempty : a.pieces "" = [] := pieces_nil _
  rwa [String.append_empty, hempty, List.append_nil] at hpieces

/-- A word has tokens exactly when it is made up of symbols. -/
theorem exists_tokenize_iff (hfree : a.descriptor.alphabet.PrefixFree) {word : String} :
  (∃ symbols, a.tokenize word = .ok symbols)
    ↔ ∃ names : List String, (∀ name ∈ names, name ∈ a.descriptor.alphabet)
      ∧ String.join names = word
  := by
  constructor
  · rintro ⟨symbols, h⟩
    obtain ⟨hmem, hjoin⟩ := join_of_tokenize h
    use symbols, fun s hs => (hmem s hs).1
  · rintro ⟨names, hmem, rfl⟩
    use names.filter (· ≠ "")
    rw [← join_filter_ne_empty]
    apply tokenize_join_of_ne_empty hfree
    intro name hname
    rw [List.mem_filter, decide_eq_true_eq] at hname
    use hmem name hname.1, hname.2

end Automaton

/-- Where no symbol begins another, the tokens of joined symbols are these symbols, whatever
the strategy; and a word that is not made up of symbols, the empty one included, has no
tokens. -/
theorem tokenize_join {a : Automaton} (hfree : a.descriptor.alphabet.PrefixFree) :
  (∀ names : List String, (∀ name ∈ names, name ∈ a.descriptor.alphabet ∧ name ≠ "") →
      a.tokenize (String.join names) = .ok names)
    ∧ ∀ word,
      ((∃ symbols, a.tokenize word = .ok symbols)
          ↔ ∃ names : List String, (∀ name ∈ names, name ∈ a.descriptor.alphabet)
            ∧ String.join names = word)
        ∧ ((∃ residue, a.tokenize word = .error ⟨word, residue⟩)
          ↔ ¬ ∃ names : List String, (∀ name ∈ names, name ∈ a.descriptor.alphabet)
            ∧ String.join names = word)
  := by
  constructor
  · intro names hnames
    apply Automaton.tokenize_join_of_ne_empty hfree hnames
  · intro word
    use Automaton.exists_tokenize_iff hfree
    rw [← Automaton.exists_tokenize_iff hfree]
    cases htokens : a.tokenize word with
    | ok symbols => simp
    | error e =>
      obtain ⟨_, rfl⟩ := Automaton.tokenize_eq_error_iff.mp htokens
      simp

/-- The empty symbol is declared here, and symbols share beginnings. -/
theorem tokenize_join_shared :
  let a : Automaton :=
    ⟨Descriptor.ofLists "M" [] ["aé", "", "ab", "b"] "q0" [], ∅, .declarationOrder⟩
  a.descriptor.alphabet.PrefixFree
    ∧ a.tokenize "abaéb" = .ok ["ab", "aé", "b"]
    ∧ ∃ symbols, a.tokenize "b" = .ok symbols
  := by
  intro a
  have hfree : a.descriptor.alphabet.PrefixFree := by decide
  obtain ⟨hjoin, hiff⟩ := tokenize_join hfree
  use hfree
  constructor
  · apply hjoin ["ab", "aé", "b"]
    decide
  · apply (hiff "b").1.mpr
    use ["", "b"]
    decide

end Acceptor
