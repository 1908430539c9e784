import Acceptor.Proofs.Run
import Acceptor.Proofs.Table
import Acceptor.Proofs.Word.PrefixFree
import Acceptor.Violation

/-!
# Equivalent automata

Equivalent automata differ at most in the orders of their sets and rows.  They are
consistent alike, and what is wrong with them is the same up to its order.  They cut and
accept words alike if their strategy is to take the longest symbol, or if their alphabet is
prefix-free.  For `MatchStrategy.declarationOrder` this cannot be dropped: an alphabet that
is not prefix-free can be reordered so that some word is cut in another way
(`equiv_behaviour`).
-/

namespace Acceptor

/-! ### Sets and tables in other orders -/

theorem OrderedSet.perm_of_equiv {α : Type} {s t : OrderedSet α} (h : s ≈ t) :
  s.toList.Perm t.toList
  := (List.perm_ext_iff_of_nodup s.nodup t.nodup).mpr (equiv_iff.mp h)

namespace Table

variable {t u : Table}

/-- Tables are equivalent when they have the same rows. -/
theorem equiv_iff :
  t ≈ u ↔ ∀ row, row ∈ t.entries ↔ row ∈ u.entries
  := by
  constructor
  · rintro ⟨h, h'⟩ row
    constructor
    · intro hrow
      apply get?_eq_some_iff.mp (h row hrow)
    · intro hrow
      apply get?_eq_some_iff.mp (h' row hrow)
  · intro h
    constructor
    · intro row hrow
      apply get?_eq_some_iff.mpr ((h row).mp hrow)
    · intro row hrow
      apply get?_eq_some_iff.mpr ((h row).mpr hrow)

theorem perm_of_equiv (h : t ≈ u) :
  t.entries.Perm u.entries
  := (List.perm_ext_iff_of_nodup t.nodup.of_map u.nodup.of_map).mpr (equiv_iff.mp h)

/-- Equivalent tables lead alike. -/
theorem get?_of_equiv (h : t ≈ u) (state symbol : String) :
  t.get? state symbol = u.get? state symbol
  := by
  apply Option.ext
  intro target
  rw [get?_eq_some_iff, get?_eq_some_iff, equiv_iff.mp h]

theorem run_of_equiv (h : t ≈ u) (start : String) (symbols : List String) :
  t.run start symbols = u.run start symbols
  := by
  induction symbols generalizing start with
  | nil => rfl
  | cons symbol symbols ih =>
    rw [run, run, get?_of_equiv h]
    cases u.get? start symbol with
    | none => rfl
    | some target =>
      dsimp only
      rw [ih]

end Table

theorem Run.outcome_of_equiv {finals finals' : OrderedSet String} (h : finals ≈ finals')
    (r : Run) :
  r.outcome finals = r.outcome finals'
  := by
  simp only [outcome, OrderedSet.equiv_iff.mp h]

/-! ### Words under reordered alphabets -/

section Reordered

variable {strategy : MatchStrategy} {alphabet alphabet' : OrderedSet String}
  {text : List Char} {name : String}

theorem OrderedSet.PrefixFree.of_equiv
    (hequiv : alphabet ≈ alphabet') (h : alphabet.PrefixFree) :
  alphabet'.PrefixFree
  := by
  intro s hs hne t ht hst
  apply h s (hequiv.2 s hs) hne t (hequiv.2 t ht) hst

theorem Possible.of_equiv (hequiv : alphabet ≈ alphabet') (h : Possible alphabet text name) :
  Possible alphabet' text name
  := ⟨hequiv.1 name h.mem, h.ne_empty, h.starts⟩

/-- The order of the alphabet has no part in which symbol is longest, nor in which is
possible where one is at most. -/
theorem MatchStrategy.Takes.of_equiv
    (hequiv : alphabet ≈ alphabet')
    (horder : strategy = .longestMatch ∨ alphabet'.PrefixFree)
    (h : strategy.Takes alphabet text name) :
  strategy.Takes alphabet' text name
  := by
  rcases horder with rfl | hfree
  · obtain ⟨hpossible, hlongest⟩ := h
    use hpossible.of_equiv hequiv
    intro other hother
    apply hlongest other (hother.of_equiv hequiv.symm)
  · apply (h.1.of_equiv hequiv).takes hfree

theorem Cut.of_equiv
    {ps : List Piece} (hequiv : alphabet ≈ alphabet')
    (horder : strategy = .longestMatch ∨ alphabet'.PrefixFree)
    (h : Cut strategy alphabet text ps) :
  Cut strategy alphabet' text ps
  := by
  apply h.imp
  intro rest p _ hnext
  apply hnext.imp
  · intro name htakes
    apply htakes.of_equiv hequiv horder
  · intro name hpossible
    apply hpossible.of_equiv hequiv.symm

end Reordered

namespace Automaton

variable {a b : Automaton}

/-- The order of the alphabet has no part in how words are cut: the longest symbol is taken,
or no symbol begins another. -/
def OrderFree (a : Automaton) : Prop :=
  a.config.strategy = .longestMatch ∨ a.descriptor.alphabet.PrefixFree

instance (a : Automaton) : Decidable a.OrderFree :=
  inferInstanceAs (Decidable
    (a.config.strategy = .longestMatch ∨ a.descriptor.alphabet.PrefixFree))

theorem not_orderFree_iff :
  ¬ a.OrderFree
    ↔ a.config.strategy = .declarationOrder ∧ ¬ a.descriptor.alphabet.PrefixFree
  := by
  rw [OrderFree, not_or]
  cases a.config.strategy with
  | longestMatch => simp
  | declarationOrder => simp

theorem pieces_of_equiv (h : a ≈ b) (horder : a.OrderFree) (word : String) :
  a.pieces word = b.pieces word
  := by
  obtain ⟨⟨_, _, halphabet, _, _⟩, _, hconfig⟩ := h
  have horder' : b.config.strategy = .longestMatch ∨ b.descriptor.alphabet.PrefixFree := by
    rw [← hconfig]
    apply horder.imp_right (OrderedSet.PrefixFree.of_equiv halphabet)
  have hcut := a.cut_pieces word
  rw [hconfig] at hcut
  apply (hcut.of_equiv halphabet horder').unique (b.cut_pieces word)

/-- Equivalent automata cut words alike. -/
theorem tokenize_of_equiv (h : a ≈ b) (horder : a.OrderFree) (word : String) :
  a.tokenize word = b.tokenize word
  := by
  rw [tokenize, tokenize, pieces_of_equiv h horder]

/-- Equivalent automata accept words alike, along the same paths. -/
theorem accepts_of_equiv (h : a ≈ b) (horder : a.OrderFree) (word : String) :
  a.accepts word = b.accepts word
  := by
  have htokens := tokenize_of_equiv h horder word
  obtain ⟨⟨_, _, _, hinitial, hfinals⟩, htable, _⟩ := h
  cases hword : b.tokenize word with
  | error e =>
    rw [accepts_of_tokenize_error hword, accepts_of_tokenize_error (htokens.trans hword)]
  | ok symbols =>
    rw [accepts_of_tokenize_ok hword, accepts_of_tokenize_ok (htokens.trans hword), hinitial,
      Table.run_of_equiv htable, Run.outcome_of_equiv hfinals]

/-! ### An alphabet in another order -/

/-- The automaton with another alphabet. -/
def withAlphabet (a : Automaton) (alphabet : OrderedSet String) : Automaton :=
  { a with descriptor := { a.descriptor with alphabet := alphabet } }

theorem withAlphabet_equiv {alphabet : OrderedSet String} (h : alphabet ≈ a.descriptor.alphabet) :
  a.withAlphabet alphabet ≈ a
  := by
  use ⟨rfl, OrderedSet.equiv_iff.mpr fun _ => Iff.rfl, h, rfl,
    OrderedSet.equiv_iff.mpr fun _ => Iff.rfl⟩
  use Table.equiv_iff.mpr fun _ => Iff.rfl
  rfl

/-- The alphabet in which `s` is declared before the other symbols. -/
def declareFirst (a : Automaton) (s : String) : OrderedSet String :=
  OrderedSet.ofList (s :: a.descriptor.alphabet.toList)

theorem declareFirst_equiv {s : String} (hs : s ∈ a.descriptor.alphabet) :
  a.declareFirst s ≈ a.descriptor.alphabet
  := by
  apply OrderedSet.equiv_iff.mpr
  intro t
  rw [declareFirst, OrderedSet.mem_ofList, List.mem_cons]
  constructor
  · rintro (rfl | ht)
    · exact hs
    · exact ht
  · exact Or.inr

/-- The symbol declared first is taken where it is possible. -/
theorem takes_declareFirst
    (hconfig : a.config.strategy = .declarationOrder) {s : String} (hs : s ≠ "")
    (rest : List Char) :
  a.config.strategy.Takes (a.declareFirst s) (s.toList ++ rest) s
  := by
  rw [hconfig]
  constructor
  · use OrderedSet.mem_ofList.mpr List.mem_cons_self, hs
    apply List.prefix_append
  · obtain ⟨later, hlater⟩ : ∃ later, (s :: a.descriptor.alphabet.toList).eraseDups = s :: later :=
      ⟨_, List.eraseDups_cons⟩
    use [], later, (OrderedSet.toList_ofList _).trans hlater
    nofun

/-- A word is cut first at the symbol that is declared first, if it begins with it. -/
theorem exists_pieces_declareFirst
    (hconfig : a.config.strategy = .declarationOrder) {s : String} (hs : s ≠ "")
    {word : String} {rest : List Char} (hword : word.toList = s.toList ++ rest) :
  ∃ ps, (a.withAlphabet (a.declareFirst s)).pieces word = .symbol s :: ps ∧ ps.length ≤ rest.length
  := by
  have hrest := Acceptor.cut_pieces a.config.strategy (a.declareFirst s) rest
  have hcut := hrest.symbol (takes_declareFirst hconfig hs rest)
  rw [← hword] at hcut
  exact ⟨_, ((a.withAlphabet (a.declareFirst s)).cut_pieces word).unique hcut, hrest.length_le⟩

/-- Where a symbol begins another, the alphabet has an order in which the longer one is the
only token of itself, and one in which it is not. -/
theorem exists_tokenize_ne (h : ¬ a.OrderFree) :
  ∃ s ∈ a.descriptor.alphabet,
    ∃ word, a.tokenize word ≠ (a.withAlphabet (a.declareFirst s)).tokenize word
  := by
  obtain ⟨hconfig, hfree⟩ := not_orderFree_iff.mp h
  simp only [OrderedSet.PrefixFree, Classical.not_forall] at hfree
  obtain ⟨s, hs, hne, t, ht, ⟨rest, hrest⟩, hst⟩ := hfree
  -- The word is the longer symbol `t`.  If `t` is its only token already, the shorter `s` has
  -- to be declared first to change this; otherwise `t` has.
  by_cases htokens : a.tokenize t = .ok [t]
  · use s, hs, t
    obtain ⟨ps, hpieces, _⟩ := exists_pieces_declareFirst hconfig hne hrest.symm
    rw [htokens]
    intro h
    rw [tokenize_eq_ok_iff.mp h.symm] at hpieces
    apply hst
    symm
    apply Piece.symbol.inj (List.cons.inj hpieces).1
  · use t, ht, t
    have hne' : t ≠ "" := by
      rintro rfl
      apply hne
      apply String.toList_eq_nil_iff.mp (List.append_eq_nil_iff.mp hrest).1
    obtain ⟨ps, hpieces, hlength⟩ :=
      exists_pieces_declareFirst hconfig hne' (List.append_nil t.toList).symm
    obtain rfl := List.eq_nil_of_length_eq_zero (Nat.le_zero.mp hlength)
    have htokens' : (a.withAlphabet (a.declareFirst t)).tokenize t = .ok [t] :=
      tokenize_eq_ok_iff.mpr hpieces
    rw [htokens']
    apply htokens

end Automaton

/-! ### What is wrong -/

theorem Transition.violations_of_equiv {d e : Descriptor} (h : d ≈ e) (t : Transition) :
  t.violations d = t.violations e
  := by
  obtain ⟨_, hstates, halphabet, _, _⟩ := h
  simp only [violations, OrderedSet.equiv_iff.mp hstates, OrderedSet.equiv_iff.mp halphabet]

theorem Descriptor.declaredNames_perm {d e : Descriptor} (h : d ≈ e) :
  d.declaredNames.Perm e.declaredNames
  := by
  obtain ⟨hname, hstates, halphabet, _, _⟩ := h
  rw [declaredNames, declaredNames, hname]
  apply List.Perm.append
  · apply (OrderedSet.perm_of_equiv hstates).cons
  · apply OrderedSet.perm_of_equiv halphabet

/-- What is wrong with a descriptor and a table does not depend on orders. -/
theorem violations_perm {d e : Descriptor} {t u : Table} (hd : d ≈ e) (ht : t ≈ u) :
  (violations d t).Perm (violations e u)
  := by
  have hnames := Descriptor.declaredNames_perm hd
  have hrows : Transition.violations d = Transition.violations e := by
    funext row
    apply row.violations_of_equiv hd
  obtain ⟨_, hstates, _, hinitial, hfinals⟩ := hd
  have hmem := OrderedSet.equiv_iff.mp hstates
  rw [violations, violations, hrows, hinitial]
  simp only [hmem]
  apply List.Perm.append
  · apply List.Perm.append
    · apply (hnames.flatMap_right _).append_right
    · apply (OrderedSet.perm_of_equiv hfinals).flatMap_right
  · apply (Table.perm_of_equiv ht).flatMap_right

theorem consistent_of_equiv {d e : Descriptor} {t u : Table} (hd : d ≈ e) (ht : t ≈ u) :
  Consistent d t ↔ Consistent e u
  := by
  have hperm := violations_perm hd ht
  rw [Consistent, Consistent, ← List.length_eq_zero_iff, ← List.length_eq_zero_iff,
    hperm.length_eq]

/-- What is refused is refused in all orders, for the same reasons. -/
theorem exists_ensureConsistent_error_of_equiv
    {d e : Descriptor} {t u : Table} (hd : d ≈ e) (ht : t ≈ u) {found : List Violation}
    (h : ensureConsistent d t = .error found) :
  ∃ found', ensureConsistent e u = .error found' ∧ found.Perm found'
  := by
  obtain ⟨rfl, hnot⟩ := ensureConsistent_eq_error_iff.mp h
  use violations e u
  constructor
  · apply ensureConsistent_eq_error_iff.mpr
    use rfl
    rwa [← consistent_of_equiv hd ht]
  · apply violations_perm hd ht

/-! ### Behaviour -/

/-- Equivalent automata cut and accept words alike where the order of the alphabet has no
part in it.  Everywhere else there is an order of the alphabet in which some word is cut in
another way.  They are refused alike, with the same violations up to their order. -/
theorem equiv_behaviour :
  (∀ a b : Automaton, a ≈ b → a.OrderFree →
      ∀ word, a.tokenize word = b.tokenize word ∧ a.accepts word = b.accepts word)
    ∧ (∀ a : Automaton, ¬ a.OrderFree →
      ∃ alphabet : OrderedSet String, alphabet ≈ a.descriptor.alphabet
        ∧ a.withAlphabet alphabet ≈ a
        ∧ ∃ word, a.tokenize word ≠ (a.withAlphabet alphabet).tokenize word)
    ∧ ∀ a b : Automaton, a ≈ b →
      (ensureConsistent a.descriptor a.table = .ok ()
          ↔ ensureConsistent b.descriptor b.table = .ok ())
        ∧ ∀ found, ensureConsistent a.descriptor a.table = .error found →
          ∃ found', ensureConsistent b.descriptor b.table = .error found' ∧ found.Perm found'
  := by
  and_intros
  · intro a b h horder word
    use Automaton.tokenize_of_equiv h horder word
    apply Automaton.accepts_of_equiv h horder word
  · intro a horder
    obtain ⟨s, hs, word, hword⟩ := Automaton.exists_tokenize_ne horder
    have hequiv := Automaton.declareFirst_equiv hs
    use a.declareFirst s, hequiv, Automaton.withAlphabet_equiv hequiv, word
  · rintro a b ⟨hdescriptor, htable, _⟩
    rw [ensureConsistent_eq_ok, ensureConsistent_eq_ok]
    use consistent_of_equiv hdescriptor htable
    intro found
    apply exists_ensureConsistent_error_of_equiv hdescriptor htable

/-- One alphabet in two orders, in which a symbol begins another.  The longest symbol is the
same in both orders, the one declared first is not in all.  The rows, in two orders, lead to a
state that is not declared. -/
theorem equiv_behaviour_reordered :
  let a : Automaton :=
    ⟨Descriptor.ofLists "M" ["q0", "q1"] ["a", "aé"] "q0" ["q1"],
      Table.ofList [⟨"q0", "aé", "q1"⟩, ⟨"q1", "a", "q2"⟩, ⟨"q1", "b", "q1"⟩], default⟩
  let b : Automaton :=
    ⟨Descriptor.ofLists "M" ["q1", "q0"] ["aé", "a"] "q0" ["q1"],
      Table.ofList [⟨"q1", "b", "q1"⟩, ⟨"q1", "a", "q2"⟩, ⟨"q0", "aé", "q1"⟩], default⟩
  a ≈ b
    ∧ a.tokenize "aéa" = b.tokenize "aéa"
    ∧ (let c : Automaton := { a with config := .declarationOrder }
      ∃ alphabet : OrderedSet String, c.withAlphabet alphabet ≈ c
        ∧ ∃ word, c.tokenize word ≠ (c.withAlphabet alphabet).tokenize word)
    ∧ ∃ found, ensureConsistent b.descriptor b.table = .error found
      ∧ [.unknownTargetState "q1" "a" "q2", .unknownSymbol "q1" "b"].Perm found
  := by
  intro a b
  have hequiv : a ≈ b := by decide
  obtain ⟨hcut, hreorder, hrefuse⟩ := equiv_behaviour
  use hequiv, (hcut a b hequiv (by decide) "aéa").1
  constructor
  · intro c
    obtain ⟨alphabet, _, hreordered, word, hword⟩ := hreorder c (by decide)
    use alphabet, hreordered, word
  · apply (hrefuse a b hequiv).2
    decide

end Acceptor
