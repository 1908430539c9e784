import Acceptor.Proofs.Run
import Acceptor.Proofs.Word.Cut
import Acceptor.Violation

/-!
# Runs within the declarations

A run of an automaton with which nothing is wrong meets declared states only: it starts in
one, and each row leads to one (`Consistent.run_mem`).  The symbols of a word are declared
since it is cut into symbols of the alphabet.  Hence an outcome tells nothing that is not
declared, and a table that leads on from every state on every symbol never gets stuck
(`accepts_declared`).
-/

namespace Acceptor

/-! ### What an outcome tells -/

namespace Acceptance

/-- The states of an accepted path, or the state that a rejection tells. -/
def states : Acceptance → List String
  | .accepted path => path.states
  | .rejected (.undefinedTransition state _) => [state]
  | .rejected (.nonFinalState state) => [state]

/-- The symbols of an accepted path, or the symbol that a rejection tells, if it does. -/
def symbols : Acceptance → List String
  | .accepted path => path.symbols
  | .rejected (.undefinedTransition _ symbol) => [symbol]
  | .rejected (.nonFinalState _) => []

end Acceptance

/-! ### Runs -/

variable {t : Table} {start : String} {symbols : List String} {k : Nat} {q : Nat → String}

/-- A run is rejected for want of a transition where it gets stuck, and only there. -/
theorem LongestRun.eq_of_undefinedTransition
    (h : LongestRun t start symbols k q) {finals : OrderedSet String} {state symbol : String}
    (houtcome :
      (t.run start symbols).outcome finals = .rejected (.undefinedTransition state symbol)) :
  state = q k ∧ symbol ∈ symbols ∧ t.get? state symbol = none
  := by
  rcases Nat.lt_or_eq_of_le h.le with hk | rfl
  · rw [h.outcome_of_lt hk] at houtcome
    cases houtcome
    use rfl, List.getElem_mem hk, h.stop hk
  · rw [h.outcome_of_length] at houtcome
    split at houtcome <;> cases houtcome

namespace Consistent

variable {d : Descriptor}

/-- The table of a consistent automaton leads to declared states. -/
theorem target_mem (h : Consistent d t) {state symbol target : String}
    (hget : t.get? state symbol = some target) :
  target ∈ d.states
  := by
  obtain ⟨-, -, -, hrows⟩ := consistent_iff.mp h
  apply (hrows _ (Table.get?_eq_some_iff.mp hget)).2.2

/-- A run meets declared states. -/
theorem run_mem (h : Consistent d t) (hrun : LongestRun t d.initial symbols k q) :
  ∀ i ≤ k, q i ∈ d.states
  := by
  intro i hi
  cases i with
  | zero =>
    obtain ⟨-, hinitial, -, -⟩ := consistent_iff.mp h
    rw [hrun.zero]
    apply hinitial
  | succ i => apply h.target_mem (hrun.step i hi)

/-- The outcome of a run along declared symbols tells declared states and symbols. -/
theorem outcome_mem
    (h : Consistent d t) (hrun : LongestRun t d.initial symbols k q)
    (hsymbols : ∀ symbol ∈ symbols, symbol ∈ d.alphabet) :
  (∀ state ∈ ((t.run d.initial symbols).outcome d.finals).states, state ∈ d.states)
    ∧ ∀ symbol ∈ ((t.run d.initial symbols).outcome d.finals).symbols, symbol ∈ d.alphabet
  := by
  have hstates := h.run_mem hrun
  have hlast := hstates k (Nat.le_refl k)
  rcases Nat.lt_or_eq_of_le hrun.le with hk | rfl
  · rw [hrun.outcome_of_lt hk]
    simp only [Acceptance.states, Acceptance.symbols, List.forall_mem_singleton]
    exact ⟨hlast, hsymbols _ (List.getElem_mem hk)⟩
  · rw [hrun.outcome_of_length]
    split
    · obtain ⟨-, hpath, hpath', -, -⟩ := hrun.leadsAlong
      rw [Acceptance.states, Acceptance.symbols, hpath, hpath']
      constructor
      · intro state hstate
        obtain ⟨i, hi, rfl⟩ := List.mem_map.mp hstate
        apply hstates i (Nat.le_of_lt_succ (List.mem_range.mp hi))
      · apply hsymbols
    · simp only [Acceptance.states, Acceptance.symbols, List.forall_mem_singleton]
      exact ⟨hlast, List.forall_mem_nil _⟩

end Consistent

/-! ### Words -/

namespace Automaton

variable {a : Automaton} {word : String} {outcome : Acceptance}

/-- The outcome of a word is that of a run along declared symbols. -/
theorem exists_run_of_accepts (h : a.accepts word = .ok outcome) :
  ∃ symbols k q, LongestRun a.table a.descriptor.initial symbols k q
    ∧ (∀ symbol ∈ symbols, symbol ∈ a.descriptor.alphabet)
    ∧ outcome = (a.table.run a.descriptor.initial symbols).outcome a.descriptor.finals
  := by
  cases hword : a.tokenize word with
  | error e =>
    rw [accepts_of_tokenize_error hword] at h
    cases h
  | ok symbols =>
    rw [accepts_of_tokenize_ok hword, Except.ok.injEq] at h
    obtain ⟨k, q, hrun⟩ := exists_longestRun a.table a.descriptor.initial symbols
    use symbols, k, q, hrun
    constructor
    · intro symbol hsymbol
      apply ((join_of_tokenize hword).1 symbol hsymbol).1
    · rw [h]

/-- A word is rejected for want of a transition only where the table has no row. -/
theorem get?_of_undefinedTransition {state symbol : String}
    (h : a.accepts word = .ok (.rejected (.undefinedTransition state symbol))) :
  a.table.get? state symbol = none
  := by
  obtain ⟨symbols, k, q, hrun, -, houtcome⟩ := exists_run_of_accepts h
  apply (hrun.eq_of_undefinedTransition houtcome.symm).2.2

end Automaton

/-- Whatever an automaton with which nothing is wrong tells of a word, its states and
symbols are declared.  A transition that is said to be missing is missing from the table;
so no word is rejected for want of one if the table has a row for every declared state and
every declared symbol. -/
theorem accepts_declared {a : Automaton} (h : ensureConsistent a.descriptor a.table = .ok ()) :
  (∀ word outcome, a.accepts word = .ok outcome →
      (∀ state ∈ outcome.states, state ∈ a.descriptor.states)
        ∧ ∀ symbol ∈ outcome.symbols, symbol ∈ a.descriptor.alphabet)
    ∧ (∀ word state symbol,
      a.accepts word = .ok (.rejected (.undefinedTransition state symbol)) →
        ∀ target, ⟨state, symbol, target⟩ ∉ a.table.entries)
    ∧ ((∀ state ∈ a.descriptor.states, ∀ symbol ∈ a.descriptor.alphabet,
        ∃ target, ⟨state, symbol, target⟩ ∈ a.table.entries) →
      ∀ word state symbol,
        a.accepts word ≠ .ok (.rejected (.undefinedTransition state symbol)))
  := by
  have hconsistent := ensureConsistent_eq_ok.mp h
  have hdeclared : ∀ word outcome, a.accepts word = .ok outcome →
      (∀ state ∈ outcome.states, state ∈ a.descriptor.states)
        ∧ ∀ symbol ∈ outcome.symbols, symbol ∈ a.descriptor.alphabet := by
    intro word outcome houtcome
    obtain ⟨symbols, k, q, hrun, hsymbols, rfl⟩ := Automaton.exists_run_of_accepts houtcome
    apply hconsistent.outcome_mem hrun hsymbols
  have hmissing : ∀ word state symbol,
      a.accepts word = .ok (.rejected (.undefinedTransition state symbol)) →
        ∀ target, ⟨state, symbol, target⟩ ∉ a.table.entries := by
    intro word state symbol hrejected target hrow
    have hnone := Automaton.get?_of_undefinedTransition hrejected
    rw [Table.get?_eq_some_iff.mpr hrow] at hnone
    cases hnone
  use hdeclared, hmissing
  intro htotal word state symbol hrejected
  obtain ⟨hstates, hsymbols⟩ := hdeclared word _ hrejected
  have hstate := hstates state (List.mem_singleton_self state)
  have hsymbol := hsymbols symbol (List.mem_singleton_self symbol)
  obtain ⟨target, hrow⟩ := htotal state hstate symbol hsymbol
  apply hmissing word state symbol hrejected target hrow

/-- With a row for each of the four pairs, every word is read to its end. -/
theorem accepts_declared_total :
  let a : Automaton :=
    ⟨Descriptor.ofLists "M" ["q0", "q1"] ["a", "é"] "q0" ["q1"],
      Table.ofList [⟨"q0", "a", "q1"⟩, ⟨"q0", "é", "q0"⟩, ⟨"q1", "a", "q1"⟩, ⟨"q1", "é", "q0"⟩],
      .declarationOrder⟩
  ensureConsistent a.descriptor a.table = .ok ()
    ∧ (∀ state ∈ a.descriptor.states, ∀ symbol ∈ a.descriptor.alphabet,
      ∃ target, ⟨state, symbol, target⟩ ∈ a.table.entries)
    ∧ (∀ word state symbol,
      a.accepts word ≠ .ok (.rejected (.undefinedTransition state symbol)))
    ∧ a.accepts "éa" = .ok (.accepted ⟨["q0", "é", "q0", "a", "q1"]⟩)
    ∧ ∀ state ∈ ["q0", "q0", "q1"], state ∈ a.descriptor.states
  := by
  intro a
  have hok : ensureConsistent a.descriptor a.table = .ok () := by
    apply ensureConsistent_eq_ok.mpr
    decide
  have htotal : ∀ state ∈ a.descriptor.states, ∀ symbol ∈ a.descriptor.alphabet,
      ∃ target, ⟨state, symbol, target⟩ ∈ a.table.entries := by
    have hget : ∀ state ∈ a.descriptor.states.toList, ∀ symbol ∈ a.descriptor.alphabet.toList,
        ∃ target ∈ ["q0", "q1"], ⟨state, symbol, target⟩ ∈ a.table.entries := by
      decide
    intro state hstate symbol hsymbol
    obtain ⟨target, -, hrow⟩ := hget state hstate symbol hsymbol
    use target
  have haccepts : a.accepts "éa" = .ok (.accepted ⟨["q0", "é", "q0", "a", "q1"]⟩) := by
    with_unfolding_all rfl
  obtain ⟨hdeclared, -, hnever⟩ := accepts_declared hok
  use hok, htotal, hnever htotal, haccepts
  apply (hdeclared _ _ haccepts).1

/-- A run may meet a state that is not declared when a row leads to one. -/
example :
  let a : Automaton :=
    ⟨Descriptor.ofLists "M" ["q0"] ["a"] "q0" ["q0"], Table.ofList [⟨"q0", "a", "q7"⟩], default⟩
  a.accepts "aa" = .ok (.rejected (.undefinedTransition "q7" "a"))
  := by
  with_unfolding_all rfl

end Acceptor
