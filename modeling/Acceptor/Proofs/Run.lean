import Acceptor.Run
import Mathlib.Tactic.Use

/-!
# Runs

The run of a table along a list of symbols goes as far as the table leads.  `LongestRun`
says this without the table's own function: it tells the states `q 0`, …, `q k` that are
met along the longest beginning of the symbols on which the table is defined.  There is
such a run (`exists_longestRun`), `Table.run` follows it (`LongestRun.run_eq`), and the
outcome of a word can be read off it (`accepts_longestRun`).
-/

namespace Acceptor

/-! ### The path of a run -/

theorem everyOther_cons_flatMap (a : String) (steps : List Transition) :
  everyOther (a :: steps.flatMap fun step => [step.symbol, step.target])
    = a :: steps.map Transition.target
  := by
  induction steps generalizing a with
  | nil => rfl
  | cons step steps ih =>
    rw [List.flatMap_cons, List.map_cons, ← ih step.target]
    rfl

theorem everyOther_flatMap (steps : List Transition) :
  everyOther (steps.flatMap fun step => [step.symbol, step.target])
    = steps.map Transition.symbol
  := by
  induction steps with
  | nil => rfl
  | cons step steps ih =>
    rw [List.flatMap_cons, List.map_cons, ← ih]
    rfl

namespace Run

/-- The states of a path are those in which the run starts and to which it leads. -/
theorem states_path (r : Run) :
  r.path.states = r.start :: r.steps.map Transition.target
  := everyOther_cons_flatMap r.start r.steps

/-- The symbols of a path are those of the transitions followed. -/
theorem symbols_path (r : Run) :
  r.path.symbols = r.steps.map Transition.symbol
  := everyOther_flatMap r.steps

theorem size_path (r : Run) :
  r.path.size = 2 * r.steps.length + 1
  := by
  obtain ⟨start, steps, stuck⟩ := r
  dsimp only [path, Path.size]
  induction steps with
  | nil => rfl
  | cons step steps ih =>
    simp only [List.flatMap_cons, List.length_cons, List.length_append, List.length_nil] at ih ⊢
    omega

/-- A path ends with the state that is reached. -/
theorem lastState?_path (r : Run) :
  r.path.lastState? = some r.last
  := by
  obtain ⟨start, steps, stuck⟩ := r
  dsimp only [path, Path.lastState?, last]
  obtain rfl | ⟨front, step, rfl⟩ := steps.eq_nil_or_concat
  · rfl
  · rw [List.concat_eq_append, List.getLast?_concat, List.flatMap_append, ← List.cons_append,
      List.getLast?_append]
    rfl

end Run

/-! ### Longest runs -/

/-- From `start`, the states `q 0`, …, `q k` are met along the longest beginning of
`symbols` on which the table is defined, the length of which is `k`. -/
structure LongestRun
    (t : Table) (start : String) (symbols : List String) (k : Nat) (q : Nat → String) :
    Prop where
  /-- The first state. -/
  zero : q 0 = start
  /-- The beginning is one of the symbols. -/
  le : k ≤ symbols.length
  /-- The table leads from each state to the next one. -/
  step : ∀ i (h : i < k), t.get? (q i) symbols[i] = some (q (i + 1))
  /-- The table does not lead on. -/
  stop : ∀ h : k < symbols.length, t.get? (q k) symbols[k] = none

variable {t : Table} {start : String} {symbols : List String} {k : Nat} {q : Nat → String}

theorem LongestRun.tail {symbol : String}
    (h : LongestRun t start (symbol :: symbols) (k + 1) q) :
  LongestRun t (q 1) symbols k fun i => q (i + 1)
  where
  zero := rfl
  le := Nat.le_of_succ_le_succ h.le
  step i hi := h.step (i + 1) (Nat.succ_lt_succ hi)
  stop hk := h.stop (Nat.succ_lt_succ hk)

theorem longestRun_nil (t : Table) (start : String) :
  LongestRun t start [] 0 fun _ => start
  where
  zero := rfl
  le := Nat.le_refl 0
  step _ hi := absurd hi (Nat.not_lt_zero _)
  stop hk := absurd hk (Nat.lt_irrefl 0)

theorem longestRun_stuck {symbol : String} (hget : t.get? start symbol = none)
    (symbols : List String) :
  LongestRun t start (symbol :: symbols) 0 fun _ => start
  where
  zero := rfl
  le := Nat.zero_le _
  step _ hi := absurd hi (Nat.not_lt_zero _)
  stop _ := hget

theorem LongestRun.cons {symbol target : String} (hget : t.get? start symbol = some target)
    (h : LongestRun t target symbols k q) :
  LongestRun t start (symbol :: symbols) (k + 1) fun i => i.casesOn start q
  where
  zero := rfl
  le := Nat.succ_le_succ h.le
  step i hi := by
    cases i with
    | zero =>
      dsimp only
      rw [h.zero]
      apply hget
    | succ i => apply h.step i (Nat.lt_of_succ_lt_succ hi)
  stop hk := h.stop (Nat.lt_of_succ_lt_succ hk)

/-- There is a longest run. -/
theorem exists_longestRun (t : Table) (start : String) (symbols : List String) :
  ∃ k q, LongestRun t start symbols k q
  := by
  induction symbols generalizing start with
  | nil =>
    use 0, fun _ => start
    apply longestRun_nil
  | cons symbol symbols ih =>
    cases hget : t.get? start symbol with
    | none =>
      use 0, fun _ => start
      apply longestRun_stuck hget
    | some target =>
      obtain ⟨k, q, h⟩ := ih target
      use k + 1, fun i => i.casesOn start q
      apply h.cons hget

/-- `Table.run` follows a longest run. -/
theorem LongestRun.run_eq (h : LongestRun t start symbols k q) :
  t.run start symbols
    = ⟨start, (symbols.take k).mapIdx fun i symbol => ⟨q i, symbol, q (i + 1)⟩, symbols[k]?⟩
  := by
  induction symbols generalizing start k q with
  | nil =>
    obtain rfl := Nat.le_zero.mp h.le
    rfl
  | cons symbol symbols ih =>
    obtain rfl := h.zero
    cases k with
    | zero =>
      have hstop : t.get? (q 0) symbol = none := h.stop (Nat.zero_lt_succ _)
      rw [Table.run, hstop]
      rfl
    | succ k =>
      have hstep : t.get? (q 0) symbol = some (q 1) := h.step 0 (Nat.zero_lt_succ _)
      rw [Table.run, hstep]
      dsimp only
      rw [ih h.tail]
      simp [List.mapIdx_cons]

/-- The state reached by a longest run. -/
theorem LongestRun.last_run (h : LongestRun t start symbols k q) :
  (t.run start symbols).last = q k
  := by
  rw [h.run_eq, Run.last]
  cases k with
  | zero => apply h.zero.symm
  | succ k =>
    have hk : k < symbols.length := h.le
    have hlength : (symbols.take (k + 1)).length = k + 1 := List.length_take_of_le h.le
    have hlast : (symbols.take (k + 1)).getLast? = some symbols[k] := by
      rw [List.getLast?_take, if_neg (Nat.succ_ne_zero k), Nat.add_sub_cancel,
        List.getElem?_eq_getElem hk, Option.some_or]
    rw [List.getLast?_mapIdx, hlast, hlength]
    rfl

/-! ### Outcomes -/

/-- A path leads along all `symbols` through the states that `q` numbers, by rows of `t`. -/
structure LeadsAlong (t : Table) (symbols : List String) (q : Nat → String) (path : Path) :
    Prop where
  size_eq : path.size = 2 * symbols.length + 1
  states_eq : path.states = (List.range (symbols.length + 1)).map q
  symbols_eq : path.symbols = symbols
  last_eq : path.lastState? = some (q symbols.length)
  row_mem : ∀ i (h : i < symbols.length), ⟨q i, symbols[i], q (i + 1)⟩ ∈ t.entries

namespace LongestRun

/-- The path of a run that does not get stuck leads along all symbols. -/
theorem leadsAlong (h : LongestRun t start symbols symbols.length q) :
  LeadsAlong t symbols q (t.run start symbols).path
  := by
  have hsteps : (t.run start symbols).steps
      = symbols.mapIdx fun i symbol => ⟨q i, symbol, q (i + 1)⟩ := by
    rw [h.run_eq, List.take_length]
  constructor
  · rw [Run.size_path, hsteps, List.length_mapIdx]
  · rw [Run.states_path, hsteps, h.run_eq, List.range_succ_eq_map, List.map_cons, h.zero]
    congr 1
    apply List.ext_getElem <;> simp
  · rw [Run.symbols_path, hsteps]
    apply List.ext_getElem <;> simp
  · rw [Run.lastState?_path, h.last_run]
  · intro i hi
    apply Table.get?_eq_some_iff.mp (h.step i hi)

/-- A run that gets stuck is rejected with the state and the symbol on which it does. -/
theorem outcome_of_lt
    (h : LongestRun t start symbols k q) (hk : k < symbols.length) (finals : OrderedSet String) :
  (t.run start symbols).outcome finals = .rejected (.undefinedTransition (q k) symbols[k])
  := by
  have hstuck : (t.run start symbols).stuck = some symbols[k] := by
    rw [h.run_eq, List.getElem?_eq_getElem hk]
  rw [Run.outcome, hstuck, h.last_run]

/-- A run that goes to the end is accepted if it ends in a final state. -/
theorem outcome_of_length
    (h : LongestRun t start symbols symbols.length q) (finals : OrderedSet String) :
  (t.run start symbols).outcome finals
    = if q symbols.length ∈ finals then .accepted (t.run start symbols).path
      else .rejected (.nonFinalState (q symbols.length))
  := by
  have hstuck : (t.run start symbols).stuck = none := by
    rw [h.run_eq, List.getElem?_eq_none (Nat.le_refl _)]
  rw [Run.outcome, hstuck, h.last_run]

end LongestRun

theorem accepts_of_tokenize_error {a : Automaton} {word : String} {e : InvalidSymbol}
    (h : a.tokenize word = .error e) :
  a.accepts word = .error e
  := by
  rw [Automaton.accepts, h]
  rfl

theorem accepts_of_tokenize_ok {a : Automaton} {word : String} {symbols : List String}
    (h : a.tokenize word = .ok symbols) :
  a.accepts word
    = .ok ((a.table.run a.descriptor.initial symbols).outcome a.descriptor.finals)
  := by
  rw [Automaton.accepts, h]
  rfl

/-- A word with foreign characters has no outcome.  The outcome of another word is that of
the longest run along its symbols: it is rejected with the state and the symbol on which
the run gets stuck, or with the state in which it ends if that is not final, and it is
accepted with the path of the run else. -/
theorem accepts_longestRun (a : Automaton) (word : String) :
  (∀ e, a.tokenize word = .error e → a.accepts word = .error e)
    ∧ ∀ symbols, a.tokenize word = .ok symbols →
      (∃ k q, LongestRun a.table a.descriptor.initial symbols k q)
        ∧ ∀ k q, LongestRun a.table a.descriptor.initial symbols k q →
          (∀ state symbol, a.accepts word = .ok (.rejected (.undefinedTransition state symbol))
              ↔ k < symbols.length ∧ state = q k ∧ symbols[k]? = some symbol)
            ∧ (∀ state, a.accepts word = .ok (.rejected (.nonFinalState state))
              ↔ k = symbols.length ∧ q k ∉ a.descriptor.finals ∧ state = q k)
            ∧ ((∃ path, a.accepts word = .ok (.accepted path))
              ↔ k = symbols.length ∧ q k ∈ a.descriptor.finals)
            ∧ ∀ path, a.accepts word = .ok (.accepted path) →
              LeadsAlong a.table symbols q path
  := by
  constructor
  · intro e he
    apply accepts_of_tokenize_error he
  intro symbols hsymbols
  use exists_longestRun _ _ _
  intro k q h
  rw [accepts_of_tokenize_ok hsymbols]
  rcases Nat.lt_or_eq_of_le h.le with hk | rfl
  · rw [h.outcome_of_lt hk]
    have hne : k ≠ symbols.length := Nat.ne_of_lt hk
    simp [hk, hne, eq_comm]
  · rw [h.outcome_of_length]
    have hpath := h.leadsAlong
    by_cases hfinal : q symbols.length ∈ a.descriptor.finals
    · simp [hfinal, hpath]
    · simp [hfinal, eq_comm]

end Acceptor
