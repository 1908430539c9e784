import Acceptor.Proofs.Table

/-!
# What a table remembers

Rows come into a table one by one and in lists.  `Remembers` says what is left of them afterwards,
in terms of all rows that came in: the pairs in the order in which they came first, and the last
row from each pair; and `Inserts` says what one more row changes.  Whatever steps are taken, the
table remembers the rows of the steps, and it changes no more when its own rows come in once more
(`remembers_ofSteps`).
-/

namespace Acceptor

/-! ### Steps -/

/-- The ways in which rows come into a table. -/
inductive TableStep where
  /-- A single row. -/
  | insert (row : Transition)
  /-- The rows of a list, first to last. -/
  | extend (rows : List Transition)

/-- The rows that a step brings. -/
def TableStep.rows : TableStep → List Transition
  | .insert row => [row]
  | .extend rows => rows

namespace Table

/-- Takes one step. -/
def apply (t : Table) : TableStep → Table
  | .insert row => (t.exchange row).2
  | .extend rows => t.insertMany rows

/-- Takes steps, first to last, from the table without rows. -/
def ofSteps (steps : List TableStep) : Table :=
  steps.foldl apply ∅

theorem apply_eq (t : Table) (step : TableStep) :
  t.apply step = t.insertMany step.rows
  := by
  cases step <;> rfl

theorem foldl_apply (t : Table) (steps : List TableStep) :
  steps.foldl apply t = t.insertMany (steps.flatMap TableStep.rows)
  := by
  induction steps generalizing t with
  | nil => rfl
  | cons step steps ih =>
    rw [List.foldl_cons, ih, apply_eq, List.flatMap_cons, insertMany_append]

end Table

open Transition

/-! ### Targets -/

namespace Table

/-- A row that stays is the last one from its pair. -/
theorem lastFrom?_of_mem_ofList {rows : List Transition} {row : Transition}
    (h : row ∈ (ofList rows).entries) :
  lastFrom? row.source row.symbol rows = some row
  := by
  have hget := get?_eq_some_iff.mpr h
  rw [get?_ofList, Option.map_eq_some_iff] at hget
  obtain ⟨last, hlast, htarget⟩ := hget
  obtain ⟨-, hsource, hsymbol⟩ := mem_of_lastFrom? hlast
  obtain rfl : last = row := by
    obtain ⟨source, symbol, target⟩ := last
    subst hsource hsymbol htarget
    rfl
  exact hlast

theorem get?_eq_none_iff {t : Table} {state symbol : String} :
  t.get? state symbol = none ↔ (state, symbol) ∉ t.entries.map Transition.key
  := by
  rw [Option.eq_none_iff_forall_ne_some, List.mem_map, not_exists]
  constructor
  · rintro h ⟨_, _, target⟩ ⟨hmem, ⟨⟩⟩
    apply h target (get?_eq_some_iff.mpr hmem)
  · intro h target hget
    apply h ⟨state, symbol, target⟩ ⟨get?_eq_some_iff.mp hget, rfl⟩

end Table

/-! ### Tables and the rows that came in -/

/-- The table `t` is what is left of `rows`: the pairs in the order in which they came first,
each with the last row from it. -/
structure Remembers (rows : List Transition) (t : Table) : Prop where
  nodup_keys : (t.entries.map key).Nodup
  keys_eq : t.entries.map key = (rows.map key).eraseDups
  entries_eq : t.entries
    = (rows.map key).eraseDups.filterMap fun key => lastFrom? key.1 key.2 rows
  get?_eq : ∀ state symbol,
    t.get? state symbol = (lastFrom? state symbol rows).map target
  contains_iff : ∀ state symbol,
    t.contains state symbol = true ↔ ∃ row ∈ rows, row.source = state ∧ row.symbol = symbol
  size_eq : t.size = (rows.map key).eraseDups.length
  isEmpty_iff : t.isEmpty = true ↔ rows = []

theorem remembers_ofList (rows : List Transition) :
  Remembers rows (Table.ofList rows)
  := by
  have hkeys := (collectedFrom_ofList rows).keys_eq
  constructor
  case nodup_keys => exact (Table.ofList rows).nodup
  case keys_eq => exact hkeys
  case entries_eq =>
    rw [← hkeys, List.filterMap_map]
    symm
    apply (List.filterMap_congr _).trans List.filterMap_some
    intro row hrow
    apply Table.lastFrom?_of_mem_ofList hrow
  case get?_eq => exact Table.get?_ofList rows
  case contains_iff =>
    intro state symbol
    rw [Table.contains, Table.get?_ofList, Option.isSome_map, Option.isSome_iff_ne_none, ne_eq,
      lastFrom?_eq_none_iff, not_not, List.mem_map]
    simp only [key, Prod.mk.injEq]
  case size_eq =>
    rw [← hkeys, List.length_map]
    rfl
  case isEmpty_iff =>
    rw [Table.isEmpty, List.isEmpty_iff, ← List.map_eq_nil_iff, hkeys]
    cases rows with
    | nil => simp
    | cons row rows => simp [List.eraseDups_cons]

/-! ### One more row -/

/-- The table `t` becomes `u` by the row `row`, and `replaced` is what it led to before from the
pair of the row. -/
structure Inserts (t : Table) (row : Transition) (replaced : Option String) (u : Table) :
    Prop where
  replaced_eq : replaced = t.get? row.source row.symbol
  get?_row : u.get? row.source row.symbol = some row.target
  get?_other : ∀ state symbol, ¬ (row.source = state ∧ row.symbol = symbol) →
    u.get? state symbol = t.get? state symbol
  size_eq : u.size = if replaced = none then t.size + 1 else t.size
  keys_eq : u.entries.map key
    = if replaced = none then t.entries.map key ++ [row.key] else t.entries.map key

theorem inserts_exchange (t : Table) (row : Transition) :
  Inserts t row (t.exchange row).1 (t.exchange row).2
  := by
  have hkeys : (t.exchange row).2.entries.map key
      = if (t.exchange row).1 = none then t.entries.map key ++ [row.key]
        else t.entries.map key := by
    rw [Table.fst_exchange, if_congr Table.get?_eq_none_iff rfl rfl, ite_not]
    apply map_key_exchange
  constructor
  case replaced_eq => exact t.fst_exchange row
  case get?_row => exact (t.get?_insert row _ _).trans (if_pos ⟨rfl, rfl⟩)
  case get?_other =>
    intro state symbol h
    exact (t.get?_insert row _ _).trans (if_neg h)
  case size_eq =>
    have hlength := congrArg List.length hkeys
    rw [List.length_map, apply_ite List.length, List.length_append, List.length_map] at hlength
    exact hlength
  case keys_eq => exact hkeys

/-! ### The rows of the table -/

namespace Table

/-- A row that a table has changes nothing. -/
theorem insert_of_mem {t : Table} {row : Transition} (h : row ∈ t.entries) :
  t.insert row = t
  := by
  obtain ⟨rows, hnodup⟩ := t
  apply ext
  dsimp only [insert, exchange] at h ⊢
  induction rows with
  | nil => cases h
  | cons first rows ih =>
    rw [List.map_cons, List.nodup_cons] at hnodup
    rcases List.mem_cons.mp h with rfl | h
    · rw [Transition.exchange, if_pos rfl]
    · have hkey : first.key ≠ row.key := by
        intro hkey
        apply hnodup.1
        rw [hkey]
        apply List.mem_map_of_mem h
      rw [Transition.exchange, if_neg hkey]
      apply congrArg (first :: ·) (ih hnodup.2 h)

theorem insertMany_of_subset {t : Table} {rows : List Transition} (h : rows ⊆ t.entries) :
  t.insertMany rows = t
  := by
  induction rows with
  | nil => rfl
  | cons row rows ih =>
    rw [List.cons_subset] at h
    rw [insertMany_cons, insert_of_mem h.1, ih h.2]

end Table

/-! ### Whole histories -/

/-- A table remembers all rows that came in and changes with the next one as it should.  Its own
rows make the table again, and change nothing when they come in once more. -/
theorem remembers_ofSteps (steps : List TableStep) :
  let t := Table.ofSteps steps
  Remembers (steps.flatMap TableStep.rows) t
    ∧ (∀ row, Inserts t row (t.exchange row).1 (t.exchange row).2)
    ∧ Table.ofList t.entries = t
    ∧ t.insertMany t.entries = t
  := by
  intro t
  have ht : t = Table.ofList (steps.flatMap TableStep.rows) := Table.foldl_apply ∅ steps
  and_intros
  · rw [ht]
    apply remembers_ofList
  · apply inserts_exchange
  · apply Table.ofList_entries
  · apply Table.insertMany_of_subset (List.Subset.refl _)

/-- The two pairs are read the same but differ.  The first keeps its place when its row is
replaced. -/
example :
  (Table.ofSteps [.insert ⟨"q0", "ab", "q1"⟩,
      .extend [⟨"q0a", "b", "q2"⟩, ⟨"q0", "ab", "q3"⟩]]).entries
    = [⟨"q0", "ab", "q3"⟩, ⟨"q0a", "b", "q2"⟩]
  := by decide

end Acceptor
