import Acceptor.OrderedSet
import Acceptor.Table
import Mathlib.Data.List.Nodup
import Mathlib.Data.List.Perm.Subperm
import Mathlib.Tactic.Convert
import Mathlib.Tactic.Use

/-!
# Tables of rows

A list of rows is collected into a table in which the pairs stand in the order of their
first occurrences and lead where the last rows from them lead.  `CollectedFrom` says this
without adding row after row; `collectedFrom_iff` says that `Table.ofList` makes the one
such table.  It has at most as many rows as the list (`Table.size_ofList_le`).
-/

namespace Acceptor

/-! ### Sizes of sets -/

namespace OrderedSet

variable {α : Type} [DecidableEq α]

theorem subperm_ofList (l : List α) :
  (ofList l).toList.Subperm l
  := by
  apply (ofList l).nodup.subperm
  intro a ha
  apply mem_ofList.mp ha

theorem size_ofList_le (l : List α) :
  (ofList l).size ≤ l.length
  := (subperm_ofList l).length_le

/-- No member of a list is dropped when none occurs twice. -/
theorem size_ofList_eq_iff {l : List α} :
  (ofList l).size = l.length ↔ l.Nodup
  := by
  constructor
  · intro h
    have hperm := (subperm_ofList l).perm_of_length_le (Nat.le_of_eq h.symm)
    apply hperm.nodup_iff.mp (ofList l).nodup
  · intro h
    have hl : (ofList l).toList = l := insertMany_toList h
    rw [size, hl]

end OrderedSet

namespace Table

/-! ### Pairs -/

/-- The pairs from which the rows of a table lead. -/
def keys (t : Table) : OrderedSet (String × String) :=
  ⟨t.entries.map Transition.key, t.nodup⟩

theorem toList_keys (t : Table) :
  t.keys.toList = t.entries.map Transition.key
  := rfl

theorem size_keys (t : Table) :
  t.keys.size = t.size
  := List.length_map _

theorem keys_insert (t : Table) (row : Transition) :
  (t.insert row).keys = t.keys.insert row.key
  := by
  apply OrderedSet.ext
  rw [OrderedSet.toList_insert]
  have hkeys := Transition.map_key_exchange row t.entries
  by_cases hmem : row.key ∈ t.entries.map Transition.key
  · rw [if_pos hmem] at hkeys
    rw [if_pos (show row.key ∈ t.keys.toList from hmem)]
    apply hkeys
  · rw [if_neg hmem] at hkeys
    rw [if_neg (show row.key ∉ t.keys.toList from hmem)]
    apply hkeys

theorem keys_insertMany (t : Table) (rows : List Transition) :
  (t.insertMany rows).keys = t.keys.insertMany (rows.map Transition.key)
  := by
  induction rows generalizing t with
  | nil => rfl
  | cons row rows ih =>
    rw [insertMany_cons, ih, keys_insert, List.map_cons, OrderedSet.insertMany_cons]

/-- The pairs of collected rows stand in the order of their first occurrences. -/
theorem keys_ofList (rows : List Transition) :
  (ofList rows).keys = OrderedSet.ofList (rows.map Transition.key)
  := keys_insertMany ∅ rows

theorem size_ofList_le (rows : List Transition) :
  (ofList rows).size ≤ rows.length
  := by
  rw [← size_keys, keys_ofList, ← List.length_map Transition.key]
  apply OrderedSet.size_ofList_le

/-- No row is replaced when no pair occurs twice. -/
theorem size_ofList_eq_iff {rows : List Transition} :
  (ofList rows).size = rows.length ↔ (rows.map Transition.key).Nodup
  := by
  rw [← size_keys, keys_ofList, ← List.length_map Transition.key]
  apply OrderedSet.size_ofList_eq_iff

end Table

/-! ### Targets -/

/-- The last of the rows that lead from a pair. -/
def Transition.lastFrom? (state symbol : String) (rows : List Transition) : Option Transition :=
  (rows.filter fun row => row.source = state ∧ row.symbol = symbol).getLast?

namespace Transition

variable {state symbol : String} {rows : List Transition}

theorem lastFrom?_cons (row : Transition) (rows : List Transition) :
  lastFrom? state symbol (row :: rows)
    = (lastFrom? state symbol rows).or
      (if row.source = state ∧ row.symbol = symbol then some row else none)
  := by
  rw [lastFrom?, lastFrom?]
  by_cases h : row.source = state ∧ row.symbol = symbol
  · rw [List.filter_cons_of_pos (by simpa using h), if_pos h, List.getLast?_cons,
      Option.or_some]
  · rw [List.filter_cons_of_neg (by simpa using h), if_neg h, Option.or_none]

theorem mem_of_lastFrom? {row : Transition} (h : lastFrom? state symbol rows = some row) :
  row ∈ rows ∧ row.source = state ∧ row.symbol = symbol
  := by
  have hmem := List.mem_of_getLast? h
  rwa [List.mem_filter, decide_eq_true_eq] at hmem

theorem lastFrom?_eq_none_iff :
  lastFrom? state symbol rows = none ↔ (state, symbol) ∉ rows.map key
  := by
  rw [lastFrom?, List.getLast?_eq_none_iff, List.filter_eq_nil_iff, List.mem_map, not_exists]
  simp [key]

end Transition

namespace Table

open Transition

theorem get?_insertMany (t : Table) (rows : List Transition) (state symbol : String) :
  (t.insertMany rows).get? state symbol
    = ((lastFrom? state symbol rows).map target).or (t.get? state symbol)
  := by
  induction rows generalizing t with
  | nil => rfl
  | cons row rows ih =>
    rw [insertMany_cons, ih, get?_insert, lastFrom?_cons]
    cases lastFrom? state symbol rows with
    | some last => rfl
    | none =>
      split <;> rfl

/-- A pair leads where the last row from it leads. -/
theorem get?_ofList (rows : List Transition) (state symbol : String) :
  (ofList rows).get? state symbol = (lastFrom? state symbol rows).map target
  := by
  rw [ofList, get?_insertMany]
  apply Option.or_none

/-- The last row from a pair stays. -/
theorem mem_entries_insertMany
    (t : Table) (before : List Transition) {row : Transition} {after : List Transition}
    (h : row.key ∉ after.map Transition.key) :
  row ∈ (t.insertMany (before ++ row :: after)).entries
  := by
  apply get?_eq_some_iff.mp
  rw [insertMany_append, insertMany_cons, get?_insertMany, lastFrom?_eq_none_iff.mpr h,
    Option.map_none, Option.none_or, get?_insert, if_pos ⟨rfl, rfl⟩]

end Table

/-! ### Collected rows -/

/-- The pairs of `t` are those of `rows` in the order of their first occurrences, and a row
after which no other leads from the same pair is a row of `t`. -/
structure CollectedFrom (rows : List Transition) (t : Table) : Prop where
  keys_eq : t.entries.map Transition.key = (rows.map Transition.key).eraseDups
  last_mem : ∀ before row after, rows = before ++ row :: after →
    row.key ∉ after.map Transition.key → row ∈ t.entries

theorem collectedFrom_ofList (rows : List Transition) :
  CollectedFrom rows (Table.ofList rows)
  where
  keys_eq := by
    have hkeys := congrArg OrderedSet.toList (Table.keys_ofList rows)
    rw [Table.toList_keys, OrderedSet.toList_ofList] at hkeys
    convert hkeys
  last_mem before row after hrows h := by
    rw [hrows]
    apply Table.mem_entries_insertMany ∅ before h

/-- A pair that occurs has a last occurrence. -/
theorem exists_last {rows : List Transition} {key : String × String}
    (h : key ∈ rows.map Transition.key) :
  ∃ before row after, rows = before ++ row :: after ∧ row.key = key
    ∧ key ∉ after.map Transition.key
  := by
  induction rows with
  | nil => cases h
  | cons row rows ih =>
    by_cases hrows : key ∈ rows.map Transition.key
    · obtain ⟨before, last, after, rfl, hkey, hafter⟩ := ih hrows
      use row :: before, last, after, rfl, hkey
    · rcases List.mem_cons.mp h with rfl | h
      · use [], row, rows, rfl, rfl
      · exact absurd h hrows

namespace CollectedFrom

variable {rows : List Transition} {t u : Table}

/-- A row of the table is the last of the rows from its pair. -/
theorem exists_append (ht : CollectedFrom rows t) {e : Transition} (he : e ∈ t.entries) :
  ∃ before after, rows = before ++ e :: after ∧ e.key ∉ after.map Transition.key
  := by
  have hkey : e.key ∈ rows.map Transition.key := by
    rw [← List.mem_eraseDups, ← ht.keys_eq]
    apply List.mem_map_of_mem he
  obtain ⟨before, last, after, hrows, hlast, hafter⟩ := exists_last hkey
  rw [← hlast] at hafter
  obtain rfl : e = last :=
    List.inj_on_of_nodup_map t.nodup he (ht.last_mem _ _ _ hrows hafter) hlast.symm
  use before, after

theorem mem_rows (ht : CollectedFrom rows t) {e : Transition} (he : e ∈ t.entries) :
  e ∈ rows
  := by
  obtain ⟨before, after, rfl, -⟩ := ht.exists_append he
  apply List.mem_append_right _ List.mem_cons_self

/-- Rows from the same pair of two tables of the same rows are equal. -/
theorem eq_of_key_eq
    (ht : CollectedFrom rows t) (hu : CollectedFrom rows u) {e f : Transition}
    (he : e ∈ t.entries) (hf : f ∈ u.entries) (h : e.key = f.key) :
  e = f
  := by
  obtain ⟨before, after, hrows, hafter⟩ := ht.exists_append he
  have heu : e ∈ u.entries := hu.last_mem before e after hrows hafter
  apply List.inj_on_of_nodup_map u.nodup heu hf h

/-- There is one table of some rows. -/
theorem unique (ht : CollectedFrom rows t) (hu : CollectedFrom rows u) :
  t = u
  := by
  have hkeys : t.entries.map Transition.key = u.entries.map Transition.key :=
    ht.keys_eq.trans hu.keys_eq.symm
  -- The rows agree place by place, since their pairs do.
  apply Table.ext
  apply List.ext_getElem
  · simpa using congrArg List.length hkeys
  · intro i hi hi'
    apply ht.eq_of_key_eq hu (List.getElem_mem hi) (List.getElem_mem hi')
    simpa [hi, hi'] using congrArg (·[i]?) hkeys

end CollectedFrom

/-- `Table.ofList` makes the table of some rows. -/
theorem collectedFrom_iff {rows : List Transition} {t : Table} :
  CollectedFrom rows t ↔ t = Table.ofList rows
  := by
  constructor
  · intro h
    apply h.unique (collectedFrom_ofList rows)
  · rintro rfl
    apply collectedFrom_ofList

end Acceptor
