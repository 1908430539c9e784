/-!
# Transition tables

A `Transition` leads from a state, on a symbol, to a state.  A `Table` is a partial
function from pairs of a state and a symbol to states, kept as a list of transitions in
which no pair leads twice.  A pair keeps the place at which it was first added, also when
its target is replaced; `Table.Equiv` compares tables as functions and forgets the places.
-/

namespace Acceptor

/-- One row of a table: from a state, on a symbol, to a state. -/
structure Transition where
  /-- The state that is left. -/
  source : String
  /-- The symbol that is consumed. -/
  symbol : String
  /-- The state that is reached. -/
  target : String
  deriving DecidableEq, Inhabited, Repr

/-- The pair that a transition leads from. -/
def Transition.key (t : Transition) : String × String :=
  (t.source, t.symbol)

/-- The target of the first transition of a list that leads from `key`. -/
def Transition.targetOf? (key : String × String) : List Transition → Option String
  | [] => none
  | t :: ts => if t.key = key then some t.target else targetOf? key ts

namespace Transition

/-- Puts a transition into a list, in the place of the first one from the same pair or
else at the end; the first component is the target that was replaced. -/
def exchange (t : Transition) : List Transition → Option String × List Transition
  | [] => (none, [t])
  | u :: us =>
    if u.key = t.key then (some u.target, t :: us)
    else
      let (replaced, us) := exchange t us
      (replaced, u :: us)

theorem fst_exchange (t : Transition) (us : List Transition) :
  (t.exchange us).1 = targetOf? t.key us
  := by
  induction us with
  | nil => rfl
  | cons u us ih =>
    simp only [exchange, targetOf?]
    split
    · rfl
    · exact ih

theorem map_key_exchange (t : Transition) (us : List Transition) :
  (t.exchange us).2.map key
    = if t.key ∈ us.map key then us.map key else us.map key ++ [t.key]
  := by
  induction us with
  | nil => simp [exchange]
  | cons u us ih =>
    by_cases h : u.key = t.key
    · simp [exchange, h]
    · have h' : ¬ t.key = u.key := fun e => h e.symm
      simp only [exchange, h, if_false, List.map_cons, ih, List.mem_cons, h', false_or]
      split <;> simp

theorem nodup_exchange {t : Transition} {us : List Transition} (h : (us.map key).Nodup) :
  ((t.exchange us).2.map key).Nodup
  := by
  rw [map_key_exchange]
  split
  · exact h
  · next hm =>
    rw [List.nodup_append]
    refine ⟨h, by simp, ?_⟩
    intro x hx y hy
    obtain rfl := List.mem_singleton.mp hy
    rintro rfl
    exact hm hx

theorem targetOf?_exchange (t : Transition) (us : List Transition) (key : String × String) :
  targetOf? key (t.exchange us).2
    = if t.key = key then some t.target else targetOf? key us
  := by
  induction us with
  | nil => rfl
  | cons u us ih =>
    by_cases h : u.key = t.key
    · simp only [exchange, h, if_true, targetOf?]
      split <;> rfl
    · simp only [exchange, h, if_false, targetOf?, ih]
      split
      · next hu =>
        rw [if_neg]
        rintro rfl
        exact h hu
      · rfl

end Transition

/-- Transitions in the order in which their pairs were first added. -/
structure Table where
  /-- The rows. -/
  entries : List Transition
  /-- No pair leads twice. -/
  nodup : (entries.map Transition.key).Nodup

namespace Table

@[ext]
theorem ext {t u : Table} (h : t.entries = u.entries) :
  t = u
  := by
  obtain ⟨l, _⟩ := t
  obtain ⟨m, _⟩ := u
  obtain rfl : l = m := h
  rfl

theorem entries_inj {t u : Table} :
  t.entries = u.entries ↔ t = u
  := ⟨ext, congrArg entries⟩

instance : DecidableEq Table :=
  fun _ _ => decidable_of_iff _ entries_inj

/-- The table without rows. -/
def empty : Table :=
  ⟨[], List.nodup_nil⟩

instance : EmptyCollection Table := ⟨empty⟩

instance : Inhabited Table := ⟨empty⟩

@[simp]
theorem entries_empty :
  (∅ : Table).entries = []
  := rfl

/-- The number of rows. -/
def size (t : Table) : Nat :=
  t.entries.length

/-- Whether there are no rows. -/
def isEmpty (t : Table) : Bool :=
  t.entries.isEmpty

/-- The state reached from `state` on `symbol`, if the table has such a row. -/
def get? (t : Table) (state symbol : String) : Option String :=
  Transition.targetOf? (state, symbol) t.entries

/-- Whether the table has a row from `state` on `symbol`. -/
def contains (t : Table) (state symbol : String) : Bool :=
  (t.get? state symbol).isSome

/-- Adds a row, in the place of an earlier one from the same pair or else at the end; the
first component is the target that was replaced, if there was one. -/
def exchange (t : Table) (e : Transition) : Option String × Table :=
  ((e.exchange t.entries).1, ⟨(e.exchange t.entries).2, Transition.nodup_exchange t.nodup⟩)

/-- Adds a row, in the place of an earlier one from the same pair or else at the end. -/
def insert (t : Table) (e : Transition) : Table :=
  (t.exchange e).2

/-- What is replaced is what the table had. -/
theorem fst_exchange (t : Table) (e : Transition) :
  (t.exchange e).1 = t.get? e.source e.symbol
  := Transition.fst_exchange e t.entries

theorem get?_insert (t : Table) (e : Transition) (state symbol : String) :
  (t.insert e).get? state symbol
    = if e.source = state ∧ e.symbol = symbol then some e.target else t.get? state symbol
  := by
  simp only [get?, insert, exchange, Transition.targetOf?_exchange, Transition.key,
    Prod.mk.injEq]

/-- The table leads on exactly by its rows. -/
theorem get?_eq_some_iff {t : Table} {state symbol target : String} :
  t.get? state symbol = some target ↔ ⟨state, symbol, target⟩ ∈ t.entries
  := by
  obtain ⟨us, hnodup⟩ := t
  dsimp only [get?]
  induction us with
  | nil => simp [Transition.targetOf?]
  | cons u us ih =>
    rw [List.map_cons, List.nodup_cons] at hnodup
    rw [Transition.targetOf?, List.mem_cons]
    split
    · next hkey =>
      obtain ⟨rfl, rfl⟩ := Prod.mk.inj hkey
      have hnotMem : ⟨u.source, u.symbol, target⟩ ∉ us := by
        intro hmem
        exact hnodup.1 (List.mem_map.mpr ⟨_, hmem, rfl⟩)
      constructor
      · intro h
        obtain rfl := Option.some.inj h
        exact .inl rfl
      · rintro (h | h)
        · rw [← h]
        · exact absurd h hnotMem
    · next hkey =>
      rw [ih hnodup.2]
      constructor
      · exact .inr
      · rintro (rfl | h)
        · exact absurd rfl hkey
        · exact h

/-- Adds the rows of a list, first to last. -/
def insertMany (t : Table) (l : List Transition) : Table :=
  l.foldl insert t

@[simp]
theorem insertMany_nil (t : Table) :
  t.insertMany [] = t
  := rfl

@[simp]
theorem insertMany_cons (t : Table) (e : Transition) (l : List Transition) :
  t.insertMany (e :: l) = (t.insert e).insertMany l
  := rfl

theorem insertMany_append (t : Table) (l m : List Transition) :
  t.insertMany (l ++ m) = (t.insertMany l).insertMany m
  := List.foldl_append

/-- The table of the rows of a list, of which a later one replaces an earlier one from the
same pair. -/
def ofList (l : List Transition) : Table :=
  (∅ : Table).insertMany l

theorem entries_insert_of_notMem {t : Table} {e : Transition}
    (h : e.key ∉ t.entries.map Transition.key) :
  (t.insert e).entries = t.entries ++ [e]
  := by
  obtain ⟨us, _⟩ := t
  dsimp only [insert, exchange] at h ⊢
  induction us with
  | nil => rfl
  | cons u us ih =>
    rw [List.map_cons, List.mem_cons, not_or] at h
    simp only [Transition.exchange, if_neg (Ne.symm h.1), ih (by grind) h.2, List.cons_append]

theorem entries_insertMany {t : Table} {l : List Transition}
    (h : ((t.entries ++ l).map Transition.key).Nodup) :
  (t.insertMany l).entries = t.entries ++ l
  := by
  induction l generalizing t with
  | nil => simp
  | cons e l ih =>
    have he : e.key ∉ t.entries.map Transition.key := by
      rw [List.map_append, List.nodup_append] at h
      intro hm
      exact h.2.2 _ hm _ List.mem_cons_self rfl
    have hi := entries_insert_of_notMem he
    rw [insertMany_cons, ih, hi, List.append_assoc, List.singleton_append]
    rwa [hi, List.append_assoc, List.singleton_append]

/-- Reading a table off its own rows gives the table back. -/
theorem ofList_entries (t : Table) :
  ofList t.entries = t
  := by
  apply ext
  exact entries_insertMany (by simpa using t.nodup)

/-! ### Order-blind comparison -/

/-- Two tables with the same rows, in whatever orders. -/
def Equiv (t u : Table) : Prop :=
  (∀ e ∈ t.entries, u.get? e.source e.symbol = some e.target) ∧
    ∀ e ∈ u.entries, t.get? e.source e.symbol = some e.target

instance : HasEquiv Table := ⟨Equiv⟩

instance (t u : Table) : Decidable (t ≈ u) :=
  inferInstanceAs (Decidable ((∀ e ∈ t.entries, u.get? e.source e.symbol = some e.target) ∧
    ∀ e ∈ u.entries, t.get? e.source e.symbol = some e.target))

end Table

end Acceptor
