/-!
# Ordered sets

A finite set that remembers the order in which its members were first added.  The order
is part of the value, so that a set is written and read back as it was, while
`OrderedSet.Equiv` compares members only.
-/

namespace Acceptor

/-- A list without repetitions. -/
structure OrderedSet (α : Type) where
  /-- The members, in the order in which they were first added. -/
  toList : List α
  /-- No member occurs twice. -/
  nodup : toList.Nodup

namespace OrderedSet

variable {α : Type}

@[ext]
theorem ext {s t : OrderedSet α} (h : s.toList = t.toList) :
  s = t
  := by
  obtain ⟨l, _⟩ := s
  obtain ⟨m, _⟩ := t
  obtain rfl : l = m := h
  rfl

theorem toList_inj {s t : OrderedSet α} :
  s.toList = t.toList ↔ s = t
  := ⟨ext, congrArg toList⟩

instance [DecidableEq α] : DecidableEq (OrderedSet α) :=
  fun _ _ => decidable_of_iff _ toList_inj

/-- The set without members. -/
def empty : OrderedSet α :=
  ⟨[], List.nodup_nil⟩

instance : EmptyCollection (OrderedSet α) := ⟨empty⟩

instance : Inhabited (OrderedSet α) := ⟨empty⟩

@[simp]
theorem toList_empty :
  (∅ : OrderedSet α).toList = []
  := rfl

instance : Membership α (OrderedSet α) := ⟨fun s a => a ∈ s.toList⟩

theorem mem_def {a : α} {s : OrderedSet α} :
  a ∈ s ↔ a ∈ s.toList
  := Iff.rfl

instance [DecidableEq α] (a : α) (s : OrderedSet α) : Decidable (a ∈ s) :=
  inferInstanceAs (Decidable (a ∈ s.toList))

/-- The number of members. -/
def size (s : OrderedSet α) : Nat :=
  s.toList.length

/-! ### Adding members -/

variable [DecidableEq α]

/-- Adds `a` at the end, unless it is a member already. -/
def insert (s : OrderedSet α) (a : α) : OrderedSet α :=
  if h : a ∈ s.toList then s
  else
    ⟨s.toList ++ [a], by
      rw [List.nodup_append]
      refine ⟨s.nodup, by simp, ?_⟩
      intro x hx y hy
      obtain rfl := List.mem_singleton.mp hy
      rintro rfl
      exact h hx⟩

theorem toList_insert (s : OrderedSet α) (a : α) :
  (s.insert a).toList = if a ∈ s.toList then s.toList else s.toList ++ [a]
  := by
  unfold insert
  split <;> rfl

@[simp]
theorem mem_insert {s : OrderedSet α} {a b : α} :
  b ∈ s.insert a ↔ b ∈ s ∨ b = a
  := by
  simp only [mem_def, toList_insert]
  split
  · next h =>
    constructor
    · exact Or.inl
    · rintro (hb | rfl)
      · exact hb
      · exact h
  · simp

/-- Adds the members of a list, first to last. -/
def insertMany (s : OrderedSet α) (l : List α) : OrderedSet α :=
  l.foldl insert s

@[simp]
theorem insertMany_nil (s : OrderedSet α) :
  s.insertMany [] = s
  := rfl

@[simp]
theorem insertMany_cons (s : OrderedSet α) (a : α) (l : List α) :
  s.insertMany (a :: l) = (s.insert a).insertMany l
  := rfl

theorem insertMany_append (s : OrderedSet α) (l m : List α) :
  s.insertMany (l ++ m) = (s.insertMany l).insertMany m
  := List.foldl_append

/-- The members of a list, in the order of their first occurrences. -/
def ofList (l : List α) : OrderedSet α :=
  (∅ : OrderedSet α).insertMany l

theorem mem_insertMany {s : OrderedSet α} {l : List α} {a : α} :
  a ∈ s.insertMany l ↔ a ∈ s ∨ a ∈ l
  := by
  induction l generalizing s with
  | nil => simp
  | cons b l ih =>
    rw [insertMany_cons, ih, mem_insert, List.mem_cons, or_assoc]

theorem mem_ofList {l : List α} {a : α} :
  a ∈ ofList l ↔ a ∈ l
  := by
  rw [ofList, mem_insertMany]
  simp [mem_def]

theorem insertMany_toList {s : OrderedSet α} {l : List α} (h : (s.toList ++ l).Nodup) :
  (s.insertMany l).toList = s.toList ++ l
  := by
  induction l generalizing s with
  | nil => simp
  | cons a l ih =>
    have ha : a ∉ s.toList := by
      rw [List.nodup_append] at h
      intro hs
      exact h.2.2 a hs a List.mem_cons_self rfl
    have hi : (s.insert a).toList = s.toList ++ [a] := by
      rw [toList_insert, if_neg ha]
    rw [insertMany_cons, ih, hi, List.append_assoc, List.singleton_append]
    rwa [hi, List.append_assoc, List.singleton_append]

/-- Reading a set off its own list gives the set back. -/
theorem ofList_toList (s : OrderedSet α) :
  ofList s.toList = s
  := by
  apply ext
  exact insertMany_toList (by simpa using s.nodup)

theorem toList_insertMany (s : OrderedSet α) (l : List α) :
  (s.insertMany l).toList = s.toList ++ (l.removeAll s.toList).eraseDups
  := by
  induction l generalizing s with
  | nil => simp
  | cons a l ih =>
    rw [insertMany_cons, ih, toList_insert]
    split
    · next ha => simp [List.removeAll, ha]
    · next ha =>
      have hl : l.removeAll (s.toList ++ [a])
          = (l.removeAll s.toList).filter fun b => !b == a := by
        rw [List.removeAll, List.removeAll, List.filter_filter]
        apply List.filter_congr
        intro b _
        rw [List.elem_eq_contains, List.contains_append, Bool.not_or, Bool.and_comm,
          List.contains_cons, List.contains_nil, Bool.or_false]
      rw [hl, List.append_assoc, List.singleton_append]
      simp [List.removeAll, ha, List.eraseDups_cons]

/-- The members of a list are in the order of their first occurrences. -/
theorem toList_ofList (l : List α) :
  (ofList l).toList = l.eraseDups
  := by
  rw [ofList, toList_insertMany, toList_empty, List.removeAll_nil, List.nil_append]

/-! ### Order-blind comparison -/

omit [DecidableEq α] in
/-- Two sets with the same members, in whatever orders. -/
def Equiv (s t : OrderedSet α) : Prop :=
  (∀ a ∈ s.toList, a ∈ t.toList) ∧ ∀ a ∈ t.toList, a ∈ s.toList

instance : HasEquiv (OrderedSet α) := ⟨Equiv⟩

instance (s t : OrderedSet α) : Decidable (s ≈ t) :=
  inferInstanceAs (Decidable ((∀ a ∈ s.toList, a ∈ t.toList) ∧ ∀ a ∈ t.toList, a ∈ s.toList))

omit [DecidableEq α] in
theorem equiv_iff {s t : OrderedSet α} :
  s ≈ t ↔ ∀ a, a ∈ s ↔ a ∈ t
  := by
  constructor
  · rintro ⟨h, h'⟩ a
    exact ⟨h a, h' a⟩
  · intro h
    exact ⟨fun a => (h a).mp, fun a => (h a).mpr⟩

end OrderedSet

end Acceptor
