/-!
# Readers

A reader takes a value off the front of a list of items, or fails with a fault, and
hands back the items that are left.  It never hands back more items than it was given,
and this is part of the type, so that `Reader.loop`, which takes one item and lets a
reader go on from there until it is told to stop, needs no other bound.

The texts of this library are read by readers over characters, tokens and bytes.
-/

namespace Acceptor

/-- A reader of `α` over items `σ` whose faults are `ε`. -/
structure Reader (σ ε α : Type) where
  /-- The value read and the items left, or the first fault met. -/
  run : List σ → Except ε (α × List σ)
  /-- What is left is no longer than what was given. -/
  length_le : ∀ {items a rest}, run items = .ok (a, rest) → rest.length ≤ items.length

namespace Reader

variable {σ ε ε' α β : Type}

@[ext]
theorem ext {r s : Reader σ ε α} (h : ∀ items, r.run items = s.run items) :
  r = s
  := by
  obtain ⟨f, _⟩ := r
  obtain ⟨g, _⟩ := s
  obtain rfl : f = g := funext h
  rfl

/-! ### Sequencing -/

/-- Reads nothing and yields `a`. -/
protected def pure (a : α) : Reader σ ε α where
  run items := .ok (a, items)
  length_le h := by
    obtain ⟨rfl, rfl⟩ := Prod.mk.inj (Except.ok.inj h)
    exact Nat.le_refl _

/-- Reads with `r`, then with what `k` makes of the value. -/
protected def bind (r : Reader σ ε α) (k : α → Reader σ ε β) : Reader σ ε β where
  run items :=
    match r.run items with
    | .ok (a, rest) => (k a).run rest
    | .error e => .error e
  length_le {items b rest} h := by
    split at h
    · next a middle hr => exact Nat.le_trans ((k a).length_le h) (r.length_le hr)
    · cases h

instance : Monad (Reader σ ε) where
  pure := Reader.pure
  bind := Reader.bind

@[simp]
theorem run_pure (a : α) (items : List σ) :
  (pure a : Reader σ ε α).run items = .ok (a, items)
  := rfl

theorem run_bind (r : Reader σ ε α) (k : α → Reader σ ε β) (items : List σ) :
  (r >>= k).run items =
    match r.run items with
    | .ok (a, rest) => (k a).run rest
    | .error e => .error e
  := rfl

theorem run_bind_of_ok {r : Reader σ ε α} {items rest : List σ} {a : α}
    (h : r.run items = .ok (a, rest)) (k : α → Reader σ ε β) :
  (r >>= k).run items = (k a).run rest
  := by
  rw [run_bind, h]

theorem run_bind_of_error {r : Reader σ ε α} {items : List σ} {e : ε}
    (h : r.run items = .error e) (k : α → Reader σ ε β) :
  (r >>= k).run items = .error e
  := by
  rw [run_bind, h]

/-- A sequence reads what its two readers read one after the other. -/
theorem run_bind_eq_ok_iff
    {r : Reader σ ε α} {k : α → Reader σ ε β} {items : List σ} {b : β} {rest : List σ} :
  (r >>= k).run items = .ok (b, rest)
    ↔ ∃ a middle, r.run items = .ok (a, middle) ∧ (k a).run middle = .ok (b, rest)
  := by
  rw [run_bind]
  cases r.run items with
  | error e => simp
  | ok x =>
    obtain ⟨a, middle⟩ := x
    constructor
    · exact fun h => ⟨a, middle, rfl, h⟩
    · rintro ⟨_, _, ⟨⟩, h⟩
      exact h

instance : LawfulMonad (Reader σ ε) := LawfulMonad.mk' _
  (fun r => by
    apply Reader.ext
    intro items
    show (match r.run items with
      | .ok (a, rest) => Except.ok (a, rest)
      | .error e => .error e) = r.run items
    cases r.run items <;> rfl)
  (fun _ _ => rfl)
  (fun r k l => by
    apply Reader.ext
    intro items
    simp only [run_bind]
    cases r.run items <;> rfl)

/-! ### Single steps -/

/-- Fails with `e`. -/
def fail (e : ε) : Reader σ ε α where
  run _ := .error e
  length_le h := by cases h

@[simp]
theorem run_fail (e : ε) (items : List σ) :
  (fail e : Reader σ ε α).run items = .error e
  := rfl

/-- Fails with the fault that `f` makes of the items ahead. -/
def failWith (f : List σ → ε) : Reader σ ε α where
  run items := .error (f items)
  length_le h := by cases h

@[simp]
theorem run_failWith (f : List σ → ε) (items : List σ) :
  (failWith f : Reader σ ε α).run items = .error (f items)
  := rfl

/-- The next item, if there is one, which is not taken. -/
def peek : Reader σ ε (Option σ) where
  run items := .ok (items.head?, items)
  length_le h := by
    obtain ⟨rfl, rfl⟩ := Prod.mk.inj (Except.ok.inj h)
    exact Nat.le_refl _

@[simp]
theorem run_peek (items : List σ) :
  (peek : Reader σ ε (Option σ)).run items = .ok (items.head?, items)
  := rfl

/-- The next item, if there is one, which is taken. -/
def item : Reader σ ε (Option σ) where
  run items := .ok (items.head?, items.tail)
  length_le h := by
    obtain ⟨rfl, rfl⟩ := Prod.mk.inj (Except.ok.inj h)
    simp

@[simp]
theorem run_item (items : List σ) :
  (item : Reader σ ε (Option σ)).run items = .ok (items.head?, items.tail)
  := rfl

/-- Takes the longest run of items that satisfy `p`. -/
def takeWhile (p : σ → Bool) : Reader σ ε (List σ) where
  run items := .ok (items.takeWhile p, items.dropWhile p)
  length_le h := by
    obtain ⟨rfl, rfl⟩ := Prod.mk.inj (Except.ok.inj h)
    exact (List.dropWhile_sublist p).length_le

@[simp]
theorem run_takeWhile (p : σ → Bool) (items : List σ) :
  (takeWhile p : Reader σ ε (List σ)).run items
    = .ok (items.takeWhile p, items.dropWhile p)
  := rfl

/-- Takes exactly `n` items, and fails with `e` if there are fewer. -/
def take (n : Nat) (e : ε) : Reader σ ε (List σ) where
  run items :=
    let front := items.take n
    if front.length = n then .ok (front, items.drop n) else .error e
  length_le {items a rest} h := by
    dsimp only at h
    split at h
    · obtain ⟨rfl, rfl⟩ := Prod.mk.inj (Except.ok.inj h)
      simp
    · cases h

/-- Reads with `r`, the faults of which are seen through `f`. -/
def mapFault (f : ε → ε') (r : Reader σ ε α) : Reader σ ε' α where
  run items :=
    match r.run items with
    | .ok x => .ok x
    | .error e => .error (f e)
  length_le {items a rest} h := by
    split at h
    · next x hr =>
      obtain rfl := Except.ok.inj h
      exact r.length_le hr
    · cases h

theorem run_mapFault (f : ε → ε') (r : Reader σ ε α) (items : List σ) :
  (r.mapFault f).run items =
    match r.run items with
    | .ok x => .ok x
    | .error e => .error (f e)
  := rfl

/-! ### Repetition -/

/-- Reads with `r` as many times as `n` says. -/
def replicate (r : Reader σ ε α) : Nat → Reader σ ε (List α)
  | 0 => pure []
  | n + 1 => do
    let a ← r
    let as ← r.replicate n
    pure (a :: as)

/-- The items left by `loop`, as a function of the items given. -/
def loopRun (atEnd : α → Except ε β) (step : α → σ → Reader σ ε (α ⊕ β)) :
    α → List σ → Except ε (β × List σ)
  | a, [] => (atEnd a).map fun b => (b, [])
  | a, c :: items =>
    match _h : (step a c).run items with
    | .error e => .error e
    | .ok (.inr b, rest) => .ok (b, rest)
    | .ok (.inl a', rest) => loopRun atEnd step a' rest
termination_by _ items => items.length
decreasing_by
  have := (step a c).length_le _h
  simp only [List.length_cons]
  omega

theorem loopRun_nil (atEnd : α → Except ε β) (step : α → σ → Reader σ ε (α ⊕ β)) (a : α) :
  loopRun atEnd step a [] = (atEnd a).map fun b => (b, [])
  := by
  rw [loopRun]

theorem loopRun_cons
    (atEnd : α → Except ε β) (step : α → σ → Reader σ ε (α ⊕ β))
    (a : α) (c : σ) (items : List σ) :
  loopRun atEnd step a (c :: items) =
    match (step a c).run items with
    | .error e => .error e
    | .ok (.inr b, rest) => .ok (b, rest)
    | .ok (.inl a', rest) => loopRun atEnd step a' rest
  := by
  rw [loopRun]
  split <;> simp [*]

theorem loopRun_length_le
    (atEnd : α → Except ε β) (step : α → σ → Reader σ ε (α ⊕ β))
    {a : α} {items : List σ} {b : β} {rest : List σ}
    (h : loopRun atEnd step a items = .ok (b, rest)) :
  rest.length ≤ items.length
  := by
  induction hn : items.length using Nat.strongRecOn generalizing a items with
  | ind n ih =>
  subst hn
  cases items with
  | nil =>
    rw [loopRun_nil] at h
    cases he : atEnd a with
    | error e =>
      rw [he] at h
      cases h
    | ok b' =>
      rw [he] at h
      obtain ⟨rfl, rfl⟩ := Prod.mk.inj (Except.ok.inj h)
      exact Nat.le_refl _
  | cons c items =>
    rw [loopRun_cons] at h
    split at h
    · cases h
    · next hr =>
      obtain ⟨rfl, rfl⟩ := Prod.mk.inj (Except.ok.inj h)
      exact Nat.le_succ_of_le ((step a c).length_le hr)
    · next hr =>
      have hle := (step a c).length_le hr
      have := ih _ (Nat.lt_succ_of_le hle) h rfl
      simp only [List.length_cons]
      omega

/-- Takes one item, goes on with what `step` makes of it and of the state, and so again
with the new state, until `step` yields a result.  `atEnd` decides when no item is left. -/
def loop (atEnd : α → Except ε β) (step : α → σ → Reader σ ε (α ⊕ β)) (a : α) :
    Reader σ ε β where
  run := loopRun atEnd step a
  length_le := loopRun_length_le atEnd step

theorem run_loop_nil (atEnd : α → Except ε β) (step : α → σ → Reader σ ε (α ⊕ β)) (a : α) :
  (loop atEnd step a).run [] = (atEnd a).map fun b => (b, [])
  := loopRun_nil atEnd step a

theorem run_loop_cons
    (atEnd : α → Except ε β) (step : α → σ → Reader σ ε (α ⊕ β))
    (a : α) (c : σ) (items : List σ) :
  (loop atEnd step a).run (c :: items) =
    match (step a c).run items with
    | .error e => .error e
    | .ok (.inr b, rest) => .ok (b, rest)
    | .ok (.inl a', rest) => (loop atEnd step a').run rest
  := loopRun_cons atEnd step a c items

end Reader

end Acceptor
