import Acceptor.Reader
import Mathlib.Tactic.Use

/-!
# Texts that end by themselves

`Reader.Delimits` says that a reader sees from a text alone where the text ends: what follows
the text is left as it is, and a text that breaks off before its end is refused with one
fault, which stands for the missing rest.  This is kept when readers follow one another, so
that no text of a format is then the beginning of another (`Delimits.eq_of_prefix`).
-/

namespace Acceptor.Reader

variable {σ ε α β : Type}

/-! ### Runs of items -/

/-- The next item of `rest`, if there is one, does not satisfy `p`. -/
def StopsBefore (p : σ → Bool) (rest : List σ) : Prop :=
  ∀ c ∈ rest.head?, p c = false

@[simp]
theorem stopsBefore_nil (p : σ → Bool) :
  StopsBefore p []
  := nofun

@[simp]
theorem stopsBefore_cons {p : σ → Bool} {c : σ} {rest : List σ} :
  StopsBefore p (c :: rest) ↔ p c = false
  := by
  simp [StopsBefore]

theorem StopsBefore.take {p : σ → Bool} {rest : List σ} (h : StopsBefore p rest) (n : Nat) :
  StopsBefore p (rest.take n)
  := by
  intro c hc
  apply h
  rw [List.head?_take] at hc
  split at hc
  · cases hc
  · exact hc

theorem StopsBefore.takeWhile_eq_nil {p : σ → Bool} {rest : List σ} (h : StopsBefore p rest) :
  rest.takeWhile p = []
  := by
  cases rest with
  | nil => rfl
  | cons c rest => rw [List.takeWhile_cons, stopsBefore_cons.mp h, if_neg Bool.false_ne_true]

theorem StopsBefore.dropWhile_eq {p : σ → Bool} {rest : List σ} (h : StopsBefore p rest) :
  rest.dropWhile p = rest
  := by
  cases rest with
  | nil => rfl
  | cons c rest => rw [List.dropWhile_cons, stopsBefore_cons.mp h, if_neg Bool.false_ne_true]

/-- Where a run of items has been dropped, it does not go on. -/
theorem stopsBefore_dropWhile (p : σ → Bool) (items : List σ) :
  StopsBefore p (items.dropWhile p)
  := by
  intro c hc
  have hhead := List.head?_dropWhile_not p items
  rw [Option.mem_def.mp hc] at hhead
  exact hhead

/-- A run of items is taken up to the item that does not belong to it. -/
theorem run_takeWhile_append
    {p : σ → Bool} {front rest : List σ} (hfront : ∀ c ∈ front, p c = true)
    (hrest : StopsBefore p rest) :
  (takeWhile p : Reader σ ε (List σ)).run (front ++ rest) = .ok (front, rest)
  := by
  rw [run_takeWhile, List.takeWhile_append_of_pos hfront, List.dropWhile_append_of_pos hfront,
    hrest.takeWhile_eq_nil, hrest.dropWhile_eq, List.append_nil]

/-! ### Loops in step -/

theorem run_map (f : α → β) (r : Reader σ ε α) (items : List σ) :
  (f <$> r).run items =
    match r.run items with
    | .ok (a, rest) => .ok (f a, rest)
    | .error e => .error e
  := rfl

/-- A loop that keeps in step with another one, of which it sees the states through `f`, the
results through `g` and the faults through `fault`, reads what the other one reads. -/
theorem loop_map
    {ε' α' β' : Type} (f : α → α') {g : β → β'} {fault : ε → ε'}
    {atEnd : α → Except ε β} {step : α → σ → Reader σ ε (α ⊕ β)}
    {atEnd' : α' → Except ε' β'} {step' : α' → σ → Reader σ ε' (α' ⊕ β')}
    (hend : ∀ a, atEnd' (f a) = ((atEnd a).map g).mapError fault)
    (hstep : ∀ a c, step' (f a) c = (Sum.map f g <$> step a c).mapFault fault) (a : α) :
  loop atEnd' step' (f a) = (g <$> loop atEnd step a).mapFault fault
  := by
  apply ext
  intro items
  induction hn : items.length using Nat.strongRecOn generalizing items a with
  | ind n ih =>
  subst hn
  rw [run_mapFault, run_map]
  cases items with
  | nil =>
    rw [run_loop_nil, run_loop_nil, hend]
    cases atEnd a <;> rfl
  | cons c items =>
    rw [run_loop_cons, run_loop_cons, hstep, run_mapFault, run_map]
    cases hrun : (step a c).run items with
    | error x => rfl
    | ok result =>
      obtain ⟨next | b, rest⟩ := result
      · have hlt := Nat.lt_succ_of_le ((step a c).length_le hrun)
        apply ih _ hlt next rest rfl
      · rfl

/-! ### Delimited texts -/

/-- Two texts break off inside the first one, or after it inside the second one. -/
theorem take_append_cases {text text' : List σ} {n : Nat} (hn : n < (text ++ text').length) :
  (n < text.length ∧ (text ++ text').take n = text.take n)
    ∨ ∃ m < text'.length, (text ++ text').take n = text ++ text'.take m
  := by
  rw [List.take_append]
  rcases Nat.lt_or_ge n text.length with hlt | hge
  · left
    use hlt
    rw [Nat.sub_eq_zero_of_le (Nat.le_of_lt hlt), List.take_zero, List.append_nil]
  · right
    use n - text.length
    constructor
    · rw [List.length_append] at hn
      omega
    · rw [List.take_of_length_le hge]

/-- `r` reads `text` as `a` whatever follows it, and refuses with `e` all that breaks off
inside it. -/
structure Delimits (r : Reader σ ε α) (e : ε) (text : List σ) (a : α) : Prop where
  run_append : ∀ rest, r.run (text ++ rest) = .ok (a, rest)
  run_take : ∀ n < text.length, r.run (text.take n) = .error e

/-- A loop takes an item, goes on as `step` says, and then either ends or is a loop again. -/
theorem run_loop_cons_eq_bind
    (atEnd : α → Except ε β) (step : α → σ → Reader σ ε (α ⊕ β)) (a : α) (c : σ)
    (items : List σ) :
  (loop atEnd step a).run (c :: items) = (step a c >>= Sum.elim (loop atEnd step) pure).run items
  := by
  rw [run_loop_cons, run_bind]
  cases (step a c).run items with
  | error e => rfl
  | ok x =>
    obtain ⟨a' | b, rest⟩ := x
    · rfl
    · rfl

namespace Delimits

variable {r : Reader σ ε α} {e : ε} {text text' : List σ} {a : α} {b : β}

theorem run (h : r.Delimits e text a) :
  r.run text = .ok (a, [])
  := by
  have hrun := h.run_append []
  rwa [List.append_nil] at hrun

/-- A text that breaks off is refused. -/
theorem run_of_prefix
    (h : r.Delimits e text a) {front : List σ} (hstart : front <+: text) (hne : front ≠ text) :
  r.run front = .error e
  := by
  have htake := List.prefix_iff_eq_take.mp hstart
  rw [htake]
  apply h.run_take
  apply Nat.lt_of_le_of_ne hstart.length_le
  intro hlength
  apply hne (hstart.eq_of_length hlength)

/-- No text is the beginning of a text that stands for something else. -/
theorem eq_of_prefix
    {a' : α} (h : r.Delimits e text a) (h' : r.Delimits e text' a') (hstart : text <+: text') :
  a = a'
  := by
  obtain ⟨rest, rfl⟩ := hstart
  have hrun := h.run_append rest
  rw [h'.run] at hrun
  exact (Prod.mk.inj (Except.ok.inj hrun)).1.symm

/-! ### Readers that follow one another -/

protected theorem pure (a : α) :
  (pure a : Reader σ ε α).Delimits e [] a
  := by
  constructor
  · intro rest
    rfl
  · nofun

protected theorem bind
    {k : α → Reader σ ε β} (h : r.Delimits e text a) (h' : (k a).Delimits e text' b) :
  (r >>= k).Delimits e (text ++ text') b
  := by
  constructor
  · intro rest
    rw [List.append_assoc, run_bind_of_ok (h.run_append _), h'.run_append]
  · intro n hn
    rcases take_append_cases hn with ⟨hlt, htake⟩ | ⟨m, hm, htake⟩
    · rw [htake, run_bind_of_error (h.run_take n hlt)]
    · rw [htake, run_bind_of_ok (h.run_append _), h'.run_take m hm]

/-- What is made of the value afterwards needs no more of the text. -/
theorem bind_pure
    {k : α → Reader σ ε β} (h : r.Delimits e text a) (hk : k a = pure b) :
  (r >>= k).Delimits e text b
  := by
  have hpure : (k a).Delimits e [] b := by
    rw [hk]
    apply Delimits.pure
  have hbind := h.bind hpure
  rwa [List.append_nil] at hbind

/-- The first item is looked at, and the rest is read by another reader. -/
theorem cons
    {r' : Reader σ ε α} {c : σ} (hnil : r.run [] = .error e)
    (hcons : ∀ items, r.run (c :: items) = r'.run items) (h : r'.Delimits e text a) :
  r.Delimits e (c :: text) a
  := by
  constructor
  · intro rest
    rw [List.cons_append, hcons, h.run_append]
  · intro n hn
    cases n with
    | zero => rw [List.take_zero, hnil]
    | succ n =>
      rw [List.take_succ_cons, hcons]
      apply h.run_take
      rw [List.length_cons] at hn
      omega

/-- The first item is looked at, and the whole text is read by another reader. -/
theorem peek
    {r' : Reader σ ε α} {c : σ} (hnil : r.run [] = .error e)
    (hcons : ∀ items, r.run (c :: items) = r'.run (c :: items))
    (h : r'.Delimits e (c :: text) a) :
  r.Delimits e (c :: text) a
  := by
  constructor
  · intro rest
    rw [List.cons_append, hcons, ← List.cons_append, h.run_append]
  · intro n hn
    cases n with
    | zero => rw [List.take_zero, hnil]
    | succ n =>
      rw [List.take_succ_cons, hcons, ← List.take_succ_cons]
      apply h.run_take _ hn

/-- Items that are passed over may stand before a text. -/
theorem skip
    {skipped : List σ} (hskip : ∀ c ∈ skipped, ∀ items, r.run (c :: items) = r.run items)
    (hnil : r.run [] = .error e) (h : r.Delimits e text a) :
  r.Delimits e (skipped ++ text) a
  := by
  induction skipped with
  | nil => exact h
  | cons c skipped ih =>
    apply Delimits.cons hnil (hskip c List.mem_cons_self)
    apply ih fun d hd => hskip d (List.mem_cons_of_mem c hd)

/-! ### Counted items -/

theorem take (e : ε) (text : List σ) :
  (Reader.take text.length e).Delimits e text text
  := by
  constructor
  · intro rest
    simp [Reader.take]
  · intro n hn
    simp [Reader.take]
    omega

/-- Texts that are read one after the other. -/
theorem replicate
    {write : α → List σ} {l : List α} (h : ∀ a ∈ l, r.Delimits e (write a) a) :
  (r.replicate l.length).Delimits e (l.flatMap write) l
  := by
  induction l with
  | nil => apply Delimits.pure
  | cons a l ih =>
    have hl := ih fun b hb => h b (List.mem_cons_of_mem a hb)
    rw [List.flatMap_cons]
    apply (h a List.mem_cons_self).bind
    exact hl.bind_pure rfl

/-! ### Loops -/

/-- The first item of a loop, what its step reads, and the loop that goes on. -/
theorem loop
    {atEnd : α → Except ε β} {step : α → σ → Reader σ ε (α ⊕ β)} {c : σ}
    (hend : atEnd a = .error e)
    (h : (step a c >>= Sum.elim (Reader.loop atEnd step) pure).Delimits e text b) :
  (Reader.loop atEnd step a).Delimits e (c :: text) b
  := by
  apply Delimits.cons _ (run_loop_cons_eq_bind atEnd step a c) h
  rw [run_loop_nil, hend]
  rfl

end Delimits

end Acceptor.Reader
