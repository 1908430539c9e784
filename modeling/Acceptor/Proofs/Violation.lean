import Acceptor.Proofs.Description.RoundTrip
import Mathlib.Data.List.Perm.Basic
import Mathlib.Tactic.Use

/-!
# What is wrong, place by place

Something can be wrong at the name, at a member of a set, at the initial state and at the
three parts of a row.  `WrongAt` tells for each of these places which violation is there, if
one is, and `Findings` are the wrong places in their order, each with its violation.  There
is one such list (`Findings.unique`), and a descriptor and a table are refused with the
violations that it tells (`ensureConsistent_findings`).  The answer comes from checks, one
for each place, however these are gathered into one (`Verdict.Gathers.gather_checks`).
-/

namespace Acceptor

/-! ### Places -/

/-- A place in a descriptor or a table, where members and rows are counted from 0. -/
inductive Place where
  /-- The name of the automaton. -/
  | name
  /-- A member of the states. -/
  | state (i : Nat)
  /-- A member of the alphabet. -/
  | symbol (i : Nat)
  /-- The initial state. -/
  | initial
  /-- A member of the final states. -/
  | final (i : Nat)
  /-- The state that a row leaves. -/
  | source (row : Nat)
  /-- The symbol that a row consumes. -/
  | consumed (row : Nat)
  /-- The state that a row reaches. -/
  | target (row : Nat)
  deriving DecidableEq

namespace Place

/-- The part of a descriptor and a table to which a place belongs. -/
def part : Place → Nat
  | name => 0
  | state _ => 1
  | symbol _ => 2
  | initial => 3
  | final _ => 4
  | source _ | consumed _ | target _ => 5

/-- The number of a place inside its part. -/
def number : Place → Nat
  | name | initial => 0
  | state i | symbol i | final i => i
  | source row => 3 * row
  | consumed row => 3 * row + 1
  | target row => 3 * row + 2

/-- The order of the parts, and of the places inside a part. -/
def Before (p q : Place) : Prop :=
  p.part < q.part ∨ p.part = q.part ∧ p.number < q.number

end Place

/-- The violation that is at a place. -/
inductive WrongAt (d : Descriptor) (t : Table) : Place → Violation → Prop
  | name : isIdentifier d.name = false → WrongAt d t .name (.invalidName d.name)
  | state {i : Nat} {name : String} :
      d.states.toList[i]? = some name → isIdentifier name = false →
        WrongAt d t (.state i) (.invalidName name)
  | symbol {i : Nat} {name : String} :
      d.alphabet.toList[i]? = some name → isIdentifier name = false →
        WrongAt d t (.symbol i) (.invalidName name)
  | initial : d.initial ∉ d.states → WrongAt d t .initial (.unknownInitialState d.initial)
  | final {i : Nat} {state : String} :
      d.finals.toList[i]? = some state → state ∉ d.states →
        WrongAt d t (.final i) (.unknownFinalState state)
  | source {i : Nat} {row : Transition} :
      t.entries[i]? = some row → row.source ∉ d.states →
        WrongAt d t (.source i) (.unknownSourceState row.source row.symbol)
  | consumed {i : Nat} {row : Transition} :
      t.entries[i]? = some row → row.symbol ∉ d.alphabet →
        WrongAt d t (.consumed i) (.unknownSymbol row.source row.symbol)
  | target {i : Nat} {row : Transition} :
      t.entries[i]? = some row → row.target ∉ d.states →
        WrongAt d t (.target i) (.unknownTargetState row.source row.symbol row.target)

/-- The places at which something is wrong, in their order and each once, with the
violations that are there. -/
structure Findings (d : Descriptor) (t : Table) (found : List (Place × Violation)) : Prop where
  ordered : found.Pairwise fun p q => p.1.Before q.1
  mem_iff : ∀ place v, (place, v) ∈ found ↔ WrongAt d t place v

/-- There is one list of all findings. -/
theorem Findings.unique {d : Descriptor} {t : Table} {found found' : List (Place × Violation)}
    (h : Findings d t found) (h' : Findings d t found') :
  found = found'
  := by
  have hnodup : ∀ {l : List (Place × Violation)},
      l.Pairwise (fun p q => p.1.Before q.1) → l.Nodup := by
    intro l hl
    apply hl.imp
    rintro p q hlt rfl
    simp [Place.Before] at hlt
  have hperm : found.Perm found' := by
    apply (List.perm_ext_iff_of_nodup (hnodup h.ordered) (hnodup h'.ordered)).mpr
    rintro ⟨place, v⟩
    rw [h.mem_iff, h'.mem_iff]
  apply hperm.eq_of_pairwise _ h.ordered h'.ordered
  intro p q _ _ hpq hqp
  simp only [Place.Before] at hpq hqp
  omega

/-! ### Members in turn -/

/-- What `f` tells of the members of a list and of their numbers, member after member. -/
def inTurn {α β : Type} (f : Nat → α → List β) (l : List α) : List β :=
  l.zipIdx.flatMap fun member => f member.2 member.1

section InTurn

variable {α β : Type} {f : Nat → α → List β} {l : List α}

theorem mem_inTurn {b : β} :
  b ∈ inTurn f l ↔ ∃ i a, l[i]? = some a ∧ b ∈ f i a
  := by
  simp only [inTurn, List.mem_flatMap, Prod.exists, List.mem_zipIdx_iff_getElem?]
  exact exists_comm

theorem flatMap_inTurn {γ : Type} {g : β → List γ} {h : α → List γ}
    (hf : ∀ i a, (f i a).flatMap g = h a) :
  (inTurn f l).flatMap g = l.flatMap h
  := by
  rw [inTurn, List.flatMap_assoc]
  simp only [hf]
  rw [← List.flatMap_map, List.zipIdx_map_fst]

/-- What is told is in order if it is for each member, and from each to the later ones. -/
theorem pairwise_inTurn {R : β → β → Prop} (hf : ∀ i a, (f i a).Pairwise R)
    (hlt : ∀ i j a b, i < j → ∀ x ∈ f i a, ∀ y ∈ f j b, R x y) :
  (inTurn f l).Pairwise R
  := by
  apply List.pairwise_flatMap.mpr
  constructor
  · intro member _
    apply hf
  · have hnumbers : (l.zipIdx.map Prod.snd).Pairwise (· < ·) := by
      rw [List.zipIdx_map_snd]
      apply List.pairwise_lt_range' _ Nat.one_pos
    apply (List.pairwise_map.mp hnumbers).imp
    intro x y hxy
    apply hlt _ _ _ _ hxy

end InTurn

/-! ### Checks -/

/-- A condition on a place, and the violation that is there if it does not hold. -/
structure Check where
  place : Place
  holds : Bool
  violation : Violation

namespace Check

/-- The violation of a check that does not hold, with its place. -/
def finding? (c : Check) : Option (Place × Violation) :=
  if c.holds then none else some (c.place, c.violation)

theorem finding?_eq_some_iff {c : Check} {finding : Place × Violation} :
  c.finding? = some finding ↔ c.holds = false ∧ finding = (c.place, c.violation)
  := by
  cases hc : c.holds <;> simp [finding?, hc, eq_comm]

/-- The violations of a check: one, unless it holds. -/
def violations (c : Check) : List Violation :=
  Violation.unless c.holds c.violation

theorem map_snd_filterMap_finding? (cs : List Check) :
  (cs.filterMap finding?).map Prod.snd = cs.flatMap violations
  := by
  induction cs with
  | nil => rfl
  | cons c cs ih =>
    rw [List.flatMap_cons, ← ih]
    cases hc : c.holds <;> simp [finding?, violations, Violation.unless, hc]

/-- The checks of the members of a list. -/
def each {α : Type} (place : Nat → Place) (condition : α → Bool) (v : α → Violation) :
    List α → List Check :=
  inTurn fun i a => [⟨place i, condition a, v a⟩]

theorem flatMap_violations_each {α : Type} (place : Nat → Place) (condition : α → Bool)
    (v : α → Violation) (l : List α) :
  (each place condition v l).flatMap violations
    = l.flatMap fun a => Violation.unless (condition a) (v a)
  := flatMap_inTurn fun _ _ => List.flatMap_singleton _ _

end Check

/-- The checks of a row of the given number. -/
def Transition.checks (d : Descriptor) (i : Nat) (t : Transition) : List Check :=
  [⟨.source i, t.source ∈ d.states, .unknownSourceState t.source t.symbol⟩,
    ⟨.consumed i, t.symbol ∈ d.alphabet, .unknownSymbol t.source t.symbol⟩,
    ⟨.target i, t.target ∈ d.states, .unknownTargetState t.source t.symbol t.target⟩]

/-- All checks of a descriptor and a table, part by part. -/
def checks (d : Descriptor) (t : Table) : List Check :=
  [⟨.name, isIdentifier d.name, .invalidName d.name⟩]
    ++ Check.each .state isIdentifier .invalidName d.states.toList
    ++ Check.each .symbol isIdentifier .invalidName d.alphabet.toList
    ++ [⟨.initial, d.initial ∈ d.states, .unknownInitialState d.initial⟩]
    ++ Check.each .final (fun s => s ∈ d.states) .unknownFinalState d.finals.toList
    ++ inTurn (Transition.checks d) t.entries

theorem Transition.flatMap_violations_checks (d : Descriptor) (i : Nat) (t : Transition) :
  (t.checks d i).flatMap Check.violations = t.violations d
  := by
  simp only [checks, violations, List.flatMap_cons, List.flatMap_nil, List.append_nil,
    List.append_assoc, Check.violations]

/-- The violations are those of the checks, in the same order. -/
theorem flatMap_violations_checks (d : Descriptor) (t : Table) :
  (checks d t).flatMap Check.violations = violations d t
  := by
  have hrows : (inTurn (Transition.checks d) t.entries).flatMap Check.violations
      = t.entries.flatMap fun row => row.violations d :=
    flatMap_inTurn fun i row => row.flatMap_violations_checks d i
  simp only [checks, violations, Descriptor.declaredNames, hrows, List.flatMap_append,
    Check.flatMap_violations_each, List.flatMap_cons, List.append_assoc, List.nil_append,
    List.cons_append, Check.violations]

/-! ### Order -/

/-- Checks in the order of their places, all in parts before the part `k`. -/
structure OrderedBelow (k : Nat) (cs : List Check) : Prop where
  ordered : cs.Pairwise fun b c => b.place.Before c.place
  part_lt : ∀ c ∈ cs, c.place.part < k

namespace OrderedBelow

variable {k : Nat} {cs : List Check}

/-- Checks of the next part come after those before. -/
theorem append (h : OrderedBelow k cs) {more : List Check}
    (hmore : more.Pairwise fun b c => b.place.Before c.place)
    (hpart : ∀ c ∈ more, c.place.part = k) :
  OrderedBelow (k + 1) (cs ++ more)
  where
  ordered := by
    apply List.pairwise_append.mpr
    use h.ordered, hmore
    intro b hb c hc
    left
    rw [hpart c hc]
    apply h.part_lt b hb
  part_lt c hc := by
    rcases List.mem_append.mp hc with hc | hc
    · apply Nat.lt_succ_of_lt (h.part_lt c hc)
    · rw [hpart c hc]
      apply Nat.lt_succ_self

/-- One place makes a part. -/
theorem append_singleton (h : OrderedBelow k cs) {c : Check} (hpart : c.place.part = k) :
  OrderedBelow (k + 1) (cs ++ [c])
  := by
  apply h.append (List.pairwise_singleton _ _)
  intro c' hc'
  rw [List.mem_singleton.mp hc', hpart]

/-- The places of the members of a list make a part. -/
theorem append_each (h : OrderedBelow k cs) {α : Type} (place : Nat → Place)
    (hpart : ∀ i, (place i).part = k) (hnumber : ∀ i, (place i).number = i)
    (condition : α → Bool) (v : α → Violation) (l : List α) :
  OrderedBelow (k + 1) (cs ++ Check.each place condition v l)
  := by
  apply h.append
  · apply pairwise_inTurn
    · intro i a
      apply List.pairwise_singleton
    · intro i j a b hij c hc c' hc'
      obtain rfl := List.mem_singleton.mp hc
      obtain rfl := List.mem_singleton.mp hc'
      right
      dsimp only
      rw [hpart, hpart, hnumber, hnumber]
      use rfl
  · intro c hc
    obtain ⟨i, a, _, hc⟩ := mem_inTurn.mp hc
    rw [List.mem_singleton.mp hc, hpart]

end OrderedBelow

/-- The places of a row are numbered from three times the number of the row. -/
theorem Transition.place_of_mem_checks {d : Descriptor} {i : Nat} {t : Transition} {c : Check}
    (h : c ∈ t.checks d i) :
  c.place.part = 5 ∧ 3 * i ≤ c.place.number ∧ c.place.number < 3 * (i + 1)
  := by
  simp only [checks, List.mem_cons, List.not_mem_nil, or_false] at h
  rcases h with rfl | rfl | rfl <;> dsimp only [Place.part, Place.number] <;> omega

theorem Transition.pairwise_checks (d : Descriptor) (i : Nat) (t : Transition) :
  (t.checks d i).Pairwise fun b c => b.place.Before c.place
  := by
  simp [checks, Place.Before, Place.part, Place.number]

/-- The checks of the rows are in order. -/
theorem pairwise_inTurn_checks (d : Descriptor) (rows : List Transition) :
  (inTurn (Transition.checks d) rows).Pairwise fun b c => b.place.Before c.place
  := by
  apply pairwise_inTurn
  · apply Transition.pairwise_checks
  · intro i j t u hij b hb c hc
    obtain ⟨hbpart, _, hb⟩ := Transition.place_of_mem_checks hb
    obtain ⟨hcpart, hc, _⟩ := Transition.place_of_mem_checks hc
    right
    use hbpart.trans hcpart.symm
    omega

/-- The checks are in the order of their places. -/
theorem pairwise_checks (d : Descriptor) (t : Table) :
  (checks d t).Pairwise fun b c => b.place.Before c.place
  := by
  have hname : OrderedBelow 1 [⟨.name, isIdentifier d.name, .invalidName d.name⟩] := by
    constructor <;> simp [Place.part]
  have hstates := hname.append_each .state (fun _ => rfl) (fun _ => rfl)
    isIdentifier .invalidName d.states.toList
  have hsymbols := hstates.append_each .symbol (fun _ => rfl) (fun _ => rfl)
    isIdentifier .invalidName d.alphabet.toList
  have hinitial := hsymbols.append_singleton
    (c := ⟨.initial, d.initial ∈ d.states, .unknownInitialState d.initial⟩) rfl
  have hfinals := hinitial.append_each .final (fun _ => rfl) (fun _ => rfl)
    (fun s => s ∈ d.states) .unknownFinalState d.finals.toList
  have hrows := hfinals.append (pairwise_inTurn_checks d t.entries)
    (by
      intro c hc
      obtain ⟨i, row, _, hc⟩ := mem_inTurn.mp hc
      apply (Transition.place_of_mem_checks hc).1)
  apply hrows.ordered

/-! ### Findings of the checks -/

/-- A check that does not hold finds what is wrong at its place, and each thing that is wrong
is found by one. -/
theorem exists_check_iff {d : Descriptor} {t : Table} {place : Place} {v : Violation} :
  (∃ c ∈ checks d t, c.finding? = some (place, v)) ↔ WrongAt d t place v
  := by
  simp only [Check.finding?_eq_some_iff, Prod.mk.injEq]
  constructor
  · rintro ⟨c, hc, hfalse, rfl, rfl⟩
    simp only [checks, Check.each, List.mem_append, mem_inTurn, List.mem_singleton] at hc
    rcases hc with ((((rfl | ⟨i, s, hs, rfl⟩) | ⟨i, s, hs, rfl⟩) | rfl) | ⟨i, s, hs, rfl⟩)
      | ⟨i, row, hrow, hc⟩
    · apply WrongAt.name hfalse
    · apply WrongAt.state hs hfalse
    · apply WrongAt.symbol hs hfalse
    · apply WrongAt.initial (of_decide_eq_false hfalse)
    · apply WrongAt.final hs (of_decide_eq_false hfalse)
    · simp only [Transition.checks, List.mem_cons, List.not_mem_nil, or_false] at hc
      rcases hc with rfl | rfl | rfl
      · apply WrongAt.source hrow (of_decide_eq_false hfalse)
      · apply WrongAt.consumed hrow (of_decide_eq_false hfalse)
      · apply WrongAt.target hrow (of_decide_eq_false hfalse)
  · intro h
    simp only [checks, Transition.checks, Check.each, List.mem_append, mem_inTurn,
      List.mem_cons, List.not_mem_nil, or_false]
    cases h with
    | name h =>
      use ⟨.name, isIdentifier d.name, .invalidName d.name⟩
      simp [h]
    | @state i name hs h =>
      use ⟨.state i, isIdentifier name, .invalidName name⟩
      simp [hs, h]
    | @symbol i name hs h =>
      use ⟨.symbol i, isIdentifier name, .invalidName name⟩
      simp [hs, h]
    | initial h =>
      use ⟨.initial, d.initial ∈ d.states, .unknownInitialState d.initial⟩
      simp [h]
    | @final i state hs h =>
      use ⟨.final i, state ∈ d.states, .unknownFinalState state⟩
      simp [hs, h]
    | @source i row hrow h =>
      use ⟨.source i, row.source ∈ d.states, .unknownSourceState row.source row.symbol⟩
      constructor
      · right
        use i, row, hrow
        left
        rfl
      · simp [h]
    | @consumed i row hrow h =>
      use ⟨.consumed i, row.symbol ∈ d.alphabet, .unknownSymbol row.source row.symbol⟩
      constructor
      · right
        use i, row, hrow
        right
        left
        rfl
      · simp [h]
    | @target i row hrow h =>
      use ⟨.target i, row.target ∈ d.states,
        .unknownTargetState row.source row.symbol row.target⟩
      constructor
      · right
        use i, row, hrow
        right
        right
        rfl
      · simp [h]

/-- The checks that do not hold are the findings. -/
theorem findings_checks (d : Descriptor) (t : Table) :
  Findings d t ((checks d t).filterMap Check.finding?)
  where
  ordered := by
    apply (pairwise_checks d t).filterMap
    intro b c hbc p hp q hq
    obtain ⟨_, rfl⟩ := Check.finding?_eq_some_iff.mp hp
    obtain ⟨_, rfl⟩ := Check.finding?_eq_some_iff.mp hq
    apply hbc
  mem_iff place v := by
    rw [List.mem_filterMap, exists_check_iff]

/-! ### Verdicts -/

/-- What checks answer: nothing, or the violations found. -/
abbrev Verdict : Type := Except (List Violation) Unit

namespace Verdict

/-- The violations that a verdict tells. -/
def violations : Verdict → List Violation
  | .ok () => []
  | .error found => found

/-- A way of making one verdict of many, which tells nothing exactly when none of them tells
something, and otherwise all that they tell, in their order. -/
structure Gathers (gather : List Verdict → Verdict) : Prop where
  eq_ok_iff : ∀ verdicts, gather verdicts = .ok () ↔ ∀ verdict ∈ verdicts, verdict = .ok ()
  eq_error : ∀ verdicts found, gather verdicts = .error found →
    found = verdicts.flatMap violations

/-- The first verdict that tells something, with what the later ones tell. -/
def gatherAll : List Verdict → Verdict
  | [] => .ok ()
  | .ok () :: verdicts => gatherAll verdicts
  | .error found :: verdicts => .error (found ++ verdicts.flatMap violations)

theorem gathers_gatherAll :
  Gathers gatherAll
  where
  eq_ok_iff verdicts := by
    induction verdicts with
    | nil => simp [gatherAll]
    | cons verdict verdicts ih =>
      cases verdict with
      | ok => simpa [gatherAll] using ih
      | error found => simp [gatherAll]
  eq_error verdicts found h := by
    induction verdicts with
    | nil => cases h
    | cons verdict verdicts ih =>
      cases verdict with
      | ok => apply ih h
      | error first => apply (Except.error.inj h).symm

end Verdict

/-- What a check answers. -/
def Check.verdict (c : Check) : Verdict :=
  if c.holds then .ok () else .error [c.violation]

theorem Check.violations_verdict (c : Check) :
  c.verdict.violations = c.violations
  := by
  cases hc : c.holds <;> simp [verdict, violations, Verdict.violations, Violation.unless, hc]

theorem Check.verdict_eq_ok_iff {c : Check} :
  c.verdict = .ok () ↔ c.violations = []
  := by
  cases hc : c.holds <;> simp [verdict, violations, Violation.unless, hc]

/-- However the verdicts of the checks are gathered, they refuse what is refused, with the
same violations. -/
theorem Verdict.Gathers.gather_checks
    {gather : List Verdict → Verdict} (h : Gathers gather) (d : Descriptor) (t : Table) :
  gather ((checks d t).map Check.verdict) = ensureConsistent d t
  := by
  have hviolations : ((checks d t).map Check.verdict).flatMap violations
      = Acceptor.violations d t := by
    rw [List.flatMap_map, ← flatMap_violations_checks]
    simp only [Check.violations_verdict]
  cases hgather : gather ((checks d t).map Check.verdict) with
  | ok =>
    symm
    apply ensureConsistent_eq_ok.mpr
    rw [Consistent, ← flatMap_violations_checks, List.flatMap_eq_nil_iff]
    intro c hc
    apply Check.verdict_eq_ok_iff.mp
    apply (h.eq_ok_iff _).mp hgather _ (List.mem_map_of_mem hc)
  | error found =>
    symm
    apply ensureConsistent_eq_error_iff.mpr
    use (h.eq_error _ _ hgather).trans hviolations
    intro hconsistent
    rw [Consistent, ← flatMap_violations_checks, List.flatMap_eq_nil_iff] at hconsistent
    have hok : gather ((checks d t).map Check.verdict) = .ok () := by
      apply (h.eq_ok_iff _).mpr
      intro verdict hverdict
      obtain ⟨c, hc, rfl⟩ := List.mem_map.mp hverdict
      apply Check.verdict_eq_ok_iff.mpr (hconsistent c hc)
    rw [hok] at hgather
    cases hgather

/-! ### Refusal -/

/-- The violations are those that the findings tell. -/
theorem Findings.map_snd_eq {d : Descriptor} {t : Table} {found : List (Place × Violation)}
    (h : Findings d t found) :
  found.map Prod.snd = violations d t
  := by
  rw [h.unique (findings_checks d t), Check.map_snd_filterMap_finding?,
    flatMap_violations_checks]

/-- However their verdicts are gathered, the checks accept a descriptor and a table exactly
when the declared names can be written and all that is used is declared; then all names can
be written, also those that are only used.  Everything else is refused with the violations
at the places at which something is wrong, one for each place and in the order of the
places. -/
theorem ensureConsistent_findings
    {gather : List Verdict → Verdict} (h : Verdict.Gathers gather) (d : Descriptor) (t : Table) :
  gather ((checks d t).map Check.verdict) = ensureConsistent d t
    ∧ (ensureConsistent d t = .ok ()
      ↔ isIdentifier d.name = true
        ∧ (∀ s ∈ d.states, isIdentifier s = true)
        ∧ (∀ s ∈ d.alphabet, isIdentifier s = true)
        ∧ d.initial ∈ d.states
        ∧ (∀ s ∈ d.finals, s ∈ d.states)
        ∧ ∀ row ∈ t.entries,
          row.source ∈ d.states ∧ row.target ∈ d.states ∧ row.symbol ∈ d.alphabet)
    ∧ (∀ v, ensureConsistent d t = .error v
      ↔ v ≠ [] ∧ ∃ found, Findings d t found ∧ v = found.map Prod.snd)
    ∧ (ensureConsistent d t = .ok () → (Automaton.ofParts d t).Writable)
  := by
  use h.gather_checks d t
  rw [ensureConsistent_eq_ok]
  and_intros
  · rw [consistent_iff]
    simp only [Descriptor.declaredNames, List.cons_append, List.forall_mem_cons,
      List.forall_mem_append, OrderedSet.mem_def]
    grind
  · intro v
    rw [ensureConsistent_eq_error_iff]
    constructor
    · rintro ⟨rfl, hnot⟩
      use hnot, (checks d t).filterMap Check.finding?, findings_checks d t
      rw [(findings_checks d t).map_snd_eq]
    · rintro ⟨hne, found, hfound, rfl⟩
      rw [hfound.map_snd_eq] at hne ⊢
      use rfl, hne
  · intro hconsistent
    apply Automaton.writable_of_consistent (a := Automaton.ofParts d t) hconsistent

/-- Something is wrong in each part but the first. -/
theorem ensureConsistent_findings_everywhere :
  let d := Descriptor.ofLists "M" ["q0", "q 1"] ["", "a"] "qx" ["q0", "qf"]
  let t := Table.ofList [⟨"q9", "c", "q0"⟩, ⟨"q0", "a", "q7"⟩]
  Verdict.Gathers Verdict.gatherAll
    ∧ Verdict.gatherAll ((checks d t).map Check.verdict)
      = .error [.invalidName "q 1", .invalidName "", .unknownInitialState "qx",
        .unknownFinalState "qf", .unknownSourceState "q9" "c", .unknownSymbol "q9" "c",
        .unknownTargetState "q0" "a" "q7"]
    ∧ ∃ found, Findings d t found
      ∧ found.map Prod.fst
        = [.state 1, .symbol 0, .initial, .final 1, .source 0, .consumed 0, .target 1]
  := by
  intro d t
  obtain ⟨hgather, -, herror, -⟩ :=
    ensureConsistent_findings Verdict.gathers_gatherAll d t
  have hrefused : ensureConsistent d t
      = .error [.invalidName "q 1", .invalidName "", .unknownInitialState "qx",
        .unknownFinalState "qf", .unknownSourceState "q9" "c", .unknownSymbol "q9" "c",
        .unknownTargetState "q0" "a" "q7"] := by
    decide
  use Verdict.gathers_gatherAll, hgather.trans hrefused
  obtain ⟨-, found, hfound, -⟩ := (herror _).mp hrefused
  use found, hfound
  rw [hfound.unique (findings_checks d t)]
  decide

end Acceptor
