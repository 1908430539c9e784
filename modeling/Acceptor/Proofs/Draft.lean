import Acceptor.Draft
import Acceptor.Proofs.Table
import Mathlib.Data.List.Perm.Basic
import Mathlib.Tactic.Use

/-!
# What drafts are made of

A step tells a draft one thing: a name, an initial state or settings, of which the last
count, members of a set, which are added in the order in which they are told first, or rows
of the table.  `Makes` says which automaton a list of steps makes by what the steps of each
kind tell, and `Draft.build` yields this automaton, or else the first thing that it lacks, or
all that is wrong with it (`build_ofSteps`).
-/

namespace Acceptor

namespace DraftStep

/-! ### What a step tells -/

/-- The name that a step sets. -/
def name? : DraftStep → Option String
  | .name n => some n
  | _ => none

/-- The initial state that a step sets. -/
def initial? : DraftStep → Option String
  | .initial s => some s
  | _ => none

/-- The settings that a step sets. -/
def config? : DraftStep → Option Config
  | .config c => some c
  | _ => none

/-- The states that a step declares. -/
def states? : DraftStep → Option (List String)
  | .state s => some [s]
  | .states l => some l
  | _ => none

/-- The symbols that a step declares. -/
def alphabet? : DraftStep → Option (List String)
  | .alphabet l => some l
  | _ => none

/-- The states that a step makes final. -/
def finals? : DraftStep → Option (List String)
  | .finalState s => some [s]
  | .finalStates l => some l
  | _ => none

/-- The rows that a step adds. -/
def rows? : DraftStep → Option (List Transition)
  | .transition row => some [row]
  | .transitions t => some t.entries
  | _ => none

/-! ### What steps tell -/

/-- The last thing of one kind that steps tell. -/
def last? {α : Type} (f : DraftStep → Option α) (steps : List DraftStep) : Option α :=
  (steps.filterMap f).getLast?

/-- All that steps tell of one kind, one after the other. -/
def all {α : Type} (f : DraftStep → Option (List α)) (steps : List DraftStep) : List α :=
  (steps.filterMap f).flatten

theorem last?_cons {α : Type} (f : DraftStep → Option α) (step : DraftStep)
    (steps : List DraftStep) :
  last? f (step :: steps) = (last? f steps).or (f step)
  := by
  cases hf : f step with
  | none => simp [last?, hf]
  | some a =>
    rw [last?, List.filterMap_cons_some hf, List.getLast?_cons, ← last?]
    cases last? f steps <;> rfl

theorem all_cons {α : Type} (f : DraftStep → Option (List α)) (step : DraftStep)
    (steps : List DraftStep) :
  all f (step :: steps) = (f step).getD [] ++ all f steps
  := by
  cases hf : f step <;> simp [all, hf]

/-- The steps that tell something of one kind. -/
def telling {α : Type} (f : DraftStep → Option α) (steps : List DraftStep) : List DraftStep :=
  steps.filter fun step => (f step).isSome

theorem filterMap_telling {α : Type} (f : DraftStep → Option α) (steps : List DraftStep) :
  (telling f steps).filterMap f = steps.filterMap f
  := by
  rw [telling, List.filterMap_filter]
  congr 1
  funext step
  cases f step <;> rfl

/-- The other steps have no part in what is told last of one kind. -/
theorem last?_telling {α : Type} (f : DraftStep → Option α) (steps : List DraftStep) :
  last? f (telling f steps) = last? f steps
  := by
  rw [last?, filterMap_telling, last?]

/-- The other steps have no part in what is told of one kind. -/
theorem all_telling {α : Type} (f : DraftStep → Option (List α)) (steps : List DraftStep) :
  all f (telling f steps) = all f steps
  := by
  rw [all, filterMap_telling, all]

theorem last?_eq_none_iff {α : Type} {f : DraftStep → Option α} {steps : List DraftStep} :
  last? f steps = none ↔ ∀ step ∈ steps, f step = none
  := by
  rw [last?, List.getLast?_eq_none_iff, List.filterMap_eq_nil_iff]

theorem last?_name_eq_none_iff {steps : List DraftStep} :
  last? name? steps = none ↔ ∀ name, .name name ∉ steps
  := by
  rw [last?_eq_none_iff]
  constructor
  · intro h name hname
    cases h _ hname
  · intro h step hstep
    cases step with
    | name name => exact absurd hstep (h name)
    | _ => rfl

theorem last?_initial_eq_none_iff {steps : List DraftStep} :
  last? initial? steps = none ↔ ∀ state, .initial state ∉ steps
  := by
  rw [last?_eq_none_iff]
  constructor
  · intro h state hstate
    cases h _ hstate
  · intro h step hstep
    cases step with
    | initial state => exact absurd hstep (h state)
    | _ => rfl

end DraftStep

open DraftStep

namespace Draft

/-! ### What steps do -/

/-- What one step does to each part of a draft. -/
theorem apply_eq (d : Draft) (step : DraftStep) :
  d.apply step =
    { name := step.name?.or d.name
      states := d.states.insertMany (step.states?.getD [])
      alphabet := d.alphabet.insertMany (step.alphabet?.getD [])
      initial := step.initial?.or d.initial
      finals := d.finals.insertMany (step.finals?.getD [])
      table := d.table.insertMany (step.rows?.getD [])
      config := step.config?.getD d.config }
  := by
  cases step <;> rfl

/-- What steps, one after the other, do to each part of a draft. -/
theorem foldl_apply (d : Draft) (steps : List DraftStep) :
  steps.foldl apply d =
    { name := (last? name? steps).or d.name
      states := d.states.insertMany (all states? steps)
      alphabet := d.alphabet.insertMany (all alphabet? steps)
      initial := (last? initial? steps).or d.initial
      finals := d.finals.insertMany (all finals? steps)
      table := d.table.insertMany (all rows? steps)
      config := (last? config? steps).getD d.config }
  := by
  induction steps generalizing d with
  | nil => rfl
  | cons step steps ih =>
    rw [List.foldl_cons, ih, apply_eq]
    simp only [last?_cons, all_cons, OrderedSet.insertMany_append, Table.insertMany_append,
      Option.or_assoc, Option.getD_or]

/-- The parts of a draft of which nothing was known before the steps. -/
theorem ofSteps_eq (steps : List DraftStep) :
  ofSteps steps =
    { name := last? name? steps
      states := OrderedSet.ofList (all states? steps)
      alphabet := OrderedSet.ofList (all alphabet? steps)
      initial := last? initial? steps
      finals := OrderedSet.ofList (all finals? steps)
      table := Table.ofList (all rows? steps)
      config := (last? config? steps).getD default }
  := by
  rw [ofSteps, foldl_apply]
  simp only [Option.or_none]
  rfl

/-! ### What drafts lack -/

theorem build_eq_missingName_iff {d : Draft} :
  d.build = .error .missingName ↔ d.name = none
  := by
  rw [build]
  split
  · next hname => simp [hname]
  · next hname _ => simp [hname]
  · next hname _ =>
    dsimp only
    split <;> simp [hname]

theorem build_eq_missingInitialState_iff {d : Draft} :
  d.build = .error .missingInitialState ↔ d.name ≠ none ∧ d.initial = none
  := by
  rw [build]
  split
  · next hname => simp [hname]
  · next hname hinitial => simp [hname, hinitial]
  · next hname hinitial =>
    dsimp only
    split <;> simp [hinitial]

end Draft

/-! ### The automaton that steps make -/

/-- The automaton of which steps tell the parts: the last name, the last initial state and
the last settings, or the default ones, the members of the sets in the order in which they
are told first, and the table into which the rows are collected. -/
structure Makes (steps : List DraftStep) (a : Automaton) : Prop where
  name : last? name? steps = some a.descriptor.name
  states : a.descriptor.states.toList = (all states? steps).eraseDups
  alphabet : a.descriptor.alphabet.toList = (all alphabet? steps).eraseDups
  initial : last? initial? steps = some a.descriptor.initial
  finals : a.descriptor.finals.toList = (all finals? steps).eraseDups
  table : CollectedFrom (all rows? steps) a.table
  config : a.config = (last? config? steps).getD default

/-- The automaton with the given name and initial state, and with the other parts that steps
tell. -/
def Automaton.ofSteps (name initial : String) (steps : List DraftStep) : Automaton where
  descriptor :=
    Descriptor.ofLists name (all states? steps) (all alphabet? steps) initial
      (all finals? steps)
  table := Table.ofList (all rows? steps)
  config := (last? config? steps).getD default

/-- Steps make an automaton of which they set the name and the initial state. -/
theorem makes_iff {steps : List DraftStep} {a : Automaton} :
  Makes steps a
    ↔ ∃ name initial, last? name? steps = some name ∧ last? initial? steps = some initial
      ∧ a = Automaton.ofSteps name initial steps
  := by
  constructor
  · intro h
    obtain ⟨⟨name, states, alphabet, initial, finals⟩, table, config⟩ := a
    use name, initial, h.name, h.initial
    have hstates : states = OrderedSet.ofList (all states? steps) :=
      OrderedSet.ext (h.states.trans (OrderedSet.toList_ofList _).symm)
    have halphabet : alphabet = OrderedSet.ofList (all alphabet? steps) :=
      OrderedSet.ext (h.alphabet.trans (OrderedSet.toList_ofList _).symm)
    have hfinals : finals = OrderedSet.ofList (all finals? steps) :=
      OrderedSet.ext (h.finals.trans (OrderedSet.toList_ofList _).symm)
    have htable : table = Table.ofList (all rows? steps) := collectedFrom_iff.mp h.table
    have hconfig : config = (last? config? steps).getD default := h.config
    rw [hstates, halphabet, hfinals, htable, hconfig]
    rfl
  · rintro ⟨name, initial, hname, hinitial, rfl⟩
    constructor
    · exact hname
    · apply OrderedSet.toList_ofList
    · apply OrderedSet.toList_ofList
    · exact hinitial
    · apply OrderedSet.toList_ofList
    · apply collectedFrom_ofList
    · rfl

/-- Steps make an automaton when they set a name and an initial state. -/
theorem exists_makes_iff {steps : List DraftStep} :
  (∃ a, Makes steps a) ↔ last? name? steps ≠ none ∧ last? initial? steps ≠ none
  := by
  simp only [makes_iff, Option.ne_none_iff_exists']
  constructor
  · rintro ⟨_, name, initial, hname, hinitial, _⟩
    use ⟨name, hname⟩, initial
  · rintro ⟨⟨name, hname⟩, initial, hinitial⟩
    use Automaton.ofSteps name initial steps, name, initial

/-- The draft of steps makes the automaton that the steps make, unless something is wrong
with it. -/
theorem Makes.build_eq {steps : List DraftStep} {a : Automaton} (h : Makes steps a) :
  (Draft.ofSteps steps).build =
    if a.violations = [] then .ok a else .error (.inconsistent a.violations)
  := by
  obtain ⟨name, initial, hname, hinitial, rfl⟩ := makes_iff.mp h
  rw [Draft.build, Draft.ofSteps_eq, hname, hinitial]
  dsimp only
  split
  · next hc =>
    rw [if_pos]
    · rfl
    · apply ensureConsistent_eq_ok.mp hc
  · next found hc =>
    obtain ⟨rfl, hnot⟩ := ensureConsistent_eq_error_iff.mp hc
    rw [if_neg]
    · rfl
    · apply hnot

theorem Makes.build_eq_ok_iff {steps : List DraftStep} {a b : Automaton} (h : Makes steps a) :
  (Draft.ofSteps steps).build = .ok b ↔ a.violations = [] ∧ b = a
  := by
  rw [h.build_eq]
  by_cases hnone : a.violations = []
  · rw [if_pos hnone, Except.ok.injEq, eq_comm]
    simp only [hnone, true_and]
  · simp [hnone]

theorem Makes.build_eq_inconsistent_iff {steps : List DraftStep} {a : Automaton}
    {v : List Violation} (h : Makes steps a) :
  (Draft.ofSteps steps).build = .error (.inconsistent v) ↔ v = a.violations ∧ v ≠ []
  := by
  rw [h.build_eq]
  by_cases hnone : a.violations = []
  · simp [hnone]
  · rw [if_neg hnone, Except.error.injEq, DraftError.inconsistent.injEq, eq_comm]
    constructor
    · rintro rfl
      use rfl, hnone
    · apply And.left

/-! ### The parts of an automaton as steps -/

/-- The steps that tell the parts of an automaton. -/
def Automaton.draftSteps (a : Automaton) : List DraftStep :=
  [.name a.descriptor.name, .states a.descriptor.states.toList,
    .alphabet a.descriptor.alphabet.toList, .initial a.descriptor.initial,
    .finalStates a.descriptor.finals.toList, .transitions a.table, .config a.config]

/-- The steps of an automaton make it, in whatever order they are taken. -/
theorem makes_of_perm {a : Automaton} {steps : List DraftStep} (h : steps.Perm a.draftSteps) :
  Makes steps a
  := by
  -- Each part is told by one step, so that its place among the others has no part in it.
  have htold : ∀ {α : Type} (f : DraftStep → Option α) (told : α),
      a.draftSteps.filterMap f = [told] → steps.filterMap f = [told] := by
    intro α f told hf
    apply List.perm_singleton.mp
    rw [← hf]
    apply h.filterMap
  have hlast : ∀ {α : Type} (f : DraftStep → Option α) (told : α),
      a.draftSteps.filterMap f = [told] → last? f steps = some told := by
    intro α f told hf
    rw [last?, htold f told hf]
    rfl
  have hall : ∀ {α : Type} (f : DraftStep → Option (List α)) (told : List α),
      a.draftSteps.filterMap f = [told] → all f steps = told := by
    intro α f told hf
    rw [all, htold f told hf, List.flatten_singleton]
  constructor
  · apply hlast
    rfl
  · rw [hall states? _ rfl, ← OrderedSet.toList_ofList, OrderedSet.ofList_toList]
  · rw [hall alphabet? _ rfl, ← OrderedSet.toList_ofList, OrderedSet.ofList_toList]
  · apply hlast
    rfl
  · rw [hall finals? _ rfl, ← OrderedSet.toList_ofList, OrderedSet.ofList_toList]
  · rw [hall rows? _ rfl, collectedFrom_iff, Table.ofList_entries]
  · rw [hlast config? _ rfl, Option.getD_some]

/-! ### Builds -/

/-- A draft lacks a name if no step sets one, and lacks an initial state if steps set a name
and no initial state.  Any other draft makes the automaton of its steps if nothing is wrong
with this automaton, and is refused with all that is wrong else.  The steps of an automaton,
in any order, make the automaton itself if nothing is wrong with it, and are refused with all
that is wrong else. -/
theorem build_ofSteps :
  (∀ steps : List DraftStep,
      ((Draft.ofSteps steps).build = .error .missingName ↔ ∀ name, .name name ∉ steps)
        ∧ ((Draft.ofSteps steps).build = .error .missingInitialState
          ↔ (∃ name, .name name ∈ steps) ∧ ∀ state, .initial state ∉ steps)
        ∧ ((∃ a, Makes steps a)
          ↔ (∃ name, .name name ∈ steps) ∧ ∃ state, .initial state ∈ steps)
        ∧ ∀ a, Makes steps a →
          (∀ v, (Draft.ofSteps steps).build = .error (.inconsistent v)
              ↔ v = a.violations ∧ v ≠ [])
            ∧ ∀ b, (Draft.ofSteps steps).build = .ok b ↔ a.violations = [] ∧ b = a)
    ∧ ∀ (a : Automaton) (steps : List DraftStep), steps.Perm a.draftSteps →
      (a.violations = [] → (Draft.ofSteps steps).build = .ok a)
        ∧ (a.violations ≠ [] →
          (Draft.ofSteps steps).build = .error (.inconsistent a.violations))
  := by
  constructor
  · intro steps
    have hname : (∃ name, .name name ∈ steps) ↔ last? name? steps ≠ none := by
      rw [ne_eq, last?_name_eq_none_iff, Classical.not_forall_not]
    have hinitial : (∃ state, .initial state ∈ steps) ↔ last? initial? steps ≠ none := by
      rw [ne_eq, last?_initial_eq_none_iff, Classical.not_forall_not]
    rw [← last?_name_eq_none_iff, ← last?_initial_eq_none_iff, hname, hinitial]
    and_intros
    · rw [Draft.build_eq_missingName_iff, Draft.ofSteps_eq]
    · rw [Draft.build_eq_missingInitialState_iff, Draft.ofSteps_eq]
    · apply exists_makes_iff
    · intro a ha
      constructor
      · intro v
        apply ha.build_eq_inconsistent_iff
      · intro b
        apply ha.build_eq_ok_iff
  · intro a steps hperm
    have ha := makes_of_perm hperm
    constructor
    · intro hnone
      apply ha.build_eq_ok_iff.mpr ⟨hnone, rfl⟩
    · intro hsome
      apply ha.build_eq_inconsistent_iff.mpr ⟨rfl, hsome⟩

/-- A row replaces one that was added with a table, a name replaces a name, and a state keeps
the place at which it is told first. -/
theorem build_ofSteps_merged :
  let steps : List DraftStep :=
    [.state "q1", .transitions (Table.ofList [⟨"q0", "a", "q1"⟩, ⟨"q1", "a", "q1"⟩]),
      .name "N", .initial "q0", .states ["q0", "q1"], .alphabet ["a", "b"], .name "M",
      .transition ⟨"q0", "a", "q0"⟩, .finalState "q0", .config .declarationOrder,
      .transition ⟨"q0", "b", "q1"⟩]
  let a : Automaton :=
    ⟨Descriptor.ofLists "M" ["q1", "q0"] ["a", "b"] "q0" ["q0"],
      Table.ofList [⟨"q0", "a", "q0"⟩, ⟨"q1", "a", "q1"⟩, ⟨"q0", "b", "q1"⟩],
      .declarationOrder⟩
  Makes steps a
    ∧ (Draft.ofSteps steps).build = .ok a
    ∧ a.draftSteps.reverse.Perm a.draftSteps
    ∧ (Draft.ofSteps a.draftSteps.reverse).build = .ok a
  := by
  intro steps a
  have ha : Makes steps a := makes_iff.mpr ⟨"M", "q0", by decide⟩
  have hnone : a.violations = [] := by decide
  obtain ⟨hsteps, hown⟩ := build_ofSteps
  use ha, (((hsteps steps).2.2.2 a ha).2 a).mpr ⟨hnone, rfl⟩, List.reverse_perm _
  apply (hown a _ (List.reverse_perm _)).1 hnone

/-- The steps of an automaton with a row to a state that is not declared do not make it. -/
theorem build_draftSteps_ne :
  let a : Automaton :=
    ⟨Descriptor.ofLists "M" ["q0"] ["a"] "q0" ["q0"], Table.ofList [⟨"q0", "a", "q7"⟩], default⟩
  (Draft.ofSteps a.draftSteps).build
      = .error (.inconsistent [.unknownTargetState "q0" "a" "q7"])
    ∧ (Draft.ofSteps a.draftSteps).build ≠ .ok a
  := by
  decide

end Acceptor
