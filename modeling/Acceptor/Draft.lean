import Acceptor.Violation

/-!
# Drafts

A `Draft` is an automaton in the making.  Steps are applied to it in any order: a name, an
initial state or settings replace earlier ones, and states, symbols and transitions are
added to those that are there.  `Draft.build` yields the automaton if the draft has a name
and an initial state and nothing is wrong with its parts.
-/

namespace Acceptor

/-- The parts of an automaton as far as they are known. -/
structure Draft where
  name : Option String := none
  states : OrderedSet String := ∅
  alphabet : OrderedSet String := ∅
  initial : Option String := none
  finals : OrderedSet String := ∅
  table : Table := ∅
  config : Config := default
  deriving DecidableEq, Inhabited

/-- The ways in which a draft grows. -/
inductive DraftStep where
  | name (name : String)
  | state (state : String)
  | states (states : List String)
  | alphabet (symbols : List String)
  | initial (state : String)
  | finalState (state : String)
  | finalStates (states : List String)
  | transition (row : Transition)
  | transitions (table : Table)
  | config (config : Config)
  deriving DecidableEq

/-- The reasons for which a draft does not make an automaton. -/
inductive DraftError where
  | missingName
  | missingInitialState
  | inconsistent (violations : List Violation)
  deriving DecidableEq, Repr

/-- The wording of an error. -/
def DraftError.message : DraftError → String
  | .missingName => "Automaton name not specified. Call .name(name) before .build()"
  | .missingInitialState =>
    "Initial state not specified. Call .initial(state) before .build()"
  | .inconsistent violations =>
    "Automaton is inconsistent: " ++ "; ".intercalate (violations.map Violation.message)

namespace Draft

/-- Applies one step. -/
def apply (d : Draft) : DraftStep → Draft
  | .name name => { d with name := some name }
  | .state state => { d with states := d.states.insert state }
  | .states states => { d with states := d.states.insertMany states }
  | .alphabet symbols => { d with alphabet := d.alphabet.insertMany symbols }
  | .initial state => { d with initial := some state }
  | .finalState state => { d with finals := d.finals.insert state }
  | .finalStates states => { d with finals := d.finals.insertMany states }
  | .transition row => { d with table := d.table.insert row }
  | .transitions table => { d with table := d.table.insertMany table.entries }
  | .config config => { d with config := config }

/-- Applies steps, first to last, to a draft of which nothing is known. -/
def ofSteps (steps : List DraftStep) : Draft :=
  steps.foldl apply {}

/-- The automaton that a draft makes. -/
def build (d : Draft) : Except DraftError Automaton :=
  match d.name, d.initial with
  | none, _ => .error .missingName
  | some _, none => .error .missingInitialState
  | some name, some initial =>
    let descriptor : Descriptor := ⟨name, d.states, d.alphabet, initial, d.finals⟩
    match ensureConsistent descriptor d.table with
    | .ok () => .ok ⟨descriptor, d.table, d.config⟩
    | .error found => .error (.inconsistent found)

/-- A draft that makes an automaton lacks nothing, and makes it of its parts. -/
theorem exists_of_build {d : Draft} {a : Automaton} (h : d.build = .ok a) :
  ∃ name initial, d.name = some name ∧ d.initial = some initial
    ∧ a = ⟨⟨name, d.states, d.alphabet, initial, d.finals⟩, d.table, d.config⟩
    ∧ ensureConsistent a.descriptor a.table = .ok ()
  := by
  unfold build at h
  split at h
  · cases h
  · cases h
  · next name initial hname hinitial =>
    dsimp only at h
    split at h
    · next hc =>
      obtain rfl := Except.ok.inj h
      exact ⟨name, initial, hname, hinitial, rfl, hc⟩
    · cases h

/-- Nothing is wrong with the automaton that a draft makes. -/
theorem consistent_of_build {d : Draft} {a : Automaton} (h : d.build = .ok a) :
  Consistent a.descriptor a.table
  := by
  obtain ⟨name, initial, -, -, -, hok⟩ := exists_of_build h
  exact ensureConsistent_eq_ok.mp hok

/-- The rows of the automaton that a draft makes are those of the draft. -/
theorem table_of_build {d : Draft} {a : Automaton} (h : d.build = .ok a) :
  a.table = d.table
  := by
  obtain ⟨name, initial, -, -, rfl, -⟩ := exists_of_build h
  rfl

end Draft

end Acceptor
