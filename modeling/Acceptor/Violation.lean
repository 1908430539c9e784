import Acceptor.Automaton
import Acceptor.Description.Token

/-!
# Violations

What can be wrong with a descriptor and a table that are to make an automaton: a declared
name that no description can hold, and a state or symbol that is used and not declared.
`violations` lists all of them, one for each place at which something is wrong, and a
descriptor and a table are `Consistent` when the list is empty.
-/

namespace Acceptor

/-- Something wrong with a descriptor and a table. -/
inductive Violation where
  /-- A declared name that no description can hold. -/
  | invalidName (name : String)
  /-- The initial state is not declared. -/
  | unknownInitialState (state : String)
  /-- A final state is not declared. -/
  | unknownFinalState (state : String)
  /-- A row leaves a state that is not declared. -/
  | unknownSourceState (state symbol : String)
  /-- A row consumes a symbol that is not declared. -/
  | unknownSymbol (state symbol : String)
  /-- A row reaches a state that is not declared. -/
  | unknownTargetState (source symbol state : String)
  deriving DecidableEq, Repr

/-- The wording of a violation. -/
def Violation.message : Violation → String
  | .invalidName name =>
    "Name '" ++ name ++ "' cannot be written in a description: it must be non-empty "
      ++ "with no whitespace and none of \x7b \x7d ( ) , ="
  | .unknownInitialState state => "Initial state '" ++ state ++ "' is not in the state set"
  | .unknownFinalState state => "Final state '" ++ state ++ "' is not in the state set"
  | .unknownSourceState state symbol =>
    "Transition (" ++ state ++ "," ++ symbol ++ ") starts from unknown state '" ++ state ++ "'"
  | .unknownSymbol state symbol =>
    "Transition (" ++ state ++ "," ++ symbol ++ ") uses symbol '" ++ symbol
      ++ "' outside the alphabet"
  | .unknownTargetState source symbol state =>
    "Transition (" ++ source ++ "," ++ symbol ++ ") leads to unknown state '" ++ state ++ "'"

/-- The violation `v`, unless the condition holds. -/
def Violation.unless (condition : Bool) (v : Violation) : List Violation :=
  if condition then [] else [v]

/-- The names that a descriptor declares. -/
def Descriptor.declaredNames (d : Descriptor) : List String :=
  d.name :: d.states.toList ++ d.alphabet.toList

/-- What is wrong with one row of a table. -/
def Transition.violations (d : Descriptor) (t : Transition) : List Violation :=
  Violation.unless (t.source ∈ d.states) (.unknownSourceState t.source t.symbol)
    ++ Violation.unless (t.symbol ∈ d.alphabet) (.unknownSymbol t.source t.symbol)
    ++ Violation.unless (t.target ∈ d.states) (.unknownTargetState t.source t.symbol t.target)

/-- All that is wrong with a descriptor and a table: the names first, then the initial
state, the final states and the rows. -/
def violations (d : Descriptor) (t : Table) : List Violation :=
  (d.declaredNames.flatMap fun name =>
      Violation.unless (isIdentifier name) (.invalidName name))
    ++ Violation.unless (d.initial ∈ d.states) (.unknownInitialState d.initial)
    ++ (d.finals.toList.flatMap fun state =>
      Violation.unless (state ∈ d.states) (.unknownFinalState state))
    ++ t.entries.flatMap fun e => e.violations d

/-- Nothing is wrong with the descriptor and the table. -/
def Consistent (d : Descriptor) (t : Table) : Prop :=
  violations d t = []

instance (d : Descriptor) (t : Table) : Decidable (Consistent d t) :=
  inferInstanceAs (Decidable (violations d t = []))

/-- Refuses a descriptor and a table that are not consistent, with all that is wrong. -/
def ensureConsistent (d : Descriptor) (t : Table) : Except (List Violation) Unit :=
  match violations d t with
  | [] => .ok ()
  | found => .error found

/-- All that is wrong with the parts of an automaton. -/
def Automaton.violations (a : Automaton) : List Violation :=
  Acceptor.violations a.descriptor a.table

@[simp]
theorem Violation.unless_eq_nil {condition : Bool} {v : Violation} :
  Violation.unless condition v = [] ↔ condition = true
  := by
  unfold Violation.unless
  split <;> simp [*]

theorem Violation.mem_unless {condition : Bool} {v w : Violation} :
  w ∈ Violation.unless condition v ↔ condition = false ∧ w = v
  := by
  unfold Violation.unless
  split <;> simp [*]

theorem ensureConsistent_eq_ok {d : Descriptor} {t : Table} :
  ensureConsistent d t = .ok () ↔ Consistent d t
  := by
  unfold ensureConsistent Consistent
  split
  · next h => simp [h]
  · next h => simpa using h

/-- What is refused is refused with all that is wrong. -/
theorem ensureConsistent_eq_error_iff {d : Descriptor} {t : Table} {found : List Violation} :
  ensureConsistent d t = .error found ↔ found = violations d t ∧ ¬ Consistent d t
  := by
  unfold ensureConsistent Consistent
  split
  · next h => simp [h]
  · next h => simpa [eq_comm] using fun _ => h

theorem Transition.violations_eq_nil {d : Descriptor} {t : Transition} :
  t.violations d = []
    ↔ t.source ∈ d.states ∧ t.symbol ∈ d.alphabet ∧ t.target ∈ d.states
  := by
  simp [Transition.violations]

/-- Nothing is wrong when the declared names can be written and when all that is used is
declared. -/
theorem consistent_iff {d : Descriptor} {t : Table} :
  Consistent d t
    ↔ (∀ name ∈ d.declaredNames, isIdentifier name = true)
      ∧ d.initial ∈ d.states
      ∧ (∀ state ∈ d.finals.toList, state ∈ d.states)
      ∧ ∀ e ∈ t.entries, e.source ∈ d.states ∧ e.symbol ∈ d.alphabet ∧ e.target ∈ d.states
  := by
  simp [Consistent, violations, Transition.violations_eq_nil]

end Acceptor
