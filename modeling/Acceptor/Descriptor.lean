import Acceptor.OrderedSet

/-!
# Descriptors

A `Descriptor` names an automaton and declares its states, its alphabet, the state in
which it starts and the states in which it may end.  A descriptor declares; whether the
declarations fit together is the matter of `Violation`.
-/

namespace Acceptor

/-- The declared parts of an automaton. -/
structure Descriptor where
  /-- The name of the automaton. -/
  name : String
  /-- The states. -/
  states : OrderedSet String
  /-- The symbols. -/
  alphabet : OrderedSet String
  /-- The state in which a run starts. -/
  initial : String
  /-- The states in which a run may end. -/
  finals : OrderedSet String
  deriving DecidableEq, Inhabited

namespace Descriptor

/-- The descriptor with the given members, of which repetitions are dropped. -/
def ofLists
    (name : String) (states alphabet : List String) (initial : String)
    (finals : List String) : Descriptor where
  name := name
  states := OrderedSet.ofList states
  alphabet := OrderedSet.ofList alphabet
  initial := initial
  finals := OrderedSet.ofList finals

/-- Two descriptors that differ at most in the orders of their sets. -/
def Equiv (d e : Descriptor) : Prop :=
  d.name = e.name ∧ d.states ≈ e.states ∧ d.alphabet ≈ e.alphabet ∧
    d.initial = e.initial ∧ d.finals ≈ e.finals

instance : HasEquiv Descriptor := ⟨Equiv⟩

instance (d e : Descriptor) : Decidable (d ≈ e) :=
  inferInstanceAs (Decidable (d.name = e.name ∧ d.states ≈ e.states ∧
    d.alphabet ≈ e.alphabet ∧ d.initial = e.initial ∧ d.finals ≈ e.finals))

end Descriptor

end Acceptor
