/-!
# Paths

A `Path` is the list of the states and symbols that a run meets, in turns and beginning
with a state.  The list is not constrained, so that one that breaks off after a symbol,
or is empty, can be held as well.
-/

namespace Acceptor

/-- Every other member of a list, beginning with the first. -/
def everyOther {α : Type} : List α → List α
  | [] => []
  | [a] => [a]
  | a :: _ :: rest => a :: everyOther rest

/-- States and symbols in turns. -/
structure Path where
  /-- All that is met. -/
  items : List String
  deriving DecidableEq, Inhabited, Repr

namespace Path

/-- The states. -/
def states (p : Path) : List String :=
  everyOther p.items

/-- The symbols. -/
def symbols (p : Path) : List String :=
  everyOther p.items.tail

/-- The last item, which is a state when the path is complete. -/
def lastState? (p : Path) : Option String :=
  p.items.getLast?

/-- The number of states and symbols. -/
def size (p : Path) : Nat :=
  p.items.length

/-- Whether nothing is met. -/
def isEmpty (p : Path) : Bool :=
  p.items.isEmpty

/-- The characters of a path after its first state. -/
def renderSteps : List String → List Char
  | symbol :: state :: rest =>
    " -".toList ++ symbol.toList ++ "-> ".toList ++ state.toList ++ renderSteps rest
  | _ => []

/-- Writes a path as `q0 -a-> q1 -b-> q1`.  A symbol after which no state is met is left
out. -/
def render (p : Path) : String :=
  match p.items with
  | [] => ""
  | state :: rest => String.ofList (state.toList ++ renderSteps rest)

end Path

end Acceptor
