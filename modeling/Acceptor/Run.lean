import Acceptor.Path
import Acceptor.Piece

/-!
# Runs

A `Run` follows the transitions of a table from a state along a list of symbols, as far as
the table goes.  `Automaton.accepts` runs an automaton on a word: the word is accepted
when the run goes to the end of the word and ends in a final state.
-/

namespace Acceptor

/-- The transitions followed from a state. -/
structure Run where
  /-- The state in which the run starts. -/
  start : String
  /-- The transitions followed, in their order. -/
  steps : List Transition
  /-- The symbol on which no transition leads on, if there is one. -/
  stuck : Option String
  deriving DecidableEq, Repr

/-- Follows the transitions of a table from `state` along `symbols`. -/
def Table.run (t : Table) (state : String) : List String → Run
  | [] => ⟨state, [], none⟩
  | symbol :: symbols =>
    match t.get? state symbol with
    | none => ⟨state, [], some symbol⟩
    | some target =>
      let rest := t.run target symbols
      ⟨state, ⟨state, symbol, target⟩ :: rest.steps, rest.stuck⟩

namespace Run

/-- The state reached. -/
def last (r : Run) : String :=
  match r.steps.getLast? with
  | none => r.start
  | some step => step.target

/-- The states and symbols met. -/
def path (r : Run) : Path :=
  ⟨r.start :: r.steps.flatMap fun step => [step.symbol, step.target]⟩

end Run

/-- The reasons for which a word is not accepted. -/
inductive Rejection where
  /-- No transition leads from `state` on `symbol`. -/
  | undefinedTransition (state symbol : String)
  /-- The run ends in `state`, which is not final. -/
  | nonFinalState (state : String)
  deriving DecidableEq, Repr

/-- The wording of a rejection. -/
def Rejection.message : Rejection → String
  | .undefinedTransition state symbol =>
    "Program ended with undefined state at state " ++ state ++ " with element " ++ symbol ++ "."
  | .nonFinalState state => "Program ended on non-final state " ++ state ++ "."

/-- The outcome of a run. -/
inductive Acceptance where
  | accepted (path : Path)
  | rejected (reason : Rejection)
  deriving DecidableEq, Repr

/-- The outcome of a run that may end in the given states. -/
def Run.outcome (finals : OrderedSet String) (r : Run) : Acceptance :=
  match r.stuck with
  | some symbol => .rejected (.undefinedTransition r.last symbol)
  | none => if r.last ∈ finals then .accepted r.path else .rejected (.nonFinalState r.last)

namespace Automaton

/-- Follows the transitions of an automaton along symbols. -/
def run (a : Automaton) (symbols : List String) : Run :=
  a.table.run a.descriptor.initial symbols

/-- The outcome of a word. -/
def accepts (a : Automaton) (word : String) : Except InvalidSymbol Acceptance := do
  let symbols ← a.tokenize word
  pure ((a.run symbols).outcome a.descriptor.finals)

/-- The outcomes of words, in their order. -/
def acceptsAll (a : Automaton) (words : List String) :
    List (Except InvalidSymbol Acceptance) :=
  words.map a.accepts

end Automaton

end Acceptor
