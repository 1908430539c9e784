import Acceptor.Description
import Acceptor.Draft
import Acceptor.Event
import Acceptor.Run

/-!
# Logs

The events of each operation, in the order in which they happen.  A log is computed from
what the operation reads and yields: the rows of a body, the steps of a run, the automaton
that was made.
-/

namespace Acceptor

/-- The name of a strategy in a log. -/
def MatchStrategy.logName : MatchStrategy → String
  | .longestMatch => "LongestMatch"
  | .declarationOrder => "DeclarationOrder"

/-! ### Reading descriptions -/

/-- The events of reading a descriptor line: one, if the line is well formed. -/
def descriptorLog (line : String) : List Event :=
  match parseDescriptor line with
  | .ok d => [.descriptorParsed d.name d.states.size d.alphabet.size]
  | .error _ => []

/-- The events of adding rows to a table, of which the first has the number `entry`: one
for each row that replaces another. -/
def overwriteLog (t : Table) (entry : Nat) : List Transition → List Event
  | [] => []
  | row :: rows =>
    match t.exchange row with
    | (some previous, t) =>
      .transitionOverwritten entry previous :: overwriteLog t (entry + 1) rows
    | (none, t) => overwriteLog t (entry + 1) rows

/-- The events of reading a table body. -/
def tableLog (body : String) : List Event :=
  match readRows body with
  | .ok rows =>
    overwriteLog ∅ 1 rows ++ [.tableParsed rows.length (Table.ofList rows).size]
  | .error e => overwriteLog ∅ 1 e.rows

/-- The events of reading the two halves of a description. -/
def parseLog (text : String) : List Event :=
  match lines text.toList with
  | descriptor :: _ :: body =>
    let line := String.ofList descriptor
    descriptorLog line ++
      match parseDescriptor line with
      | .ok _ => tableLog (String.ofList body.flatten)
      | .error _ => []
  | _ => []

/-! ### Making automata -/

/-- The events of making an automaton. -/
def Automaton.constructionLog (a : Automaton) : List Event :=
  [.automatonConstructed a.descriptor.name a.descriptor.states.size a.descriptor.alphabet.size
    a.table.size a.config.strategy.logName]

/-- The events of reading a description as an automaton with the given settings. -/
def descriptionLog (text : String) (config : Config) : List Event :=
  parseLog text ++
    match Automaton.ofDescription text config with
    | .ok a => a.constructionLog
    | .error _ => []

/-- The events of reading a description as an automaton with the default settings. -/
def automatonLog (text : String) : List Event :=
  parseLog text ++
    match parseAutomaton text with
    | .ok a => a.constructionLog
    | .error _ => []

/-- The events of making an automaton of a draft. -/
def Draft.buildLog (d : Draft) : List Event :=
  match d.build with
  | .ok a => a.constructionLog
  | .error _ => []

/-! ### Running words -/

/-- The events of a run on `word`: the transitions followed, and the reason for which the
word is not accepted, if there is one. -/
def Run.log (finals : OrderedSet String) (word : String) (r : Run) : List Event :=
  (r.steps.map fun step => .step step.source step.symbol step.target) ++
    match r.outcome finals with
    | .accepted _ => []
    | .rejected (.undefinedTransition state symbol) => [.undefinedTransition word state symbol]
    | .rejected (.nonFinalState state) => [.endedOnNonFinal word state]

/-- The events of running an automaton on a word. -/
def Automaton.acceptLog (a : Automaton) (word : String) : List Event :=
  match a.tokenize word with
  | .ok symbols => (a.run symbols).log a.descriptor.finals word
  | .error _ => []

end Acceptor
