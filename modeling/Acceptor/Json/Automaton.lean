import Acceptor.Json.Codec
import Acceptor.Run

/-!
# Automata in JSON

How the parts of an automaton, paths and outcomes are written as JSON values, and the
readers of these values.  For each type `T` there are `T.toJson` and `Json.t`.  Sets,
tables and paths are written as lists in their own order; when a list is read as a set or
a table, repeated members are dropped and repeated pairs are joined.
-/

namespace Acceptor

open Json (Value)

/-! ### Writing -/

/-- A set as the list of its members. -/
def OrderedSet.toJson (s : OrderedSet String) : Value :=
  .texts s.toList

/-- A descriptor as an object. -/
def Descriptor.toJson (d : Descriptor) : Value :=
  .object [
    ("name", .text d.name),
    ("states", d.states.toJson),
    ("alphabet", d.alphabet.toJson),
    ("initial_state", .text d.initial),
    ("final_states", d.finals.toJson)]

/-- A row as an object. -/
def Transition.toJson (t : Transition) : Value :=
  .object [("from", .text t.source), ("symbol", .text t.symbol), ("to", .text t.target)]

/-- A table as the list of its rows. -/
def Table.toJson (t : Table) : Value :=
  .list (t.entries.map Transition.toJson)

/-- The name of a strategy. -/
def MatchStrategy.jsonName : MatchStrategy → String
  | .longestMatch => "longest_match"
  | .declarationOrder => "declaration_order"

/-- A strategy as its name. -/
def MatchStrategy.toJson (s : MatchStrategy) : Value :=
  .text s.jsonName

/-- Settings as an object. -/
def Config.toJson (c : Config) : Value :=
  .object [("match_strategy", c.strategy.toJson)]

/-- An automaton as an object. -/
def Automaton.toJson (a : Automaton) : Value :=
  .object [
    ("descriptor", a.descriptor.toJson),
    ("table", a.table.toJson),
    ("config", a.config.toJson)]

/-- A path as the list of its items. -/
def Path.toJson (p : Path) : Value :=
  .texts p.items

/-- A rejection as an object with one member, which is named for the reason. -/
def Rejection.toJson : Rejection → Value
  | .undefinedTransition state symbol =>
    .object [("UndefinedTransition",
      .object [("state", .text state), ("symbol", .text symbol)])]
  | .nonFinalState state => .object [("NonFinalState", .object [("state", .text state)])]

/-- An outcome as an object with one member, which is named for the outcome. -/
def Acceptance.toJson : Acceptance → Value
  | .accepted path => .object [("Accepted", .object [("path", path.toJson)])]
  | .rejected reason => .object [("Rejected", .object [("reason", reason.toJson)])]

/-! ### Reading -/

namespace Json.Codec

variable (c : Codec)

/-- A set of texts. -/
def textSet : JsonReader (OrderedSet String) := do
  let members ← c.list c.text
  pure (OrderedSet.ofList members)

/-- The fields of a descriptor that have been read. -/
structure DescriptorFields where
  name : Option String := none
  states : Option (OrderedSet String) := none
  alphabet : Option (OrderedSet String) := none
  initial : Option String := none
  finals : Option (OrderedSet String) := none

/-- A descriptor. -/
def descriptor : JsonReader Descriptor :=
  c.record
    [Field.of "name" c.text DescriptorFields.name fun s a => { s with name := some a },
      Field.of "states" c.textSet DescriptorFields.states fun s a => { s with states := some a },
      Field.of "alphabet" c.textSet DescriptorFields.alphabet
        fun s a => { s with alphabet := some a },
      Field.of "initial_state" c.text DescriptorFields.initial
        fun s a => { s with initial := some a },
      Field.of "final_states" c.textSet DescriptorFields.finals
        fun s a => { s with finals := some a }]
    {}
    fun s => do
      let name ← s.name
      let states ← s.states
      let alphabet ← s.alphabet
      let initial ← s.initial
      let finals ← s.finals
      pure ⟨name, states, alphabet, initial, finals⟩

/-- The fields of a row that have been read. -/
structure TransitionFields where
  source : Option String := none
  symbol : Option String := none
  target : Option String := none

/-- A row of a table. -/
def transition : JsonReader Transition :=
  c.record
    [Field.of "from" c.text TransitionFields.source fun s a => { s with source := some a },
      Field.of "symbol" c.text TransitionFields.symbol fun s a => { s with symbol := some a },
      Field.of "to" c.text TransitionFields.target fun s a => { s with target := some a }]
    {}
    fun s => do
      let source ← s.source
      let symbol ← s.symbol
      let target ← s.target
      pure ⟨source, symbol, target⟩

/-- A table. -/
def table : JsonReader Table := do
  let rows ← c.list c.transition
  pure (Table.ofList rows)

/-- A strategy. -/
def matchStrategy : JsonReader MatchStrategy :=
  c.choice [
    .constant "longest_match" .longestMatch,
    .constant "declaration_order" .declarationOrder]

/-- Settings, of which a missing field has its default. -/
def config : JsonReader Config :=
  c.record
    [Field.of "match_strategy" c.matchStrategy id fun _ a => some a]
    none
    fun s => some ⟨s.getD default⟩

/-- The fields of an automaton that have been read. -/
structure AutomatonFields where
  descriptor : Option Descriptor := none
  table : Option Table := none
  config : Option Config := none

/-- An automaton, whose settings are the default ones if they are missing. -/
def automaton : JsonReader Automaton :=
  c.record
    [Field.of "descriptor" c.descriptor AutomatonFields.descriptor
        fun s a => { s with descriptor := some a },
      Field.of "table" c.table AutomatonFields.table fun s a => { s with table := some a },
      Field.of "config" c.config AutomatonFields.config fun s a => { s with config := some a }]
    {}
    fun s => do
      let descriptor ← s.descriptor
      let table ← s.table
      pure ⟨descriptor, table, s.config.getD default⟩

/-- A path, which need not be complete. -/
def path : JsonReader Path := do
  let items ← c.list c.text
  pure ⟨items⟩

/-- The content of `undefinedTransition`. -/
def undefinedTransition : JsonReader Rejection :=
  c.record
    [Field.of "state" c.text Prod.fst fun (s : Option String × Option String) a => (some a, s.2),
      Field.of "symbol" c.text Prod.snd fun s a => (s.1, some a)]
    (none, none)
    fun s => do
      let state ← s.1
      let symbol ← s.2
      pure (.undefinedTransition state symbol)

/-- The content of `nonFinalState`. -/
def nonFinalState : JsonReader Rejection :=
  c.record [Field.of "state" c.text id fun _ a => some a] none
    fun s => s.map Rejection.nonFinalState

/-- A rejection. -/
def rejection : JsonReader Rejection :=
  c.choice [
    .holding "UndefinedTransition" c.undefinedTransition,
    .holding "NonFinalState" c.nonFinalState]

/-- The outcome of a run. -/
def acceptance : JsonReader Acceptance :=
  c.choice [
    .holding "Accepted"
      (c.record [Field.of "path" c.path id fun _ a => some a] none
        fun s => s.map Acceptance.accepted),
    .holding "Rejected"
      (c.record [Field.of "reason" c.rejection id fun _ a => some a] none
        fun s => s.map Acceptance.rejected)]

end Json.Codec

end Acceptor
