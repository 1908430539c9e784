/-!
# Events

What happens while a description is read, an automaton is made and a word is run is told
by a list of events.  An event has a level, a message and fields, all of which are texts.
-/

namespace Acceptor

/-- How much an event matters. -/
inductive Level where
  | debug
  | trace
  deriving DecidableEq, Repr

/-- The name of a level. -/
def Level.name : Level → String
  | .debug => "DEBUG"
  | .trace => "TRACE"

/-- What is observed of an event. -/
structure Record where
  level : Level
  message : String
  fields : List (String × String)
  deriving DecidableEq, Repr

/-- What can happen. -/
inductive Event where
  /-- A descriptor line was read, with so many states and symbols. -/
  | descriptorParsed (name : String) (states symbols : Nat)
  /-- The row with number `entry` replaced one that led to `previous`. -/
  | transitionOverwritten (entry : Nat) (previous : String)
  /-- A table body of so many rows was read, which left so many transitions. -/
  | tableParsed (entries transitions : Nat)
  /-- An automaton was made. -/
  | automatonConstructed (name : String) (states symbols transitions : Nat) (strategy : String)
  /-- A run followed a transition. -/
  | step (source symbol target : String)
  /-- A run on `word` found no transition. -/
  | undefinedTransition (word state symbol : String)
  /-- A run on `word` ended in a state that is not final. -/
  | endedOnNonFinal (word state : String)
  /-- The automaton with this name was taken out of the snapshot `id`. -/
  | snapshotRestored (id name : String)
  deriving DecidableEq, Repr

namespace Event

/-- The level of an event. -/
def level : Event → Level
  | .step .. => .trace
  | _ => .debug

/-- The message of an event. -/
def message : Event → String
  | .descriptorParsed .. => "descriptor parsed"
  | .transitionOverwritten .. => "transition overwritten"
  | .tableParsed .. => "transition table parsed"
  | .automatonConstructed .. => "automaton constructed"
  | .step .. => "step"
  | .undefinedTransition .. => "undefined transition"
  | .endedOnNonFinal .. => "ended on non-final state"
  | .snapshotRestored .. => "snapshot restored"

/-- The fields of an event, each with its name. -/
def fields : Event → List (String × String)
  | .descriptorParsed name states symbols =>
    [("name", name), ("states", toString states), ("symbols", toString symbols)]
  | .transitionOverwritten entry previous =>
    [("entry", toString entry), ("previous", previous)]
  | .tableParsed entries transitions =>
    [("entries", toString entries), ("transitions", toString transitions)]
  | .automatonConstructed name states symbols transitions strategy =>
    [("name", name), ("states", toString states), ("symbols", toString symbols),
      ("transitions", toString transitions), ("strategy", strategy)]
  | .step source symbol target => [("from", source), ("symbol", symbol), ("to", target)]
  | .undefinedTransition word state symbol =>
    [("word", word), ("state", state), ("symbol", symbol)]
  | .endedOnNonFinal word state => [("word", word), ("state", state)]
  | .snapshotRestored id name => [("id", id), ("name", name)]

/-- The level, the message and the fields of an event. -/
def record (event : Event) : Record :=
  ⟨event.level, event.message, event.fields⟩

end Event

end Acceptor
