import Acceptor.Automaton
import Acceptor.Binary.Codec

/-!
# Automata in bytes

The values as which the parts of an automaton are written in bytes, each a record of its fields
in the order of their declaration, and the readers of these values.  For each type `T` there are
`T.toBinary` and `Binary.Codec.t`.
-/

namespace Acceptor

/-! ### Writing -/

/-- A set as the list of its members. -/
def OrderedSet.toBinary (s : OrderedSet String) : Binary.Value :=
  .list (s.toList.map .text)

/-- The fields of a descriptor. -/
def Descriptor.toBinary (d : Descriptor) : Binary.Value :=
  .record [.text d.name, d.states.toBinary, d.alphabet.toBinary, .text d.initial,
    d.finals.toBinary]

/-- The fields of a row. -/
def Transition.toBinary (t : Transition) : Binary.Value :=
  .record [.text t.source, .text t.symbol, .text t.target]

/-- A table as the list of its rows. -/
def Table.toBinary (t : Table) : Binary.Value :=
  .list (t.entries.map Transition.toBinary)

/-- A strategy as the number of a variant. -/
def MatchStrategy.toBinary : MatchStrategy → Binary.Value
  | .longestMatch => .variant 0
  | .declarationOrder => .variant 1

/-- The only field of settings. -/
def Config.toBinary (c : Config) : Binary.Value :=
  .record [c.strategy.toBinary]

/-- The fields of an automaton. -/
def Automaton.toBinary (a : Automaton) : Binary.Value :=
  .record [a.descriptor.toBinary, a.table.toBinary, a.config.toBinary]

/-! ### Reading -/

namespace Binary.Codec

variable (c : Codec)

/-- A set of texts, of which repetitions are dropped. -/
def textSet : ByteReader (OrderedSet String) := do
  let members ← c.list c.text
  pure (OrderedSet.ofList members)

/-- A descriptor. -/
def descriptor : ByteReader Descriptor := do
  let name ← c.text
  let states ← c.textSet
  let alphabet ← c.textSet
  let initial ← c.text
  let finals ← c.textSet
  pure ⟨name, states, alphabet, initial, finals⟩

/-- A row of a table. -/
def transition : ByteReader Transition := do
  let source ← c.text
  let symbol ← c.text
  let target ← c.text
  pure ⟨source, symbol, target⟩

/-- A table, in which a row replaces an earlier one from the same pair. -/
def table : ByteReader Table := do
  let rows ← c.list c.transition
  pure (Table.ofList rows)

/-- A strategy. -/
def matchStrategy : ByteReader MatchStrategy :=
  c.variant [.longestMatch, .declarationOrder]

/-- Settings. -/
def config : ByteReader Config := do
  let strategy ← c.matchStrategy
  pure ⟨strategy⟩

/-- An automaton. -/
def automaton : ByteReader Automaton := do
  let d ← c.descriptor
  let t ← c.table
  let settings ← c.config
  pure ⟨d, t, settings⟩

end Binary.Codec

end Acceptor
