import Acceptor.Binary.Automaton
import Acceptor.Snapshot.Basic

/-!
# Snapshots in bytes

A snapshot is written as a record of its version, the bytes of its identifier, the text of its
instant and its automaton.
-/

namespace Acceptor

/-- An identifier, which is written as its bytes. -/
def Binary.Codec.uuid (c : Binary.Codec) : ByteReader Uuid := do
  let bs ← c.bytes
  match Uuid.ofBytes? bs with
  | some id => pure id
  | none => Reader.fail .unfit

namespace Snapshot.Forms

variable (forms : Forms)

/-- A snapshot as a record. -/
def binaryValue (s : Snapshot) : Binary.Value :=
  .record [.number s.version, .bytes s.id.bytes, .text (forms.instants.render s.createdAt),
    s.automaton.toBinary]

/-- A snapshot of any version. -/
def binaryReader : ByteReader Snapshot := do
  let version ← forms.binary.number
  let id ← forms.binary.uuid
  let createdAt ← forms.binary.parsedText forms.instants.ofText?
  let a ← forms.binary.automaton
  pure ⟨version, id, createdAt, a⟩

/-- Writes a snapshot as bytes. -/
def toBytes (s : Snapshot) : List UInt8 :=
  forms.binary.write (forms.binaryValue s)

/-- Reads a snapshot from bytes. -/
def ofBytes (bytes : List UInt8) : Except SnapshotError Snapshot := do
  let s ← (forms.binary.decode forms.binaryReader bytes).mapError .binary
  s.checked

end Snapshot.Forms

end Acceptor
