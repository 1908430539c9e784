import Acceptor.Json.Automaton
import Acceptor.Snapshot.Basic

/-!
# Snapshots in JSON

A snapshot is written as an indented JSON object with the members `version`, `id`,
`created_at` and `automaton`.
-/

namespace Acceptor.Snapshot

/-- The fields of a snapshot that have been read. -/
structure JsonFields where
  version : Option UInt32 := none
  id : Option Uuid := none
  createdAt : Option Instant := none
  automaton : Option Automaton := none

namespace Forms

variable (forms : Forms)

/-- A snapshot as an object. -/
def jsonValue (s : Snapshot) : Json.Value :=
  .object [
    ("version", .number s.version),
    ("id", .text (forms.ids.render s.id)),
    ("created_at", .text (forms.instants.render s.createdAt)),
    ("automaton", s.automaton.toJson)]

/-- A snapshot of any version. -/
def jsonReader : JsonReader Snapshot :=
  forms.json.record
    [Json.Field.of "version" forms.json.number JsonFields.version
        fun s a => { s with version := some a },
      Json.Field.of "id" (forms.json.parsedText forms.ids.ofText?) JsonFields.id
        fun s a => { s with id := some a },
      Json.Field.of "created_at" (forms.json.parsedText forms.instants.ofText?) JsonFields.createdAt
        fun s a => { s with createdAt := some a },
      Json.Field.of "automaton" forms.json.automaton JsonFields.automaton
        fun s a => { s with automaton := some a }]
    {}
    fun s => do
      let version ← s.version
      let id ← s.id
      let createdAt ← s.createdAt
      let automaton ← s.automaton
      pure ⟨version, id, createdAt, automaton⟩

/-- Writes a snapshot as JSON. -/
def toJson (s : Snapshot) : String :=
  forms.json.render .indented (forms.jsonValue s)

/-- Reads a snapshot from JSON. -/
def ofJson (text : String) : Except SnapshotError Snapshot := do
  let s ← (forms.json.decode forms.jsonReader text).mapError .json
  s.checked

end Forms

end Acceptor.Snapshot
