import Acceptor.Automaton
import Acceptor.Binary.Codec
import Acceptor.Event
import Acceptor.Instant.Basic
import Acceptor.Json.Codec
import Acceptor.Text.Form
import Acceptor.Uuid.Basic

/-!
# Snapshots

A `Snapshot` is an automaton with an identifier, the instant at which it was captured and
the version of the format in which it is stored.  This library reads one version, and
checks it after all else has been read.  `Snapshot.Forms` holds all that a format takes from
elsewhere: the codecs, and the texts of identifiers and instants.
-/

namespace Acceptor

/-- An automaton as it was at some instant. -/
structure Snapshot where
  version : UInt32
  id : Uuid
  createdAt : Instant
  automaton : Automaton
  deriving DecidableEq

/-- The reasons for which a snapshot is not read. -/
inductive SnapshotError where
  | json (fault : Json.Fault)
  | binary (fault : Binary.Fault)
  | unsupportedVersion (found supported : UInt32)
  deriving DecidableEq, Repr

/-- The wording of an error, without what would be said of a fault in the text or bytes. -/
def SnapshotError.message : SnapshotError → String
  | .json _ => "JSON snapshot error: "
  | .binary _ => "binary snapshot error: "
  | .unsupportedVersion found supported =>
    "snapshot format version " ++ toString found.toNat
      ++ " cannot be read; this build reads version " ++ toString supported.toNat

namespace Snapshot

/-- The version that is read and written. -/
def currentVersion : UInt32 := 1

/-- The snapshot of an automaton. -/
def capture (a : Automaton) (id : Uuid) (createdAt : Instant) : Snapshot where
  version := currentVersion
  id := id
  createdAt := createdAt
  automaton := a

/-- The snapshot, if its version is the one that is read. -/
def checked (s : Snapshot) : Except SnapshotError Snapshot :=
  if s.version = currentVersion then .ok s
  else .error (.unsupportedVersion s.version currentVersion)

/-- The automaton of a snapshot. -/
def restore (s : Snapshot) : Automaton :=
  s.automaton

/-- The events of taking the automaton out of a snapshot, the identifier of which is written in
the form `ids`. -/
def restoreLog (ids : TextForm Uuid) (s : Snapshot) : List Event :=
  [.snapshotRestored (ids.render s.id) s.automaton.descriptor.name]

/-- The forms of what a snapshot consists of. -/
structure Forms where
  /-- How values are written as JSON. -/
  json : Json.Codec
  /-- How values are written as bytes. -/
  binary : Binary.Codec
  /-- How identifiers are written as texts. -/
  ids : TextForm Uuid
  /-- How instants are written as texts. -/
  instants : TextForm Instant

end Snapshot

end Acceptor
