import Acceptor.Binary.Standard
import Acceptor.Instant.Rfc3339
import Acceptor.Json.Standard
import Acceptor.Snapshot.Binary
import Acceptor.Snapshot.Json
import Acceptor.Uuid.Hyphenated

/-!
# The standard forms
-/

namespace Acceptor.Snapshot.Forms

/-- The forms with which this library runs. -/
def standard : Forms where
  json := Json.standard
  binary := Binary.standard
  ids := Uuid.hyphenated
  instants := Instant.rfc3339

end Acceptor.Snapshot.Forms
