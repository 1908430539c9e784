/-!
# Identifiers of 128 bits

A `Uuid` is a list of sixteen bytes.
-/

namespace Acceptor

/-- Sixteen bytes. -/
structure Uuid where
  bytes : List UInt8
  length_eq : bytes.length = 16
  deriving DecidableEq

namespace Uuid

/-- The identifier with the given bytes, if there are sixteen. -/
def ofBytes? (bytes : List UInt8) : Option Uuid :=
  if h : bytes.length = 16 then some ⟨bytes, h⟩ else none

theorem ofBytes?_bytes (u : Uuid) :
  ofBytes? u.bytes = some u
  := by
  rw [ofBytes?, dif_pos u.length_eq]

end Uuid

end Acceptor
