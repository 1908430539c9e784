import Acceptor.Json.Shape
import Acceptor.Json.Written

/-!
# The standard JSON codec

The codec that writes values as `Value.write` does, and reads them by the readers for their
shapes.
-/

namespace Acceptor.Json

/-- A natural number below 2 ^ 32. -/
def number : JsonReader UInt32 := do
  let n ← naturalBelow UInt32.size
  pure (UInt32.ofNat n)

/-- The codec with which this library runs. -/
def standard : Codec where
  write layout depth v := v.write layout depth
  text := text
  number := number
  list := list
  record := record
  choice := choice
  finish := onlySpaces

theorem standard_write (layout : Layout) (depth : Nat) (v : Value) :
  standard.write layout depth v = v.write layout depth
  := rfl

end Acceptor.Json
