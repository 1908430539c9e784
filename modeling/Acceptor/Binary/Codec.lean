import Acceptor.Reader

/-!
# Binary codecs

A `Codec` writes values as bytes, and it has a reader for each kind of value.  A record is the
values of its fields, so that its fields are read one after the other.  Which values the parts of
an automaton are is said of any codec; what the bytes are is left to the codec.
-/

namespace Acceptor

namespace Binary

/-- What can be wrong with bytes. -/
inductive Fault where
  /-- There are fewer bytes than are wanted. -/
  | exhausted
  /-- The bytes of a text are not UTF-8. -/
  | notUtf8
  /-- The bytes stand for no value of the wanted type. -/
  | unfit
  deriving DecidableEq, Repr

end Binary

/-- Readers of bytes. -/
abbrev ByteReader (α : Type) :=
  Reader UInt8 Binary.Fault α

namespace Binary

variable {α : Type}

/-- A value, as far as this library writes them as bytes. -/
inductive Value where
  | number (n : UInt32)
  | bytes (bs : List UInt8)
  | text (s : String)
  | list (elements : List Value)
  | record (fields : List Value)
  /-- The variant with a number, which is counted from zero. -/
  | variant (index : UInt32)

/-- A way to write values as bytes and to read them. -/
structure Codec where
  /-- Writes a value. -/
  write : Value → List UInt8
  /-- A number below 2 ^ 32. -/
  number : ByteReader UInt32
  /-- Any number of bytes. -/
  bytes : ByteReader (List UInt8)
  /-- A text. -/
  text : ByteReader String
  /-- A list, the elements of which are read by `element`. -/
  list : {α : Type} → (element : ByteReader α) → ByteReader (List α)
  /-- One of several variants, in the order of their numbers. -/
  variant : {α : Type} → (variants : List α) → ByteReader α
  /-- What may stand after a value. -/
  finish : ByteReader Unit

namespace Codec

variable (c : Codec)

/-- Reads bytes that hold a value. -/
def decode (value : ByteReader α) (bs : List UInt8) : Except Fault α :=
  let whole : ByteReader α := do
    let a ← value
    c.finish
    pure a
  (whole.run bs).map Prod.fst

/-- A text of which `f` makes a value. -/
def parsedText (f : String → Option α) : ByteReader α := do
  let s ← c.text
  match f s with
  | some a => pure a
  | none => Reader.fail .unfit

end Codec

end Binary

end Acceptor
