import Acceptor.Json.Fault
import Acceptor.Json.Value

/-!
# JSON codecs

A `Codec` writes values as JSON, and it has a reader for each shape that a value may be asked to
have: a text, a number, a list, a record of named fields, and a choice among variants.  Which
shapes the types of this library have is said of any codec; what the characters are is left to
the codec.
-/

namespace Acceptor.Json

variable {α σ : Type}

/-- A field of a record, of which the fields read so far are held in `σ`. -/
structure Field (σ : Type) where
  /-- The name of the field. -/
  key : String
  /-- Whether the field has been read. -/
  isRead : σ → Bool
  /-- Reads the value of the field. -/
  read : σ → JsonReader σ

/-- The field `key`, whose value is found by `get` and stored by `set`. -/
def Field.of (key : String) (value : JsonReader α) (get : σ → Option α)
    (set : σ → α → σ) : Field σ where
  key := key
  isRead s := (get s).isSome
  read s := do
    let a ← value
    pure (set s a)

/-- One of several ways in which a value is written. -/
inductive Variant (α : Type) where
  /-- The variant `key` without content, which stands for `a`. -/
  | constant (key : String) (a : α)
  /-- The variant `key`, whose content is read by `content`. -/
  | holding (key : String) (content : JsonReader α)

/-- The name of a variant. -/
def Variant.key : Variant α → String
  | .constant key _ => key
  | .holding key _ => key

/-- A way to write values as JSON and to read them. -/
structure Codec where
  /-- Writes a value inside `depth` brackets. -/
  write : (layout : Layout) → (depth : Nat) → Value → List Char
  /-- A text. -/
  text : JsonReader String
  /-- A natural number below 2 ^ 32. -/
  number : JsonReader UInt32
  /-- A list, the elements of which are read by `element`. -/
  list : {α : Type} → (element : JsonReader α) → JsonReader (List α)
  /-- A record.  `start` holds no field, and `finish` makes the record of the fields read unless
  one that is needed is missing. -/
  record : {α σ : Type} → (fields : List (Field σ)) → (start : σ) →
    (finish : σ → Option α) → JsonReader α
  /-- A choice among variants. -/
  choice : {α : Type} → (variants : List (Variant α)) → JsonReader α
  /-- What may stand after a value, up to the end of the text. -/
  finish : JsonReader Unit

namespace Codec

variable (c : Codec)

/-- The text of a value. -/
def render (layout : Layout) (v : Value) : String :=
  String.ofList (c.write layout 0 v)

/-- Reads a text that holds a value and nothing else. -/
def decode (value : JsonReader α) (s : String) : Except Fault α :=
  let whole : JsonReader α := do
    let a ← value
    c.finish
    pure a
  (whole.run s.toList).map Prod.fst

/-- A text of which `f` makes a value. -/
def parsedText (f : String → Option α) : JsonReader α := do
  let s ← c.text
  match f s with
  | some a => pure a
  | none => Reader.fail .mismatch

end Codec

end Acceptor.Json
