import Acceptor.Binary.Codec

/-!
# The standard binary codec

Numbers are written in a fixed number of bytes, the least significant first.  A text is
written as the number of its bytes and its UTF-8 bytes, a list as the number of its
elements and the elements; both numbers take eight bytes.  For each kind of value there is
a reader that takes exactly what is written.
-/

namespace Acceptor.Binary

variable {α : Type}

/-! ### Numbers -/

/-- The last `width` bytes of `n`, the least significant first. -/
def littleEndian : Nat → Nat → List UInt8
  | 0, _ => []
  | width + 1, n => UInt8.ofNat n :: littleEndian width (n / 256)

/-- The number with the given bytes, the least significant first. -/
def ofLittleEndian : List UInt8 → Nat
  | [] => 0
  | b :: bs => b.toNat + 256 * ofLittleEndian bs

theorem length_littleEndian (width n : Nat) :
  (littleEndian width n).length = width
  := by
  induction width generalizing n with
  | zero => rfl
  | succ width ih => rw [littleEndian, List.length_cons, ih]

/-- A number of `width` bytes. -/
def fixedWidth (width : Nat) : ByteReader Nat := do
  let bytes ← Reader.take width .exhausted
  pure (ofLittleEndian bytes)

/-! ### Bytes and texts -/

/-- Writes bytes after their number. -/
def countedBytes (bytes : List UInt8) : List UInt8 :=
  littleEndian 8 bytes.length ++ bytes

/-- Bytes after their number. -/
def bytes : ByteReader (List UInt8) := do
  let count ← fixedWidth 8
  Reader.take count .exhausted

/-- The UTF-8 bytes of a text. -/
def utf8 (s : String) : List UInt8 :=
  s.toUTF8.data.toList

/-- The text with the given UTF-8 bytes, if they are UTF-8. -/
def ofUtf8? (bytes : List UInt8) : Option String :=
  String.fromUTF8? ⟨bytes.toArray⟩

theorem ofUtf8?_utf8 (s : String) :
  ofUtf8? (utf8 s) = some s
  := by
  simp only [ofUtf8?, utf8, Array.toArray_toList, String.fromUTF8?]
  exact dif_pos s.isValidUTF8

/-- A text. -/
def text : ByteReader String := do
  let bs ← bytes
  match ofUtf8? bs with
  | some s => pure s
  | none => Reader.fail .notUtf8

/-! ### Lists -/

/-- A list. -/
def list (element : ByteReader α) : ByteReader (List α) := do
  let count ← fixedWidth 8
  element.replicate count

/-! ### Values -/

mutual

/-- Writes a value. -/
def Value.write : Value → List UInt8
  | .number n => littleEndian 4 n.toNat
  | .bytes bs => countedBytes bs
  | .text s => countedBytes (utf8 s)
  | .list elements => littleEndian 8 elements.length ++ Value.writeAll elements
  | .record fields => Value.writeAll fields
  | .variant index => littleEndian 4 index.toNat

/-- Writes values one after the other. -/
def Value.writeAll : List Value → List UInt8
  | [] => []
  | v :: vs => v.write ++ Value.writeAll vs

end

theorem Value.writeAll_eq_flatMap (vs : List Value) :
  Value.writeAll vs = vs.flatMap Value.write
  := by
  induction vs with
  | nil => rw [Value.writeAll, List.flatMap_nil]
  | cons v vs ih => rw [Value.writeAll, ih, List.flatMap_cons]

/-- A number below 2 ^ 32, in four bytes. -/
def number : ByteReader UInt32 := do
  let n ← fixedWidth 4
  pure (UInt32.ofNat n)

/-- One of several variants, of which the number is written. -/
def variant (variants : List α) : ByteReader α := do
  let index ← number
  match variants[index.toNat]? with
  | some a => pure a
  | none => Reader.fail .unfit

/-- The codec with which this library runs.  It does not look at what stands after a value. -/
def standard : Codec where
  write := Value.write
  number := number
  bytes := bytes
  text := text
  list := list
  variant := variant
  finish := pure ()

theorem standard_write (v : Value) :
  standard.write v = v.write
  := rfl

end Acceptor.Binary
