import Acceptor.Binary.Codec
import Acceptor.Proofs.Reader
import Mathlib.Algebra.Group.Nat.Defs

/-!
# Binary values that are read back

`c.Reads r v a` says that the reader `r` reads the value `v` as `a` where the codec `c` has written
it: the bytes are delimited (`Reader.Delimits`), and exhausted wherever they break off.  A codec is
lawful (`Codec.Lawful`) if it reads so what it writes of each kind, as long as all that is counted
is fewer than 2 ^ 64, and a record is its fields one after the other.
-/

namespace Acceptor.Binary.Codec

variable {α β : Type}

/-- `r` reads `v` as `a` and sees where its bytes end. -/
def Reads (c : Codec) (r : ByteReader α) (v : Value) (a : α) : Prop :=
  r.Delimits .exhausted (c.write v) a

/-- `r` reads the values `vs`, one after the other, as `a` and sees where their bytes end. -/
def ReadsAll (c : Codec) (r : ByteReader α) (vs : List Value) (a : α) : Prop :=
  r.Delimits .exhausted (vs.flatMap c.write) a

section Values

variable {c : Codec} {r : ByteReader α} {v : Value} {vs : List Value} {a : α} {b : β}

/-- What is made of a value afterwards. -/
theorem Reads.bind_pure {k : α → ByteReader β} (h : c.Reads r v a) (hk : k a = pure b) :
  c.Reads (r >>= k) v b
  := Reader.Delimits.bind_pure h hk

theorem readsAll_nil (c : Codec) (a : α) :
  c.ReadsAll (pure a) [] a
  := Reader.Delimits.pure a

theorem ReadsAll.cons {k : α → ByteReader β} (h : c.Reads r v a) (hs : c.ReadsAll (k a) vs b) :
  c.ReadsAll (r >>= k) (v :: vs) b
  := by
  rw [ReadsAll, List.flatMap_cons]
  apply Reader.Delimits.bind h hs

end Values

/-! ### Lawful codecs -/

/-- What the codec writes is read back, kind by kind. -/
structure Lawful (c : Codec) : Prop where
  reads_number : ∀ n, c.Reads c.number (.number n) n
  /-- Bytes are read back if their number fits in eight bytes. -/
  reads_bytes : ∀ bs : List UInt8, bs.length < 2 ^ 64 → c.Reads c.bytes (.bytes bs) bs
  /-- A text is read back if the number of its bytes fits in eight bytes. -/
  reads_text : ∀ s : String, s.utf8ByteSize < 2 ^ 64 → c.Reads c.text (.text s) s
  /-- A list of values that are read back is read back, in its order, if its length fits in eight
  bytes. -/
  reads_list :
    ∀ {α : Type} {element : ByteReader α} {write : α → Value} {l : List α},
      l.length < 2 ^ 64 → (∀ a ∈ l, c.Reads element (write a) a) →
        c.Reads (c.list element) (.list (l.map write)) l
  /-- Nothing stands between the fields of a record. -/
  write_record : ∀ fields, c.write (.record fields) = fields.flatMap c.write
  /-- The number of a variant is read as the variant. -/
  reads_variant :
    ∀ {α : Type} {variants : List α} {index : UInt32} {a : α},
      variants[index.toNat]? = some a → c.Reads (c.variant variants) (.variant index) a
  /-- Any bytes may stand after a value. -/
  run_finish : ∀ bs, c.finish.run bs = .ok ((), bs)

namespace Lawful

variable {c : Codec} {r : ByteReader α} {a : α} (hc : c.Lawful)

include hc

/-- The text of a value is read back. -/
theorem reads_parsedText {f : String → Option α} {s : String} (h : s.utf8ByteSize < 2 ^ 64)
    (hs : f s = some a) :
  c.Reads (c.parsedText f) (.text s) a
  := by
  apply (hc.reads_text s h).bind_pure
  rw [hs]

/-- A record is read back field by field. -/
theorem reads_record {fields : List Value} (h : c.ReadsAll r fields a) :
  c.Reads r (.record fields) a
  := by
  rw [Reads, hc.write_record]
  exact h

end Lawful

/-! ### Whole values -/

section Bytes

variable {c : Codec} {r : ByteReader α} {v : Value} {a : α}

/-- A value is read back, whatever bytes follow. -/
theorem Reads.decode_write_append (h : c.Reads r v a) (hc : c.Lawful) (rest : List UInt8) :
  c.decode r (c.write v ++ rest) = .ok a
  := by
  rw [decode, Reader.run_bind_of_ok (h.run_append rest), Reader.run_bind_of_ok (hc.run_finish rest)]
  rfl

/-- Bytes that break off before the value ends are exhausted. -/
theorem Reads.decode_of_prefix {front : List UInt8} (h : c.Reads r v a)
    (hstart : front <+: c.write v) (hne : front ≠ c.write v) :
  c.decode r front = .error .exhausted
  := by
  rw [decode, Reader.run_bind_of_error (h.run_of_prefix hstart hne)]
  rfl

end Bytes

end Acceptor.Binary.Codec
