import Acceptor.Binary.Standard
import Acceptor.Proofs.Binary.Codec

/-!
# The standard binary codec is lawful

Bytes that break off are always exhausted, since nothing is made of them before all of them are
there.
-/

namespace Acceptor.Binary

variable {α : Type}

theorem ofLittleEndian_littleEndian {width n : Nat} (h : n < 256 ^ width) :
  ofLittleEndian (littleEndian width n) = n
  := by
  induction width generalizing n with
  | zero =>
    obtain rfl : n = 0 := by simpa using h
    rfl
  | succ width ih =>
    have hhigh : n / 256 < 256 ^ width := by
      rw [Nat.div_lt_iff_lt_mul (by decide), ← Nat.pow_succ]
      exact h
    rw [littleEndian, ofLittleEndian, ih hhigh, UInt8.toNat_ofNat']
    omega

theorem delimits_fixedWidth {width n : Nat} (h : n < 256 ^ width) :
  (fixedWidth width).Delimits .exhausted (littleEndian width n) n
  := by
  have htake := Reader.Delimits.take Fault.exhausted (littleEndian width n)
  rw [length_littleEndian] at htake
  apply htake.bind_pure
  rw [ofLittleEndian_littleEndian h]

theorem delimits_number (n : UInt32) :
  number.Delimits .exhausted (littleEndian 4 n.toNat) n
  := by
  apply (delimits_fixedWidth n.toNat_lt).bind_pure
  rw [UInt32.ofNat_toNat]

theorem delimits_bytes {bs : List UInt8} (h : bs.length < 2 ^ 64) :
  bytes.Delimits .exhausted (countedBytes bs) bs
  := by
  apply (delimits_fixedWidth h).bind
  apply Reader.Delimits.take

theorem delimits_text {s : String} (h : s.utf8ByteSize < 2 ^ 64) :
  text.Delimits .exhausted (countedBytes (utf8 s)) s
  := by
  have hbytes : bytes.Delimits .exhausted (countedBytes (utf8 s)) (utf8 s) := delimits_bytes h
  apply hbytes.bind_pure
  rw [ofUtf8?_utf8]

theorem delimits_list
    {element : ByteReader α} {write : α → Value} {l : List α} (hlength : l.length < 2 ^ 64)
    (h : ∀ a ∈ l, element.Delimits .exhausted (write a).write a) :
  (list element).Delimits .exhausted (Value.list (l.map write)).write l
  := by
  rw [Value.write, List.length_map, Value.writeAll_eq_flatMap, List.flatMap_map]
  apply (delimits_fixedWidth hlength).bind
  apply Reader.Delimits.replicate h

theorem delimits_variant {variants : List α} {index : UInt32} {a : α}
    (h : variants[index.toNat]? = some a) :
  (variant variants).Delimits .exhausted (littleEndian 4 index.toNat) a
  := by
  apply (delimits_number index).bind_pure
  rw [h]

/-- The standard codec reads back what it writes. -/
theorem standard_lawful : standard.Lawful
  where
  reads_number n := by
    rw [Codec.Reads, standard_write, Value.write]
    apply delimits_number
  reads_bytes bs h := by
    rw [Codec.Reads, standard_write, Value.write]
    apply delimits_bytes h
  reads_text s h := by
    rw [Codec.Reads, standard_write, Value.write]
    apply delimits_text h
  reads_list hlength h := delimits_list hlength h
  write_record fields := by
    rw [standard_write, Value.write, Value.writeAll_eq_flatMap]
    rfl
  reads_variant h := by
    rw [Codec.Reads, standard_write, Value.write]
    apply delimits_variant h
  run_finish bs := rfl

end Acceptor.Binary
