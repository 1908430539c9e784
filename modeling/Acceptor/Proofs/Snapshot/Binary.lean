import Acceptor.Proofs.Binary.Automaton
import Acceptor.Proofs.Binary.Standard
import Acceptor.Proofs.Instant
import Acceptor.Snapshot.Standard

/-!
# Snapshots that are read back from bytes

If the codec is lawful, and the instants of years with four digits are read back from their texts,
then the bytes of a snapshot are delimited: they are read back whatever bytes follow, and nothing is
read if one of them is missing, neither the snapshot nor its version.  Hence the bytes of one
snapshot do not begin the bytes of another (`ofBytes_toBytes_append`).
-/

namespace Acceptor

namespace Snapshot.Forms

open Binary.Codec (ReadsAll readsAll_nil)

/-- All that is counted in a snapshot can be counted in eight bytes. -/
def Countable (forms : Forms) (s : Snapshot) : Prop :=
  (forms.instants.render s.createdAt).utf8ByteSize < 2 ^ 64 ∧ s.automaton.Countable

variable {forms : Forms} {s : Snapshot}

theorem reads_uuid (hbinary : forms.binary.Lawful) (id : Uuid) :
  forms.binary.Reads forms.binary.uuid (.bytes id.bytes) id
  := by
  have hlength : id.bytes.length < 2 ^ 64 := by
    rw [id.length_eq]
    decide
  apply (hbinary.reads_bytes id.bytes hlength).bind_pure
  rw [Uuid.ofBytes?_bytes]

/-- A snapshot is read back, whatever its version. -/
theorem reads_binaryValue (hbinary : forms.binary.Lawful)
    (hcreatedAt :
      forms.instants.ofText? (forms.instants.render s.createdAt) = some s.createdAt)
    (h : forms.Countable s) :
  forms.binary.Reads forms.binaryReader (forms.binaryValue s) s
  := by
  apply hbinary.reads_record
  apply ReadsAll.cons (hbinary.reads_number s.version)
  apply ReadsAll.cons (reads_uuid hbinary s.id)
  apply ReadsAll.cons (hbinary.reads_parsedText h.1 hcreatedAt)
  apply ReadsAll.cons (h.2.reads_toBinary hbinary)
  apply readsAll_nil

end Snapshot.Forms

/-- A snapshot of a year with four digits is read back from its bytes, with all orders and the
settings, whatever bytes follow, unless its version is another one than is read.  If some of its
bytes are missing at the end, the bytes are exhausted, whatever the version.  The bytes of one
snapshot are not the beginning of the bytes of another one, and so not its bytes either. -/
theorem ofBytes_toBytes_append {forms : Snapshot.Forms} (hbinary : forms.binary.Lawful)
    (hinstants : forms.instants.ReadsBack Instant.HasFourDigitYear) {s : Snapshot}
    (hyear : s.createdAt.HasFourDigitYear) (h : forms.Countable s) :
  (∀ rest, forms.ofBytes (forms.toBytes s ++ rest)
      = if s.version = Snapshot.currentVersion then .ok s
        else .error (.unsupportedVersion s.version Snapshot.currentVersion))
    ∧ (∀ front, front <+: forms.toBytes s → front ≠ forms.toBytes s →
      forms.ofBytes front = .error (.binary .exhausted))
    ∧ ∀ other : Snapshot, other.createdAt.HasFourDigitYear → forms.Countable other →
      forms.toBytes s <+: forms.toBytes other → s = other
  := by
  have hreads := Snapshot.Forms.reads_binaryValue hbinary (hinstants _ hyear) h
  and_intros
  · intro rest
    rw [Snapshot.Forms.ofBytes, Snapshot.Forms.toBytes, hreads.decode_write_append hbinary]
    rfl
  · intro front hstart hne
    rw [Snapshot.Forms.ofBytes, hreads.decode_of_prefix hstart hne]
    rfl
  · intro other hotherYear hother hstart
    have hother' := Snapshot.Forms.reads_binaryValue hbinary (hinstants _ hotherYear) hother
    apply Reader.Delimits.eq_of_prefix hreads hother' hstart

/-- Names of several bytes, empty ones and ones that are not declared, in the standard forms at a
leap second.  The last byte that is missing is one of the strategy. -/
theorem ofBytes_toBytes_append_undeclared :
  let forms := Snapshot.Forms.standard
  let a : Automaton :=
    ⟨Descriptor.ofLists "é" ["q0", ""] ["ab", "a"] "q7" ["😀"],
      Table.ofList [⟨"q0", "a", "q9"⟩, ⟨"", "é", "q0"⟩], .declarationOrder⟩
  let s : Snapshot :=
    ⟨1, ⟨List.replicate 16 0xAB, rfl⟩,
      ⟨⟨2016, 12, 31, by decide⟩, ⟨23, 59, 60, 500, by decide⟩⟩, a⟩
  let t : Snapshot := { s with version := 2 }
  s.createdAt.HasFourDigitYear
    ∧ forms.Countable s
    ∧ forms.ofBytes (forms.toBytes s ++ [0, 255]) = .ok s
    ∧ forms.ofBytes (forms.toBytes t ++ [0, 255]) = .error (.unsupportedVersion 2 1)
    ∧ forms.ofBytes (forms.toBytes t).dropLast = .error (.binary .exhausted)
    ∧ ¬ forms.toBytes s <+: forms.toBytes t
  := by
  intro forms a s t
  have hbinary : forms.binary.Lawful := Binary.standard_lawful
  have hinstants := Instant.rfc3339_readsBack Instant.HasFourDigitYear
  have hyear : s.createdAt.HasFourDigitYear := by decide
  have hcountable : forms.Countable s := by
    have hsize := s.createdAt.utf8ByteSize_render_le
    have hautomaton : a.Countable := by decide
    exact ⟨Nat.lt_of_le_of_lt hsize (by decide), hautomaton⟩
  obtain ⟨hread, -, hunique⟩ := ofBytes_toBytes_append hbinary hinstants (s := s) hyear hcountable
  obtain ⟨hread', hcut, -⟩ := ofBytes_toBytes_append hbinary hinstants (s := t) hyear hcountable
  use hyear, hcountable, hread [0, 255], hread' [0, 255]
  constructor
  · apply hcut _ (List.dropLast_prefix _)
    have hne : forms.toBytes t ≠ [] := List.cons_ne_nil _ _
    intro heq
    have hlength := congrArg List.length heq
    rw [List.length_dropLast] at hlength
    have hpos := List.length_pos_iff.mpr hne
    omega
  · intro hstart
    have heq := hunique t hyear hcountable hstart
    cases congrArg Snapshot.version heq

end Acceptor
