import Acceptor.Proofs.Instant
import Acceptor.Proofs.Json.Automaton
import Acceptor.Proofs.Uuid
import Acceptor.Snapshot.Standard

/-!
# Snapshots that are read back from JSON

If the codec is lawful, and identifiers and the instants of years with four digits are read back
from their texts, then a snapshot is read back from its JSON text as it was (`ofJson_toJson`), and a
text that has been damaged at its end is refused for that, whatever its version
(`ofJson_of_damaged`).
-/

namespace Acceptor

namespace Snapshot.Forms

open Json.Codec (ReadsFields)

variable {forms : Forms} {s : Snapshot}

theorem within_jsonValue (forms : Forms) (s : Snapshot) (n : Nat) :
  (forms.jsonValue s).Within (n + 4)
  := .object (by simp [Automaton.within_toJson])

/-- A snapshot is read back, whatever its version. -/
theorem reads_jsonValue (hjson : forms.json.Lawful)
    (hid : forms.ids.ofText? (forms.ids.render s.id) = some s.id)
    (hcreatedAt :
      forms.instants.ofText? (forms.instants.render s.createdAt) = some s.createdAt) :
  forms.json.Reads forms.jsonReader (forms.jsonValue s) s
  := by
  apply hjson.reads_record (s := ⟨s.version, s.id, s.createdAt, s.automaton⟩)
  · apply ReadsFields.of rfl rfl (hjson.readsMember_number s.version)
    apply ReadsFields.of rfl rfl (hjson.reads_parsedText hid).readsMember
    apply ReadsFields.of rfl rfl (hjson.reads_parsedText hcreatedAt).readsMember
    apply ReadsFields.of rfl rfl (s.automaton.reads_toJson hjson).readsMember
    apply ReadsFields.nil
  · rfl
  · apply forms.within_jsonValue s

/-- The version of a snapshot that is read back is all that is left to be checked. -/
theorem ofJson_toJson_eq_checked (hjson : forms.json.Lawful)
    (h : forms.json.Reads forms.jsonReader (forms.jsonValue s) s) :
  forms.ofJson (forms.toJson s) = s.checked
  := by
  rw [ofJson, toJson, h.decode_render hjson]
  rfl

end Snapshot.Forms

/-- A snapshot of a year with four digits is read back from its JSON text, with all orders and the
settings, unless its version is another one than is read.  What is restored in the end is the
automaton that was captured. -/
theorem ofJson_toJson {forms : Snapshot.Forms} (hjson : forms.json.Lawful)
    (hids : forms.ids.ReadsBack fun _ => True)
    (hinstants : forms.instants.ReadsBack Instant.HasFourDigitYear) :
  (∀ s : Snapshot, s.createdAt.HasFourDigitYear →
      forms.ofJson (forms.toJson s)
        = if s.version = Snapshot.currentVersion then .ok s
          else .error (.unsupportedVersion s.version Snapshot.currentVersion))
    ∧ ∀ (a : Automaton) (id : Uuid) (createdAt : Instant), createdAt.HasFourDigitYear →
      (forms.ofJson (forms.toJson (Snapshot.capture a id createdAt))).map Snapshot.restore = .ok a
  := by
  have hchecked : ∀ s : Snapshot, s.createdAt.HasFourDigitYear →
      forms.ofJson (forms.toJson s) = s.checked := by
    intro s hyear
    have hreads := Snapshot.Forms.reads_jsonValue hjson (hids s.id trivial) (hinstants _ hyear)
    apply Snapshot.Forms.ofJson_toJson_eq_checked hjson hreads
  constructor
  · apply hchecked
  · intro a id createdAt hyear
    rw [hchecked (Snapshot.capture a id createdAt) hyear]
    rfl

/-- A quote, a backslash, a control and a character beyond U+FFFF in the standard forms, at a leap
second. -/
theorem ofJson_toJson_escaped :
  let forms := Snapshot.Forms.standard
  let a : Automaton :=
    ⟨Descriptor.ofLists "\x00\"" ["q0", ""] ["ab", "\\"] "q7" ["😀"],
      Table.ofList [⟨"q0", "a", "\n"⟩, ⟨"", "\x1f", "q0"⟩], .declarationOrder⟩
  let s : Snapshot :=
    ⟨1, ⟨List.replicate 16 0xAB, rfl⟩,
      ⟨⟨2016, 12, 31, by decide⟩, ⟨23, 59, 60, 500, by decide⟩⟩, a⟩
  let t : Snapshot := { s with version := 4294967295 }
  forms.ofJson (forms.toJson s) = .ok s
    ∧ forms.ofJson (forms.toJson t) = .error (.unsupportedVersion 4294967295 1)
    ∧ (forms.ofJson (forms.toJson (Snapshot.capture a s.id s.createdAt))).map Snapshot.restore
      = .ok a
  := by
  intro forms a s t
  have hjson : forms.json.Lawful := Json.standard_lawful
  obtain ⟨hread, hrestore⟩ :=
    ofJson_toJson hjson Uuid.hyphenated_readsBack (Instant.rfc3339_readsBack _)
  have hyear : s.createdAt.HasFourDigitYear := by decide
  use hread s hyear, hread t hyear, hrestore a s.id s.createdAt hyear

/-- A JSON text of a snapshot of a year with four digits that breaks off is incomplete, wherever it
breaks off.  Spaces after it make no difference, and any other text after it makes it malformed,
whatever the version. -/
theorem ofJson_of_damaged {forms : Snapshot.Forms} (hjson : forms.json.Lawful)
    (hids : forms.ids.ReadsBack fun _ => True)
    (hinstants : forms.instants.ReadsBack Instant.HasFourDigitYear) {s : Snapshot}
    (hyear : s.createdAt.HasFourDigitYear) :
  (∀ front rest : String, front ++ rest = forms.toJson s → rest ≠ "" →
      forms.ofJson front = .error (.json .incomplete))
    ∧ ∀ x : String, forms.ofJson (forms.toJson s ++ x)
      = if x.toList.all Json.isSpace then forms.ofJson (forms.toJson s)
        else .error (.json .malformed)
  := by
  have hreads := Snapshot.Forms.reads_jsonValue hjson (hids s.id trivial) (hinstants _ hyear)
  constructor
  · intro front rest heq hrest
    rw [Snapshot.Forms.ofJson, hreads.decode_of_append_eq heq hrest]
    rfl
  · intro x
    rw [Snapshot.Forms.ofJson, Snapshot.Forms.ofJson, Snapshot.Forms.toJson,
      hreads.decode_render_append hjson, hreads.decode_render hjson]
    split
    · rfl
    · rfl

/-- A version that breaks off may be the one that is read, and still the text is incomplete. -/
theorem ofJson_of_damaged_version :
  let forms := Snapshot.Forms.standard
  let a : Automaton :=
    ⟨Descriptor.ofLists "\x00\"" ["q0"] ["a", "\\"] "q7" ["😀"],
      Table.ofList [⟨"q0", "a", "\n"⟩], .declarationOrder⟩
  let s : Snapshot :=
    ⟨12, ⟨List.replicate 16 0xAB, rfl⟩,
      ⟨⟨2016, 12, 31, by decide⟩, ⟨23, 59, 60, 500, by decide⟩⟩, a⟩
  s.createdAt.HasFourDigitYear
    ∧ forms.ofJson "\x7b\n  \"version\": 1" = .error (.json .incomplete)
    ∧ forms.ofJson (forms.toJson s ++ "\r\n") = .error (.unsupportedVersion 12 1)
    ∧ forms.ofJson (forms.toJson s ++ " ]") = .error (.json .malformed)
  := by
  intro forms a s
  have hjson : forms.json.Lawful := Json.standard_lawful
  have hids := Uuid.hyphenated_readsBack
  have hinstants := Instant.rfc3339_readsBack Instant.HasFourDigitYear
  have hyear : s.createdAt.HasFourDigitYear := by decide
  obtain ⟨hcut, hafter⟩ := ofJson_of_damaged hjson hids hinstants hyear
  use hyear
  and_intros
  · have hversion : Nat.toDigits 10 s.version.toNat = ['1', '2'] := by
      show Nat.toDigits 10 (UInt32.toNat 12) = ['1', '2']
      rfl
    obtain ⟨rest, htext⟩ : ∃ rest, (forms.toJson s).toList
        = "\x7b\n  \"version\": 1".toList ++ '2' :: rest := by
      have hwrite : (forms.toJson s).toList = (forms.jsonValue s).write .indented 0 :=
        String.toList_ofList
      rw [hwrite, Snapshot.Forms.jsonValue, Json.Value.write, Json.Value.writeMembers,
        Json.Value.write, hversion]
      exact ⟨_, rfl⟩
    apply hcut _ (String.ofList ('2' :: rest))
    · rw [← String.toList_inj, String.toList_append, htext, String.toList_ofList (l := '2' :: rest)]
    · intro hrest
      rw [← String.toList_inj, String.toList_ofList] at hrest
      cases hrest
  · have hreads := Snapshot.Forms.reads_jsonValue hjson (hids s.id trivial) (hinstants _ hyear)
    rw [hafter, if_pos (by rfl), Snapshot.Forms.ofJson_toJson_eq_checked hjson hreads]
    rfl
  · rw [hafter, if_neg (by decide)]

end Acceptor
