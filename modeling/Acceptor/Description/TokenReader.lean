import Acceptor.Description.Fault
import Acceptor.Reader

/-!
# Reading single tokens

The readers of one identifier and of one mark, on which the readers of descriptors and of
transitions are built.  They take the byte length of the whole text, which is the offset
of a fault at its end, and they take nothing when they fail.
-/

namespace Acceptor

/-- Readers of the tokens of a description. -/
abbrev TokenReader (α : Type) :=
  Reader Token Fault α

namespace TokenReader

/-- An identifier; `wanted` is what the fault asks for. -/
def identifier (endOffset : Nat) (wanted : Wanted) : TokenReader String := do
  match ← Reader.peek with
  | some ⟨.identifier name, _⟩ =>
    let _ ← Reader.item
    pure name
  | _ => Reader.failWith (Fault.atNext endOffset wanted)

/-- The mark `kind`; `wanted` is what the fault asks for. -/
def mark (endOffset : Nat) (kind : TokenKind) (wanted : Wanted) : TokenReader Unit := do
  match ← Reader.peek with
  | some token =>
    if token.kind = kind then
      let _ ← Reader.item
      pure ()
    else
      Reader.failWith (Fault.atNext endOffset wanted)
  | none => Reader.failWith (Fault.atNext endOffset wanted)

/-! ### What single tokens read as -/

theorem run_identifier (endOffset : Nat) (wanted : Wanted) (name : String) (offset : Nat)
    (rest : List Token) :
  (identifier endOffset wanted).run (⟨.identifier name, offset⟩ :: rest) = .ok (name, rest)
  := rfl

theorem run_identifier_of_ne (endOffset : Nat) (wanted : Wanted) {ahead : List Token}
    (h : ∀ name offset rest, ahead ≠ ⟨.identifier name, offset⟩ :: rest) :
  (identifier endOffset wanted).run ahead = .error (Fault.atNext endOffset wanted ahead)
  := by
  match ahead with
  | [] => rfl
  | ⟨kind, offset⟩ :: rest =>
    cases kind with
    | identifier name => exact absurd rfl (h name offset rest)
    | _ => rfl

theorem run_identifier_eq_ok_iff
    {endOffset : Nat} {wanted : Wanted} {ahead rest : List Token} {name : String} :
  (identifier endOffset wanted).run ahead = .ok (name, rest)
    ↔ ∃ offset, ahead = ⟨.identifier name, offset⟩ :: rest
  := by
  constructor
  · intro h
    by_cases hne : ∀ name offset rest, ahead ≠ ⟨.identifier name, offset⟩ :: rest
    · rw [run_identifier_of_ne _ _ hne] at h
      cases h
    · simp only [ne_eq, Classical.not_forall, Classical.not_not] at hne
      obtain ⟨name, offset, rest, rfl⟩ := hne
      rw [run_identifier] at h
      obtain ⟨rfl, rfl⟩ := Prod.mk.inj (Except.ok.inj h)
      exact ⟨offset, rfl⟩
  · rintro ⟨offset, rfl⟩
    apply run_identifier

theorem run_mark (endOffset : Nat) (kind : TokenKind) (wanted : Wanted) (offset : Nat)
    (rest : List Token) :
  (mark endOffset kind wanted).run (⟨kind, offset⟩ :: rest) = .ok ((), rest)
  := by
  rw [mark, Reader.run_bind_of_ok (Reader.run_peek _)]
  simp only [List.head?_cons, if_true]
  rfl

theorem run_mark_of_ne (endOffset : Nat) {kind : TokenKind} (wanted : Wanted)
    {ahead : List Token} (h : ∀ offset rest, ahead ≠ ⟨kind, offset⟩ :: rest) :
  (mark endOffset kind wanted).run ahead = .error (Fault.atNext endOffset wanted ahead)
  := by
  rw [mark, Reader.run_bind_of_ok (Reader.run_peek _)]
  match ahead with
  | [] => rfl
  | ⟨k, offset⟩ :: rest =>
    have hk : k ≠ kind := by
      rintro rfl
      exact h offset rest rfl
    simp only [List.head?_cons, if_neg hk]
    rfl

theorem run_mark_eq_ok_iff
    {endOffset : Nat} {kind : TokenKind} {wanted : Wanted} {ahead rest : List Token} :
  (mark endOffset kind wanted).run ahead = .ok ((), rest)
    ↔ ∃ offset, ahead = ⟨kind, offset⟩ :: rest
  := by
  constructor
  · intro h
    by_cases hne : ∀ offset rest, ahead ≠ ⟨kind, offset⟩ :: rest
    · rw [run_mark_of_ne _ _ hne] at h
      cases h
    · simp only [ne_eq, Classical.not_forall, Classical.not_not] at hne
      obtain ⟨offset, rest, rfl⟩ := hne
      rw [run_mark] at h
      obtain ⟨-, rfl⟩ := Prod.mk.inj (Except.ok.inj h)
      exact ⟨offset, rfl⟩
  · rintro ⟨offset, rfl⟩
    apply run_mark

end TokenReader

end Acceptor
