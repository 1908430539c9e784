import Acceptor.Uuid.Hyphenated
import Mathlib.Algebra.GroupWithZero.Nat

/-!
# Identifiers that are read back

Every identifier is read back from its text (`ofText?_render`): the hyphens that are put after
the groups of digits are taken out again, and what begins with a digit is neither between
braces nor after `urn:uuid:`.
-/

namespace Acceptor.Uuid

theorem length_hyphenate {lengths : List Nat} {digits : List Char}
    (h : lengths.sum = digits.length) :
  (hyphenate lengths digits).length = digits.length + (lengths.length - 1)
  := by
  induction lengths generalizing digits with
  | nil => rfl
  | cons n lengths ih =>
    cases lengths with
    | nil => rfl
    | cons m lengths =>
      rw [List.sum_cons] at h
      have ih := ih (show (m :: lengths).sum = (digits.drop n).length by
        rw [List.length_drop]
        omega)
      rw [hyphenate, List.length_append, List.length_cons, ih, List.length_take, List.length_drop]
      simp only [List.length_cons]
      omega

theorem unhyphenate?_hyphenate {lengths : List Nat} {digits : List Char} (hne : lengths ≠ [])
    (h : lengths.sum = digits.length) :
  unhyphenate? lengths (hyphenate lengths digits) = some digits
  := by
  induction lengths generalizing digits with
  | nil => exact absurd rfl hne
  | cons n lengths ih =>
    cases lengths with
    | nil => exact if_pos h.symm
    | cons m lengths =>
      rw [List.sum_cons] at h
      have ih := ih (List.cons_ne_nil m lengths) (show _ = (digits.drop n).length by
        rw [List.length_drop]
        omega)
      have hlength : (digits.take n).length = n := by
        rw [List.length_take]
        omega
      rw [hyphenate, unhyphenate?, List.drop_left' hlength, List.take_left' hlength]
      show (unhyphenate? (m :: lengths) (hyphenate (m :: lengths) (digits.drop n))).map
        (digits.take n ++ ·) = some digits
      rw [ih, Option.map_some, List.take_append_drop]

theorem hexDigit_unwrapped {n : Nat} (h : n < 16) :
  hexDigit n ≠ '\x7b' ∧ (hexDigit n).toLower ≠ 'u'
  := by
  revert n
  decide

/-- What begins with a digit is not wrapped. -/
theorem unwrapped_hexDigit {n : Nat} (h : n < 16) (cs : List Char) :
  unwrapped (hexDigit n :: cs) = hexDigit n :: cs
  := by
  obtain ⟨hbrace, hlower⟩ := hexDigit_unwrapped h
  have hmark : ((hexDigit n :: cs).take urnMark.length).map Char.toLower ≠ urnMark := by
    intro hmark
    exact hlower (List.cons.inj hmark).1
  unfold unwrapped
  split
  · next heq => exact absurd (List.cons.inj heq).1 hbrace
  · rw [if_neg hmark]

/-- Every identifier is read back. -/
theorem ofText?_render (u : Uuid) :
  ofText? u.render = some u
  := by
  have hdigits : groups.sum = (encodeHex u.bytes).length := by
    rw [length_encodeHex, u.length_eq]
    rfl
  have hlength : (hyphenate groups (encodeHex u.bytes)).length ≠ 32 := by
    rw [length_hyphenate hdigits, length_encodeHex, u.length_eq]
    decide
  have hunwrapped : unwrapped (hyphenate groups (encodeHex u.bytes))
      = hyphenate groups (encodeHex u.bytes) := by
    obtain ⟨b, bs, hbytes⟩ := List.exists_cons_of_length_eq_add_one u.length_eq
    have hb := b.toNat_lt
    rw [hbytes]
    apply unwrapped_hexDigit
    omega
  rw [ofText?, render, String.toList_ofList, if_neg hlength, hunwrapped,
    unhyphenate?_hyphenate (by decide) hdigits]
  show (decodeHex? (encodeHex u.bytes)).bind ofBytes? = some u
  rw [decodeHex?_encodeHex]
  exact ofBytes?_bytes u

theorem hyphenated_readsBack :
  hyphenated.ReadsBack fun _ => True
  := by
  intro u _
  dsimp only [hyphenated]
  apply ofText?_render

end Acceptor.Uuid
