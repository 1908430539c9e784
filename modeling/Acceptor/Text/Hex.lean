/-!
# Hexadecimal digits

Bytes are written as two digits each, in lower case, and read in either case.
-/

namespace Acceptor

/-- The digit for a number below 16, in lower case. -/
def hexDigit (n : Nat) : Char :=
  if n < 10 then Char.ofNat (48 + n) else Char.ofNat (87 + n)

/-- The number that a digit of either case stands for. -/
def hexValue? (c : Char) : Option Nat :=
  if '0' ≤ c ∧ c ≤ '9' then some (c.toNat - 48)
  else if 'a' ≤ c ∧ c ≤ 'f' then some (c.toNat - 87)
  else if 'A' ≤ c ∧ c ≤ 'F' then some (c.toNat - 55)
  else none

/-- Writes each byte as two digits. -/
def encodeHex (bytes : List UInt8) : List Char :=
  bytes.flatMap fun b => [hexDigit (b.toNat / 16), hexDigit (b.toNat % 16)]

/-- Reads two digits as a byte, and so on to the end. -/
def decodeHex? (digits : List Char) : Option (List UInt8) :=
  go [] digits
where
  /-- The bytes of the digits, after the bytes `done` in reverse. -/
  go (done : List UInt8) : List Char → Option (List UInt8)
    | [] => some done.reverse
    | [_] => none
    | a :: b :: rest =>
      match hexValue? a, hexValue? b with
      | some high, some low => go (UInt8.ofNat (high * 16 + low) :: done) rest
      | _, _ => none

theorem hexValue?_hexDigit {n : Nat} (h : n < 16) :
  hexValue? (hexDigit n) = some n
  := by
  revert n
  decide

theorem decodeHex?_go_encodeHex (done bytes : List UInt8) :
  decodeHex?.go done (encodeHex bytes) = some (done.reverse ++ bytes)
  := by
  induction bytes generalizing done with
  | nil => simp [encodeHex, decodeHex?.go]
  | cons b bytes ih =>
    have hb := b.toNat_lt
    have ih := ih (b :: done)
    simp only [encodeHex, List.flatMap_cons, List.cons_append, List.nil_append,
      decodeHex?.go, hexValue?_hexDigit (show b.toNat / 16 < 16 by omega),
      hexValue?_hexDigit (show b.toNat % 16 < 16 by omega)] at ih ⊢
    rw [show b.toNat / 16 * 16 + b.toNat % 16 = b.toNat by omega, UInt8.ofNat_toNat, ih]
    simp

/-- Reading what was written gives the bytes back. -/
theorem decodeHex?_encodeHex (bytes : List UInt8) :
  decodeHex? (encodeHex bytes) = some bytes
  := decodeHex?_go_encodeHex [] bytes

theorem length_encodeHex (bytes : List UInt8) :
  (encodeHex bytes).length = 2 * bytes.length
  := by
  induction bytes with
  | nil => rfl
  | cons b bytes ih =>
    simp only [encodeHex, List.flatMap_cons, List.length_append, List.length_cons] at ih ⊢
    simp only [List.length_nil, ih]
    omega

end Acceptor
