import Acceptor.Json.Fault
import Acceptor.Text.ByteLength
import Acceptor.Text.Hex

/-!
# Quoted texts

A text is written between quotes; a quote, a backslash and the controls below U+0020 are
written as escapes, and nothing else is.  A reader takes every escape of JSON, among them
the pairs of escapes that stand for a character beyond U+FFFF.
-/

namespace Acceptor.Json

/-! ### Writing -/

/-- The characters that stand for `c` between quotes. -/
def escape (c : Char) : List Char :=
  match c with
  | '"' => ['\\', '"']
  | '\\' => ['\\', '\\']
  | '\n' => ['\\', 'n']
  | '\r' => ['\\', 'r']
  | '\t' => ['\\', 't']
  | _ =>
    if c.toNat = 0x08 then ['\\', 'b']
    else if c.toNat = 0x0C then ['\\', 'f']
    else if c.toNat < 0x20 then
      ['\\', 'u', '0', '0', hexDigit (c.toNat / 16), hexDigit (c.toNat % 16)]
    else [c]

/-- Writes a text between quotes. -/
def quote (s : String) : List Char :=
  '"' :: s.toList.flatMap escape ++ ['"']

/-! ### Reading -/

/-- The number that four hexadecimal digits stand for. -/
def hexQuad? (a b c d : Char) : Option Nat := do
  let a ← hexValue? a
  let b ← hexValue? b
  let c ← hexValue? c
  let d ← hexValue? d
  pure (((a * 16 + b) * 16 + c) * 16 + d)

/-- Four hexadecimal digits.  The text is too short for them when it has fewer than four
bytes left. -/
def hexQuad : JsonReader Nat where
  run
    | a :: b :: c :: d :: rest =>
      match hexQuad? a b c d with
      | some n => .ok (n, rest)
      | none => .error .malformed
    | rest => .error (if byteLength rest < 4 then .incomplete else .malformed)
  length_le {items a rest} h := by
    split at h
    · split at h
      · obtain ⟨rfl, rfl⟩ := Prod.mk.inj (Except.ok.inj h)
        simp only [List.length_cons]
        omega
      · cases h
    · cases h

/-- The character that a single letter after a backslash stands for. -/
def unescape? : Char → Option Char
  | '"' => some '"'
  | '\\' => some '\\'
  | '/' => some '/'
  | 'b' => some (Char.ofNat 0x08)
  | 'f' => some (Char.ofNat 0x0C)
  | 'n' => some '\n'
  | 'r' => some '\r'
  | 't' => some '\t'
  | _ => none

/-- The second half of a pair of escapes, the first half of which is `high`. -/
def lowSurrogate (high : Nat) : JsonReader Char := do
  match ← Reader.item with
  | none => Reader.fail .incomplete
  | some '\\' =>
    match ← Reader.item with
    | none => Reader.fail .incomplete
    | some 'u' =>
      let low ← hexQuad
      if 0xDC00 ≤ low ∧ low ≤ 0xDFFF then
        pure (Char.ofNat (0x10000 + (high - 0xD800) * 0x400 + (low - 0xDC00)))
      else
        Reader.fail .malformed
    | some _ => Reader.fail .malformed
  | some _ => Reader.fail .malformed

/-- The character of a `\u` escape, the letter of which has been taken. -/
def unicodeEscape : JsonReader Char := do
  let n ← hexQuad
  if 0xDC00 ≤ n ∧ n ≤ 0xDFFF then Reader.fail .malformed
  else if 0xD800 ≤ n ∧ n ≤ 0xDBFF then lowSurrogate n
  else pure (Char.ofNat n)

/-- The character of an escape, the backslash of which has been taken. -/
def unescape : JsonReader Char := do
  match ← Reader.item with
  | none => Reader.fail .incomplete
  | some 'u' => unicodeEscape
  | some c =>
    match unescape? c with
    | some d => pure d
    | none => Reader.fail .malformed

/-- The character `c` of a quoted text, of which `done` has been read, in reverse. -/
def unquoteStep (done : List Char) (c : Char) : JsonReader (List Char ⊕ String) :=
  if c = '"' then pure (.inr (String.ofList done.reverse))
  else if c = '\\' then do
    let d ← unescape
    pure (.inl (d :: done))
  else if c.toNat < 0x20 then Reader.fail .malformed
  else pure (.inl (c :: done))

/-- The rest of a quoted text, of which `done` has been read, in reverse. -/
def unquoteFrom (done : List Char) : JsonReader String :=
  Reader.loop (fun _ => .error .incomplete) unquoteStep done

/-- The rest of a quoted text, the opening quote of which has been taken. -/
def unquote : JsonReader String :=
  unquoteFrom []

/-- Passes over the rest of a quoted text, the opening quote of which has been taken.  Here
a `\u` escape may stand for half a pair. -/
def skipQuoted : JsonReader Unit :=
  Reader.loop
    (fun _ => .error .incomplete)
    (fun _ c =>
      if c = '"' then pure (.inr ())
      else if c = '\\' then do
        match ← Reader.item with
        | none => Reader.fail .incomplete
        | some 'u' =>
          let _ ← hexQuad
          pure (.inl ())
        | some d => if (unescape? d).isSome then pure (.inl ()) else Reader.fail .malformed
      else if c.toNat < 0x20 then Reader.fail .malformed
      else pure (.inl ()))
    ()

end Acceptor.Json
