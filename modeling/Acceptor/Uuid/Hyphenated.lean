import Acceptor.Text.Form
import Acceptor.Text.Hex
import Acceptor.Uuid.Basic

/-!
# The text of an identifier

An identifier is written as 32 digits in lower case, in groups of 8, 4, 4, 4 and 12 with
hyphens between them.  It is read in either case, with the hyphens or with none of them;
the form with hyphens may stand between braces or after `urn:uuid:`, the letters of which
are in either case as well.
-/

namespace Acceptor.Uuid

/-- The lengths of the groups of digits. -/
def groups : List Nat :=
  [8, 4, 4, 4, 12]

/-- Puts a hyphen after each group but the last. -/
def hyphenate : List Nat → List Char → List Char
  | n :: m :: lengths, digits =>
    digits.take n ++ '-' :: hyphenate (m :: lengths) (digits.drop n)
  | _, digits => digits

/-- Takes the hyphens out, each of which must stand after its group. -/
def unhyphenate? : List Nat → List Char → Option (List Char)
  | n :: m :: lengths, cs =>
    match cs.drop n with
    | '-' :: rest => (unhyphenate? (m :: lengths) rest).map (cs.take n ++ ·)
    | _ => none
  | [n], cs => if cs.length = n then some cs else none
  | [], _ => none

/-- The mark that may stand before the form with hyphens. -/
def urnMark : List Char :=
  "urn:uuid:".toList

/-- The characters between braces or after `urnMark`, or else all characters. -/
def unwrapped (cs : List Char) : List Char :=
  match cs with
  | '{' :: rest => if rest.getLast? = some '}' then rest.dropLast else cs
  | _ =>
    if (cs.take urnMark.length).map Char.toLower = urnMark then cs.drop urnMark.length
    else cs

/-- Writes an identifier. -/
def render (u : Uuid) : String :=
  String.ofList (hyphenate groups (encodeHex u.bytes))

/-- Reads an identifier. -/
def ofText? (s : String) : Option Uuid := do
  let digits ←
    if s.toList.length = 32 then pure s.toList
    else unhyphenate? groups (unwrapped s.toList)
  let bytes ← decodeHex? digits
  ofBytes? bytes

/-- The form in which this library runs with identifiers. -/
def hyphenated : TextForm Uuid where
  render := render
  ofText? := ofText?

end Acceptor.Uuid
