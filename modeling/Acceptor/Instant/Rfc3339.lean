import Acceptor.Instant.Basic
import Acceptor.Reader
import Acceptor.Text.Blank
import Acceptor.Text.Form

/-!
# The text of an instant

An instant is written after RFC 3339 as `2024-02-29T12:34:56.789Z`, with none, three, six
or nine digits after the point, the fewest that lose nothing.  A year outside 0 to 9999
has a sign.  The reader is more liberal: it takes blanks between the parts, a blank or a
`t` in place of the `T`, numbers without their leading zeros, any number of digits after
the point, of which it keeps nine, and any offset from universal time.
-/

namespace Acceptor.Instant

/-! ### Writing -/

/-- The decimal digits of `n`, with leading zeros up to `width` digits; higher digits are
left out. -/
def paddedDigits : Nat → Nat → List Char
  | 0, _ => []
  | width + 1, n => paddedDigits width (n / 10) ++ [Char.ofNat (48 + n % 10)]

/-- The digits of a year: four, or a sign and at least four. -/
def yearDigits (year : Int) : List Char :=
  let size := year.natAbs
  let digits := if size < 10000 then paddedDigits 4 size else Nat.toDigits 10 size
  if year < 0 then '-' :: digits
  else if 10000 ≤ year then '+' :: digits
  else digits

/-- The point and the digits after it, none if there are no nanoseconds. -/
def fractionDigits (nanosecond : Nat) : List Char :=
  if nanosecond = 0 then []
  else if nanosecond % 1000000 = 0 then '.' :: paddedDigits 3 (nanosecond / 1000000)
  else if nanosecond % 1000 = 0 then '.' :: paddedDigits 6 (nanosecond / 1000)
  else '.' :: paddedDigits 9 nanosecond

/-- The characters of an instant. -/
def renderChars (t : Instant) : List Char :=
  yearDigits t.date.year ++ '-' :: paddedDigits 2 t.date.month ++ '-' :: paddedDigits 2 t.date.day
    ++ 'T' :: paddedDigits 2 t.clock.hour ++ ':' :: paddedDigits 2 t.clock.minute
    ++ ':' :: paddedDigits 2 t.clock.second ++ fractionDigits t.clock.nanosecond ++ ['Z']

/-- Writes an instant. -/
def render (t : Instant) : String :=
  String.ofList t.renderChars

/-! ### Reading -/

/-- Readers of the text of an instant, which has one kind of fault. -/
abbrev Scan (α : Type) :=
  Reader Char Unit α

/-- Skips blanks. -/
def blanks : Scan Unit := do
  let _ ← Reader.takeWhile isBlank

/-- A value that may be missing. -/
def present {α : Type} : Option α → Scan α
  | some a => pure a
  | none => Reader.fail ()

/-- The number that decimal digits stand for. -/
def decimal (ds : List Char) : Nat :=
  Nat.ofDigitChars 10 ds 0

/-- One digit or more, but no more than `most`. -/
def someDigits (most : Nat) : Scan (List Char) where
  run cs :=
    let ds := (cs.take most).takeWhile Char.isDigit
    if ds.isEmpty then .error () else .ok (ds, cs.drop ds.length)
  length_le {items a rest} h := by
    dsimp only at h
    split at h
    · cases h
    · obtain ⟨rfl, rfl⟩ := Prod.mk.inj (Except.ok.inj h)
      simp

/-- A number of one or two digits, after blanks. -/
def shortNumber : Scan Nat := do
  blanks
  let ds ← someDigits 2
  pure (decimal ds)

/-- The character `c`, after blanks. -/
def separator (c : Char) : Scan Unit := do
  blanks
  match ← Reader.item with
  | some d => if d = c then pure () else Reader.fail ()
  | none => Reader.fail ()

/-- A year, after blanks: at most four digits, or a sign and any number of digits. -/
def year : Scan Int := do
  blanks
  match ← Reader.peek with
  | some '-' =>
    let _ ← Reader.item
    let ds ← signedDigits
    pure (-(decimal ds : Int))
  | some '+' =>
    let _ ← Reader.item
    let ds ← signedDigits
    pure (decimal ds)
  | _ =>
    let ds ← someDigits 4
    pure (decimal ds)
where
  /-- One digit or more. -/
  signedDigits : Scan (List Char) := do
    let ds ← Reader.takeWhile Char.isDigit
    if ds.isEmpty then Reader.fail () else pure ds

/-- The character between the date and the time of day. -/
def dateEnd : Scan Unit := do
  match ← Reader.item with
  | some 'T' | some 't' | some ' ' => pure ()
  | _ => Reader.fail ()

/-- The nanoseconds, of which there are none without a point. -/
def nanoseconds : Scan Nat := do
  match ← Reader.peek with
  | some '.' =>
    let _ ← Reader.item
    let ds ← someDigits 9
    let _ ← Reader.takeWhile Char.isDigit
    pure (decimal ds * Nat.pow 10 (9 - ds.length))
  | _ => pure 0

/-- Two digits exactly. -/
def twoDigits : Scan Nat := do
  let a ← Reader.item
  let b ← Reader.item
  match a, b with
  | some a, some b =>
    if a.isDigit && b.isDigit then pure (decimal [a, b]) else Reader.fail ()
  | _, _ => Reader.fail ()

/-- The hours and minutes of an offset, with any number of colons and blanks between
them, as minutes. -/
def offsetMinutes : Scan Nat := do
  let hours ← twoDigits
  let _ ← Reader.takeWhile fun c => c == ':' || isBlank c
  let minutes ← twoDigits
  if minutes < 60 then pure (hours * 60 + minutes) else Reader.fail ()

/-- The offset from universal time, in minutes: `Z`, `UTC`, or a sign, hours and minutes. -/
def offset : Scan Int := do
  match ← Reader.item with
  | some '+' =>
    let minutes ← offsetMinutes
    pure minutes
  | some c =>
    if c = '-' ∨ c = '−' then
      let minutes ← offsetMinutes
      pure (-(minutes : Int))
    else if c = 'Z' ∨ c = 'z' then pure 0
    else if c = 'U' ∨ c = 'u' then
      let t ← Reader.item
      let c ← Reader.item
      if (t == some 'T' || t == some 't') && (c == some 'C' || c == some 'c') then pure 0
      else Reader.fail ()
    else Reader.fail ()
  | none => Reader.fail ()

/-- The instant at which clocks that are `offset` minutes ahead of universal time show
the given date and time.  The offset is less than a day. -/
def ofLocal? (date : Date) (clock : Clock) (offset : Int) : Option Instant :=
  if -1440 < offset ∧ offset < 1440 then do
    let minutes : Int := clock.hour * 60 + clock.minute - offset
    let date ←
      if minutes < 0 then date.previous?
      else if 1440 ≤ minutes then date.next?
      else some date
    let minuteOfDay := (minutes % 1440).toNat
    let clock ←
      Clock.ofNumbers? (minuteOfDay / 60) (minuteOfDay % 60) clock.second clock.nanosecond
    pure ⟨date, clock⟩
  else none

/-- An instant and nothing after it but blanks. -/
def instant : Scan Instant := do
  let y ← year
  separator '-'
  let month ← shortNumber
  separator '-'
  let day ← shortNumber
  dateEnd
  let hour ← shortNumber
  separator ':'
  let minute ← shortNumber
  separator ':'
  let second ← shortNumber
  let nanosecond ← nanoseconds
  blanks
  let minutes ← offset
  blanks
  match ← Reader.peek with
  | some _ => Reader.fail ()
  | none =>
    let date ← present (Date.ofNumbers? y month day)
    let clock ← present (Clock.ofNumbers? hour minute second nanosecond)
    present (ofLocal? date clock minutes)

/-- Reads an instant. -/
def ofText? (s : String) : Option Instant :=
  match instant.run s.toList with
  | .ok (t, _) => some t
  | .error _ => none

/-- The form in which this library runs with instants. -/
def rfc3339 : TextForm Instant where
  render := render
  ofText? := ofText?

end Acceptor.Instant
