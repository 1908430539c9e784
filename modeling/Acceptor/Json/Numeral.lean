import Acceptor.Json.Fault

/-!
# Numerals

A JSON numeral has a sign, a whole part, a fraction and an exponent.  A numeral is held as
its digits; `Numeral.natural?` is the natural number that it denotes when it is written
without sign, fraction and exponent.

A numeral beyond the range of double precision is refused wherever its value is asked for,
even where no fraction is wanted.  The rule is `Numeral.outOfRange`: of the significand, as
many leading digits are kept as fit in 64 bits; it and the power of ten are rounded to 53
bits; and the numeral is refused when their product rounds to more than the largest
double.
-/

namespace Acceptor.Json

/-- The parts of a numeral. -/
structure Numeral where
  negative : Bool
  /-- The digits before the point. -/
  whole : List Char
  /-- The digits after the point, none if there is no point. -/
  fraction : List Char
  /-- Whether the exponent is negative, and its digits. -/
  exponent : Option (Bool × List Char)
  deriving DecidableEq, Repr

/-! ### Reading -/

/-- One digit or more; `atEnd` is the fault if the text ends before the first. -/
def digits (atEnd : Fault) : JsonReader (List Char) := do
  match ← Reader.peek with
  | none => Reader.fail atEnd
  | some c => if c.isDigit then Reader.takeWhile Char.isDigit else Reader.fail .malformed

/-- The digits before the point, the first of which is `c`: a zero alone, or digits that do
not begin with zero. -/
def wholePart (c : Char) : JsonReader (List Char) :=
  if c = '0' then do
    match ← Reader.peek with
    | some d => if d.isDigit then Reader.fail .malformed else pure [c]
    | none => pure [c]
  else if c.isDigit then do
    let cs ← Reader.takeWhile Char.isDigit
    pure (c :: cs)
  else Reader.fail .malformed

/-- The digits after the point, none if there is no point. -/
def fractionPart (atEnd : Fault) : JsonReader (List Char) := do
  match ← Reader.peek with
  | some '.' =>
    let _ ← Reader.item
    digits atEnd
  | _ => pure []

/-- The exponent, if there is one. -/
def exponentPart (atEnd : Fault) : JsonReader (Option (Bool × List Char)) := do
  match ← Reader.peek with
  | some c =>
    if c = 'e' ∨ c = 'E' then
      let _ ← Reader.item
      let sign ← Reader.peek
      match sign with
      | some '+' | some '-' => let _ ← Reader.item
      | _ => pure ()
      let ds ← digits atEnd
      pure (some (sign == some '-', ds))
    else pure none
  | none => pure none

/-- The numeral that begins with `c`; `atEnd` is the fault if the text ends inside it. -/
def numeral (atEnd : Fault) (c : Char) : JsonReader Numeral := do
  let whole ←
    if c = '-' then do
      match ← Reader.item with
      | none => Reader.fail atEnd
      | some d => wholePart d
    else wholePart c
  let fraction ← fractionPart atEnd
  let exponent ← exponentPart atEnd
  pure ⟨c == '-', whole, fraction, exponent⟩

/-! ### Values -/

/-- The natural number that a numeral denotes, if it has no sign, no fraction and no
exponent. -/
def Numeral.natural? (n : Numeral) : Option Nat :=
  if n.negative || !n.fraction.isEmpty || n.exponent.isSome then none
  else some (Nat.ofDigitChars 10 n.whole 0)

/-- Adds digits to a significand as long as it fits in 64 bits; the second component is
the number of digits left out. -/
def absorb (significand : Nat) : List Char → Nat × Nat
  | [] => (significand, 0)
  | d :: ds =>
    let longer := Nat.ofDigitChars 10 [d] significand
    if longer < 1 <<< 64 then absorb longer ds else (significand, ds.length + 1)

/-- The nearest number of at most 53 significant bits, the even one of two. -/
def round53 (n : Nat) : Nat :=
  let spare := n.log2 - 52
  let unit := 1 <<< spare
  let low := n / unit
  let rest := n % unit
  if 2 * rest > unit ∨ (2 * rest = unit ∧ low % 2 = 1) then (low + 1) * unit else low * unit

/-- The significand of a numeral and its power of ten. -/
def Numeral.scaled (n : Numeral) : Nat × Int :=
  let (whole, droppedWhole) := absorb 0 n.whole
  let (significand, droppedFraction) := absorb whole n.fraction
  let explicit : Int :=
    match n.exponent with
    | none => 0
    | some (true, ds) => -(Nat.ofDigitChars 10 ds 0 : Int)
    | some (false, ds) => Nat.ofDigitChars 10 ds 0
  (significand, droppedWhole - (n.fraction.length - droppedFraction : Nat) + explicit)

/-- Whether a numeral is too large for double precision. -/
def Numeral.outOfRange (n : Numeral) : Bool :=
  let (significand, power) := n.scaled
  significand ≠ 0 && power ≥ 0 &&
    (power > 308 || round53 significand * round53 (Nat.pow 10 power.toNat) ≥ 1 <<< 1024 - 1 <<< 970)

/-- The numeral that begins with `c`, which must be in range. -/
def numeralInRange (c : Char) : JsonReader Numeral := do
  let n ← numeral .incomplete c
  if n.outOfRange then Reader.fail .malformed else pure n

end Acceptor.Json
