import Acceptor.Instant.Date

/-!
# Instants

An `Instant` is a point in time to the nanosecond: a date and a time of day, both in
universal time.  A minute may have a leap second, which is its second number 60.
-/

namespace Acceptor

/-- Whether there is a time of day with these numbers. -/
def IsClock (hour minute second nanosecond : Nat) : Prop :=
  hour < 24 ∧ minute < 60 ∧ second ≤ 60 ∧ nanosecond < 1000000000

instance (hour minute second nanosecond : Nat) :
    Decidable (IsClock hour minute second nanosecond) :=
  inferInstanceAs (Decidable (_ ∧ _))

/-- A time of day. -/
structure Clock where
  hour : Nat
  minute : Nat
  second : Nat
  nanosecond : Nat
  isClock : IsClock hour minute second nanosecond
  deriving DecidableEq

namespace Clock

/-- The time of day with these numbers, if there is one. -/
def ofNumbers? (hour minute second nanosecond : Nat) : Option Clock :=
  if h : IsClock hour minute second nanosecond then
    some ⟨hour, minute, second, nanosecond, h⟩
  else none

theorem ofNumbers?_numbers (c : Clock) :
  ofNumbers? c.hour c.minute c.second c.nanosecond = some c
  := by
  rw [ofNumbers?, dif_pos c.isClock]

end Clock

/-- A date and a time of day, in universal time. -/
structure Instant where
  date : Date
  clock : Clock
  deriving DecidableEq

namespace Instant

/-- The year of the instant has four digits and no sign. -/
def HasFourDigitYear (t : Instant) : Prop :=
  0 ≤ t.date.year ∧ t.date.year ≤ 9999

instance (t : Instant) : Decidable t.HasFourDigitYear :=
  inferInstanceAs (Decidable (0 ≤ t.date.year ∧ t.date.year ≤ 9999))

end Instant

end Acceptor
