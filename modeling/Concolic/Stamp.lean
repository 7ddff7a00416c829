import Concolic.Calendar
import Concolic.Text.Decimal

/-
  The stamp of a moment: day of the month and time of the day, as progress lines show it.
-/

namespace Concolic

/-- Day of the month, time of the day and microseconds. -/
structure Stamp where
  day : Nat
  hour : Nat
  minute : Nat
  second : Nat
  micros : Nat
  deriving DecidableEq, Repr

namespace Stamp

/-- The text of a stamp, a tuple of its five numbers. -/
def text (s : Stamp) : String :=
  "(" ++ ", ".intercalate ([s.day, s.hour, s.minute, s.second, s.micros].map Nat.repr) ++ ")"

/-- The first and the last second that have a date. -/
def firstSecond : Int := -8334601228800
/-- The last moment that has a stamp. -/
def lastSecond : Int := 8210266876799

/-- The moment `secs` and `nanos` after the start of 1970 exists: from 10^9 nanoseconds up it lies
    in a leap second, which only the last second of a minute can have. -/
def isMoment (secs : Int) (nanos : Nat) : Bool :=
  firstSecond ≤ secs && secs ≤ lastSecond && nanos < 2000000000
    && (nanos < 1000000000 || secs % 60 = 59)

/-- An offset of less than a day from universal time. -/
def isOffset (offset : Int) : Bool := -86400 < offset && offset < 86400

/-- The stamp of a moment, seen `offset` seconds east of universal time.  A leap second is shown
    as the second before it. -/
def at? (secs : Int) (nanos : Nat) (offset : Int) : Option Stamp :=
  if isMoment secs nanos && isOffset offset then
    let local_ := secs + offset
    let time := (local_ % 86400).toNat
    some
      { day := (Calendar.civil (local_ / 86400)).day
        hour := time / 3600
        minute := time / 60 % 60
        second := time % 60
        micros := nanos % 1000000000 / 1000 }
  else none

end Stamp

end Concolic
