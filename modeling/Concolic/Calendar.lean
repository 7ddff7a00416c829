/-
  The proleptic Gregorian calendar.
-/

namespace Concolic.Calendar

/-- A day of the calendar. -/
structure Date where
  year : Int
  month : Nat
  day : Nat
  deriving DecidableEq, Repr

/-- Every fourth year is a leap year, but of the full centuries only every fourth. -/
def isLeap (year : Int) : Bool := year % 4 = 0 && (year % 100 ≠ 0 || year % 400 = 0)

/-- How many days a month has. -/
def monthLength (year : Int) (month : Nat) : Nat :=
  if month = 2 then if isLeap year then 29 else 28
  else if month = 4 ∨ month = 6 ∨ month = 9 ∨ month = 11 then 30
  else 31

/-- Days before the month that is `m` months after March, counted from 1 March. -/
def daysBefore (m : Nat) : Nat := (153 * m + 2) / 5

/-- Days in the first `y` years of an era. -/
def yearDays (y : Nat) : Nat := 365 * y + y / 4 - y / 100

/-- The day number of 1 January 1970, counted from 1 March of the year 0. -/
def epoch : Int := 719468

/-- The year of an era that its day `d` falls in. -/
def eraYear (d : Nat) : Nat := (d - d / 1460 + d / 36524 - d / 146096) / 365

/-- The date of a day number, counted from 1 January 1970. Years count from 1 March, so that the
    leap day is the last of its year, in eras of 400 years, which all have 146097 days. -/
def civil (n : Int) : Date :=
  let shifted := n + epoch
  let era := shifted / 146097
  let d := (shifted % 146097).toNat
  let y := eraYear d
  let yday := d - yearDays y
  let m := (5 * yday + 2) / 153
  let month := if m < 10 then m + 3 else m - 9
  { year := y + era * 400 + if month ≤ 2 then 1 else 0
    month
    day := yday - daysBefore m + 1 }

end Concolic.Calendar
