import Concolic.Stamp

/-
  Points in time.
-/

namespace Concolic

/-- Counted from the start of 1970 in universal time. -/
structure Instant where
  secs : Int
  nanos : Nat
  deriving DecidableEq, Repr

namespace Instant

/-- The text of an instant in universal time. -/
def text (i : Instant) : String :=
  let date := Calendar.civil (i.secs / 86400)
  let time := (i.secs % 86400).toNat
  String.join
    [Text.padded 4 date.year.toNat, "-", Text.padded 2 date.month, "-", Text.padded 2 date.day, "T",
     Text.padded 2 (time / 3600), ":", Text.padded 2 (time / 60 % 60), ":",
     Text.padded 2 (time % 60), ".", Text.padded 9 i.nanos, "+00:00"]

/-- Date, time of day with nine decimals, and the offset. -/
def stamp? (i : Instant) : Option Stamp := Stamp.at? i.secs i.nanos 0

end Instant

end Concolic
