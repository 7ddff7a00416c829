import Concolic.Rounding
import Concolic.Text.Decimal

/-
  Spans of time, and their two texts.
-/

namespace Concolic

/-- A span of time: whole seconds and nanoseconds. -/
structure Duration where
  secs : UInt64
  nanos : Fin 1000000000
  deriving DecidableEq, Repr

namespace Duration

/-- So many seconds. -/
def ofSeconds (secs : UInt64) : Duration := ⟨secs, 0⟩

/-- So many milliseconds. -/
def ofMillis (ms : Nat) : Duration :=
  ⟨UInt64.ofNat (ms / 1000), Fin.ofNat 1000000000 (ms % 1000 * 1000000)⟩

/-- The span in nanoseconds. -/
def totalNanos (d : Duration) : Nat := d.secs.toNat * 1000000000 + d.nanos.val

/-- A fraction of `width` digits, with its dot and without the zeros at its end. -/
def fraction (width part : Nat) : String :=
  let digits := ((Text.padded width part).toList.reverse.dropWhile (· = '0')).reverse
  if digits = [] then "" else String.ofList ('.' :: digits)

/-- A number with its fraction and unit. -/
def measured (whole width part : Nat) (unit : String) : String :=
  Nat.repr whole ++ fraction width part ++ unit

/-- Exact: in the largest of the units s, ms, µs, ns that the span reaches, with as many fraction
    digits as are needed. -/
def text (d : Duration) : String :=
  let n := d.nanos.val
  if d.secs ≠ 0 then measured d.secs.toNat 9 n "s"
  else if 1000000 ≤ n then measured (n / 1000000) 6 (n % 1000000) "ms"
  else if 1000 ≤ n then measured (n / 1000) 3 (n % 1000) "µs"
  else measured n 0 0 "ns"

/-- The span as a double-precision number of seconds, in units of `1 / Rounding.scale`: seconds
    and nanoseconds are rounded by themselves and once more when they are added. -/
def seconds (d : Duration) : Nat :=
  let whole := Rounding.significant d.secs.toNat 1
  let part := Rounding.significant d.nanos.val 1000000000
  Rounding.significant (whole + part) Rounding.scale

/-- The number of seconds with one decimal, a half going to the even tenth. -/
def tenths (d : Duration) : String :=
  let n := Rounding.roundDiv (d.seconds * 10) Rounding.scale
  Nat.repr (n / 10) ++ "." ++ Nat.repr (n % 10)

end Duration

end Concolic
