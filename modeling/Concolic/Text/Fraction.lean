import Concolic.Rounding
import Concolic.Text.Decimal

/-
  Decimal texts of fractional numbers.

  A fraction is a quotient of whole numbers with a sign.
-/

namespace Concolic.Text

/-- A signed fraction, or one of the values that are no numbers. -/
inductive Fraction where
  | finite (negative : Bool) (numerator denominator : Nat)
  | infinite (negative : Bool)
  | undefined (negative : Bool)
  deriving DecidableEq, Repr

namespace Fraction

def zero : Fraction := .finite false 0 1

/-- A whole number. -/
def ofInt (i : Int) : Fraction := .finite (i < 0) i.natAbs 1

/-- The power of two by which a fraction is divided so that `bits` binary digits stand before its
    point. -/
def binaryExponent (bits n d : Nat) : Int :=
  let e : Int := (n.log2 : Int) - d.log2 - bits
  let q := if e < 0 then n * Nat.pow 2 e.natAbs / d else n / (d * Nat.pow 2 e.natAbs)
  if q < Nat.pow 2 bits then e else e + 1

/-- The nearest fraction with `bits` significant binary digits. -/
def nearest (bits : Nat) : Fraction → Fraction
  | finite s n d =>
    if n = 0 ∨ d = 0 then .finite s 0 1
    else
      let e := binaryExponent bits n d
      let unit := Nat.pow 2 e.natAbs
      if e < 0 then .finite s (Rounding.roundDiv (n * unit) d) unit
      else .finite s (Rounding.roundDiv n (d * unit) * unit) 1
  | r => r

end Fraction

/-! ## Reading -/

/-- The digits at the start of a text, in base `base`, and what follows them. -/
def digitRun (base : Nat) (cs : List Char) : List Char × List Char :=
  let isDigit := fun c => (hexValue? c).any fun d => decide (d < base)
  (cs.takeWhile isDigit, cs.dropWhile isDigit)

/-- The exponent after one of the marks, if digits follow it. -/
def readExponent (marks : List Char) (cs : List Char) : Int × List Char :=
  match cs with
  | c :: rest =>
    if !marks.contains c then (0, cs)
    else
      let (negative, after) := match rest with
        | '-' :: r => (true, r)
        | '+' :: r => (false, r)
        | _ => (false, rest)
      let (digits, left) := digitRun 10 after
      match ofDigits? 10 digits with
      | some n => (if negative then -(min n 99999 : Nat) else (min n 99999 : Nat), left)
      | none => (0, cs)
  | [] => (0, [])

/-- A word at the start of a text, in either case. -/
def startsWithWord (word : String) (cs : List Char) : Bool :=
  word.toList.isPrefixOf
    (cs.map fun c => if 'A' ≤ c ∧ c ≤ 'Z' then Char.ofNat (c.toNat + 32) else c)

/-- The number that a text starts with, after blanks, and what follows it; none if it starts with no
    number. -/
def readFraction (text : List Char) : Option (Fraction × List Char) :=
  let cs := text.dropWhile fun c => c = ' ' || ('\t' ≤ c && c ≤ '\r')
  let (negative, body) := match cs with
    | '-' :: r => (true, r)
    | '+' :: r => (false, r)
    | _ => (false, cs)
  if startsWithWord "infinity" body then some (.infinite negative, body.drop 8)
  else if startsWithWord "inf" body then some (.infinite negative, body.drop 3)
  else if startsWithWord "nan" body then some (.undefined negative, body.drop 3)
  else
    let number := fun (base : Nat) (radix : Nat) (marks : List Char) (body : List Char) =>
      let (whole, after) := digitRun base body
      let (fraction, after) := match after with
        | '.' :: r =>
          let (fraction, left) := digitRun base r
          if whole.isEmpty && fraction.isEmpty then ([], after) else (fraction, left)
        | _ => ([], after)
      match ofDigits? base (whole ++ fraction) with
      | none => none
      | some n =>
        let (e, left) := readExponent marks after
        let d := Nat.pow base fraction.length
        some (if e < 0 then Fraction.finite negative n (d * Nat.pow radix e.natAbs)
          else Fraction.finite negative (n * Nat.pow radix e.natAbs) d, left)
    match body with
    | '0' :: x :: rest =>
      if x = 'x' || x = 'X' then
        match number 16 2 ['p', 'P'] rest with
        | some found => some found
        | none => some (.finite negative 0 1, x :: rest)
      else number 10 10 ['e', 'E'] body
    | _ => number 10 10 ['e', 'E'] body

/-! ## Writing -/

/-- The digits of a number, at least `width` of them. -/
def zeroFilled (width n : Nat) : List Char :=
  let digits := Nat.toDigits 10 n
  List.replicate (width - digits.length) '0' ++ digits

/-- A fraction with `places` digits after the point.  `point` keeps the point even
    before nothing. -/
def fixed (places : Nat) (point : Bool) (n d : Nat) : String :=
  let k := Rounding.roundDiv (n * Nat.pow 10 places) d
  let digits := zeroFilled (places + 1) k
  let whole := digits.take (digits.length - places)
  let fraction := digits.drop (digits.length - places)
  String.ofList (whole ++ if places = 0 && !point then [] else '.' :: fraction)

/-- The power of ten of the first digit of a fraction. -/
def decimalExponent (n d : Nat) : Int :=
  if n = 0 then 0
  else if d ≤ n then ((Nat.toDigits 10 (n / d)).length : Int) - 1
  else
    let k := (Nat.toDigits 10 (d / n)).length
    if n * Nat.pow 10 (k - 1) = d then -((k : Int) - 1) else -(k : Int)

/-- A fraction as its first digits, `places` after the point, and the power of ten. -/
def scaled (places : Nat) (n d : Nat) : Nat × Int :=
  let e := decimalExponent n d
  let shift : Int := places - e
  let m := if shift < 0 then Rounding.roundDiv n (d * Nat.pow 10 shift.natAbs)
    else Rounding.roundDiv (n * Nat.pow 10 shift.natAbs) d
  if m = Nat.pow 10 (places + 1) then (m / 10, e + 1) else (m, e)

/-- A fraction with a power of ten after it. -/
def scientific (places : Nat) (point : Bool) (n d : Nat) : String :=
  let (m, e) := scaled places n d
  let digits := zeroFilled (places + 1) m
  let power := zeroFilled 2 e.natAbs
  String.ofList (digits.take 1 ++ (if places = 0 && !point then [] else '.' :: digits.drop 1) ++
    'e' :: (if e < 0 then '-' else '+') :: power)

/-- Digits without zeros at the end of their fraction. -/
def withoutZeros (cs : List Char) : List Char :=
  if !cs.contains '.' then cs
  else
    let cut := (cs.reverse.dropWhile (· = '0'))
    (match cut with
      | '.' :: rest => rest
      | rest => rest).reverse

/-- A fraction with `digits` significant digits, in the shorter of the two forms. -/
def general (digits : Nat) (keep : Bool) (n d : Nat) : String :=
  let p := max digits 1
  let (_, e) := scaled (p - 1) n d
  if -4 ≤ e ∧ e < p then
    let text := (fixed (p - 1 - e).toNat keep n d).toList
    String.ofList (if keep then text else withoutZeros text)
  else
    let text := (scientific (p - 1) keep n d).toList
    let digits := text.takeWhile (· ≠ 'e')
    String.ofList ((if keep then digits else withoutZeros digits) ++ text.dropWhile (· ≠ 'e'))

end Concolic.Text
