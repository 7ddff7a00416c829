/-
  Decimal texts of whole numbers.
-/

namespace Concolic.Text

/-- The value of a decimal digit. -/
def digitValue? (c : Char) : Option Nat :=
  if '0' ≤ c ∧ c ≤ '9' then some (c.toNat - 48) else none

/-- The value of a hexadecimal digit, in either case. -/
def hexValue? (c : Char) : Option Nat :=
  if '0' ≤ c ∧ c ≤ '9' then some (c.toNat - 48)
  else if 'a' ≤ c ∧ c ≤ 'f' then some (c.toNat - 87)
  else if 'A' ≤ c ∧ c ≤ 'F' then some (c.toNat - 55)
  else none

def isDigit (c : Char) : Bool := (digitValue? c).isSome

/-- Appends one digit to a number written in base `base`. -/
def pushDigit (base : Nat) (acc : Option Nat) (digit : Option Nat) : Option Nat :=
  match acc, digit with
  | some n, some d => if d < base then some (base * n + d) else none
  | _, _ => none

/-- The number that a run of digits denotes in base `base`, at least one digit. -/
def ofDigits? (base : Nat) (cs : List Char) : Option Nat :=
  if cs = [] then none else cs.foldl (fun acc c => pushDigit base acc (hexValue? c)) (some 0)

/-- Digits with an optional plus sign, for a number below `limit`. -/
def unsigned? (limit : Nat) (cs : List Char) : Option Nat :=
  let digits := match cs with
    | '+' :: rest => rest
    | _ => cs
  match ofDigits? 10 digits with
  | some n => if n < limit then some n else none
  | none => none

/-- Digits with an optional sign of either kind. -/
def signed? (cs : List Char) : Option Int :=
  match cs with
  | '-' :: rest => (ofDigits? 10 rest).map fun n => -(n : Int)
  | '+' :: rest => (ofDigits? 10 rest).map fun n => (n : Int)
  | _ => (ofDigits? 10 cs).map fun n => (n : Int)

/-- Numbers of 32 bits are below this. -/
def limit32 : Nat := Nat.pow 2 32

def limit64 : Nat := Nat.pow 2 64

/-- The decimal text of an integer, a minus sign before negative ones. -/
def ofInt (i : Int) : String :=
  if i < 0 then "-" ++ Nat.repr i.natAbs else Nat.repr i.natAbs

/-- The decimal text of a number, filled with zeros on the left up to `width` digits. -/
def padded (width n : Nat) : String :=
  let digits := Nat.toDigits 10 n
  String.ofList (List.replicate (width - digits.length) '0' ++ digits)

/-- The digit of a number below 16. -/
def hexDigit (n : Nat) : Char :=
  if n < 10 then Char.ofNat (48 + n) else Char.ofNat (87 + n)

end Concolic.Text
