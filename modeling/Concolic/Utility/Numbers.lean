import Concolic.Utility.Print
import Concolic.Utility.Reading

/-
  Programs about numbers and time: sequences, waiting.
-/

namespace Concolic.Utility

/-! ## Sequences -/

/-- A number of a sequence: a whole number of units of a power of ten. -/
structure SeqNumber where
  value : Int
  /-- How many digits are after the point. -/
  places : Nat
  /-- How many characters it has. -/
  width : Nat

/-- A number with its places. -/
def seqNumber? (text : String) : Option SeqNumber :=
  let cs := text.toList
  let (negative, body) := match cs with
    | '-' :: rest => (true, rest)
    | '+' :: rest => (false, rest)
    | _ => (false, cs)
  let whole := body.takeWhile Char.isDigit
  let rest := body.drop whole.length
  let (fraction, rest) := match rest with
    | '.' :: more => (more.takeWhile Char.isDigit, more.dropWhile Char.isDigit)
    | _ => ([], rest)
  if whole.isEmpty && fraction.isEmpty then none
  else
    let n := (Text.ofDigits? 10 (whole ++ fraction)).getD 0
    let sign : Int := if negative then -1 else 1
    match rest with
    | [] =>
      some ⟨sign * n, fraction.length,
        (if negative then 1 else 0) + max 1 whole.length +
          (if fraction.isEmpty then 0 else fraction.length + 1)⟩
    | mark :: exponent =>
      if mark ≠ 'e' && mark ≠ 'E' then none
      else match Text.signed? (match exponent with
          | '+' :: ds => ds
          | ds => ds) with
        | none => none
        | some e =>
          let shift := e - fraction.length
          if 0 ≤ shift then
            let v := sign * n * Int.pow 10 shift.toNat
            some ⟨v, 0, (Text.ofInt v).length⟩
          else some ⟨sign * n, (-shift).toNat, text.length⟩

def decimalText (value : Int) (places : Nat) : String :=
  let n := value.natAbs
  let sign := if value < 0 then "-" else ""
  if places = 0 then sign ++ Nat.repr n
  else
    let unit := Nat.pow 10 places
    sign ++ Nat.repr (n / unit) ++ "." ++ String.ofList (Text.zeroFilled places (n % unit))

/-- The numbers up to the last. -/
def seqValues (step last : Int) (acc : List Int) : (fuel : Nat) → Int → List Int
  | 0, _ => acc.reverse
  | fuel + 1, v =>
    if (0 < step && last < v) || (step < 0 && v < last) then acc.reverse
    else seqValues step last (v :: acc) fuel (v + step)

/-- The arguments with a mark before a negative number that would be taken for an option. -/
def markNegative : List String → List String
  | [] => []
  | "-s" :: text :: rest => "-s" :: text :: markNegative rest
  | "-f" :: text :: rest => "-f" :: text :: markNegative rest
  | a :: rest =>
    match a.toList with
    | '-' :: d :: _ => if d.isDigit || d = '.' then "--" :: a :: rest else a :: markNegative rest
    | _ => a :: rest

def seq (c : Call) : Effect :=
  let options := Options.ofLetters "w" "sf"
    [("separator", 's', .yes), ("equal-width", 'w', .no), ("format", 'f', .yes)]
  match readLeadingOptions options (markNegative c.args) with
  | .error e => c.misuse 1 e
  | .ok (given, operands) =>
    if operands.isEmpty then c.misuse 1 "missing operand"
    else if operands.length > 3 then c.misuse 1
      ("extra operand " ++ quotedPlainly (operands.getD 3 ""))
    else match operands.find? fun a => (seqNumber? a).isNone with
      | some bad => c.misuse 1 ("invalid floating point argument: " ++ quotedPlainly bad)
      | none =>
        let numbers := operands.filterMap seqNumber?
        let one : SeqNumber := ⟨1, 0, 1⟩
        let (first, step, last) := match numbers with
          | [b] => (one, one, b)
          | [a, b] => (a, one, b)
          | [a, s, b] => (a, s, b)
          | _ => (one, one, one)
        if step.value = 0 then
          c.misuse 1 ("invalid Zero increment value: " ++ quotedPlainly (operands.getD 1 ""))
        else
          let shownPlaces := max first.places step.places
          let places := max shownPlaces last.places
          let scale := fun (n : SeqNumber) => n.value * Int.pow 10 (places - n.places)
          let a := scale first
          let s := scale step
          let b := scale last
          let count := ((b - a).natAbs / s.natAbs) + 2
          let values := seqValues s b [] count a
          let plain := fun (v : Int) => decimalText
            (v / Int.pow 10 (places - shownPlaces)) shownPlaces
          let texts := match valueOf? given 'f' with
            | some form => values.map fun v => (format .program form [decimalText v places]).text
            | none =>
              let texts := values.map plain
              if has given 'w' then
                let pointed := fun (n : SeqNumber) => n.width - n.places -
                  (if n.places = 0 then 0 else 1)
                let width := max (pointed first) (pointed last) +
                  (if shownPlaces = 0 then 0 else shownPlaces + 1)
                let width := texts.foldl (fun n t => max n t.length) width
                texts.map fun t =>
                  let (sign, digits) := match t.toList with
                    | '-' :: ds => (['-'], ds)
                    | ds => ([], ds)
                  String.ofList (sign ++ List.replicate (width - t.length) '0' ++ digits)
              else texts
          let separator := (valueOf? given 's').getD "\n"
          if texts.isEmpty then c.idle else c.print (separator.intercalate texts ++ "\n")

/-- How many lines `yes` prints before it is clear that it goes on for ever. -/
def manyLines : Nat := 50000

def yesText (args : List String) : String :=
  let line := (if args.isEmpty then "y" else " ".intercalate args) ++ "\n"
  String.join (List.replicate manyLines line)

/-! ## Time -/

/-- The milliseconds of an interval such as `5`, `0.25` or `1.5m`. -/
def interval? (text : String) : Option Nat :=
  let cs := text.toList
  let (number, unit) : List Char × Option Nat := match cs.getLast? with
    | some 's' => (cs.dropLast, some 1)
    | some 'm' => (cs.dropLast, some 60)
    | some 'h' => (cs.dropLast, some 3600)
    | some 'd' => (cs.dropLast, some 86400)
    | _ => (cs, some 1)
  match Text.readFraction number, unit with
  | some (.finite false n d, []), some u => if d = 0 then none else some (n * u * 1000 / d)
  | some (.infinite false, []), _ => some (Nat.pow 10 15)
  | _, _ => none

def sleep (c : Call) : Effect :=
  c.withOptions (Options.ofLetters "" "" []) fun _ operands =>
    if operands.isEmpty then c.misuse 1 "missing operand"
    else
      let bad := operands.filter fun a => (interval? a).isNone
      match bad with
      | [] => { c.idle with wait := (operands.filterMap interval?).foldl (· + ·) 0 }
      | _ =>
        let complained := bad.foldl (fun e a =>
          e.complain 1 (c.name ++ ": invalid time interval " ++ quotedPlainly a)) c.idle
        complained.complain 1 ("Try '" ++ c.name ++ " --help' for more information.")

end Concolic.Utility
