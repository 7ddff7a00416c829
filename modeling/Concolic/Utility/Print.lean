import Concolic.Text.Fraction
import Concolic.Utility.Basic

/-
  Printing texts and numbers: `echo` and `printf`.

  A format is used again and again until the arguments are used up; missing arguments count as
  empty.
-/

namespace Concolic.Utility

open Concolic.Text (encode)

/-- Which program or command is meant. -/
inductive Flavor where
  | program
  /-- The command of the common command language. -/
  | plain
  /-- The command of the extended command language. -/
  | extended
  deriving DecidableEq, Repr

/-! ## Backslash sequences -/

def isOctal (c : Char) : Bool := '0' ≤ c && c ≤ '7'

/-- The character of some digits. -/
def octalChar (n : Nat) (cs : List Char) : Char × List Char :=
  let digits := (cs.take n).takeWhile isOctal
  (Char.ofNat (((Text.ofDigits? 8 digits).getD 0) % 256), cs.drop digits.length)

/-- The character of up to `n` hexadecimal digits, and what follows them; none without a digit. -/
def hexChar? (n : Nat) (cs : List Char) : Option (Nat × List Char) :=
  let digits := (cs.take n).takeWhile fun c => (Text.hexValue? c).isSome
  (Text.ofDigits? 16 digits).map fun v => (v, cs.drop digits.length)

/-- What a backslash sequence stands for, after the backslash, and what follows it; none if it is
    none. -/
def simpleEscape? (flavor : Flavor) : List Char → Option (String × List Char)
  | 'a' :: rest => some ("\x07", rest)
  | 'b' :: rest => some ("\x08", rest)
  | 'e' :: rest => some ("\x1b", rest)
  | 'f' :: rest => some ("\x0c", rest)
  | 'n' :: rest => some ("\n", rest)
  | 'r' :: rest => some ("\r", rest)
  | 't' :: rest => some ("\t", rest)
  | 'v' :: rest => some ("\x0b", rest)
  | '\\' :: rest => some ("\\", rest)
  | 'x' :: rest =>
    if flavor = .plain then none
    else (hexChar? 2 rest).map fun (v, after) => (String.singleton (Char.ofNat v), after)
  | 'u' :: rest =>
    if flavor = .plain then none
    else (hexChar? 4 rest).map fun (v, after) => (encode (String.singleton (Char.ofNat v)), after)
  | 'U' :: rest =>
    if flavor = .plain then none
    else (hexChar? 8 rest).map fun (v, after) => (encode (String.singleton (Char.ofNat v)), after)
  | _ => none

/-- A text with its backslash sequences replaced; `\c` ends it.  The flag says that it did not. -/
def unescape (flavor : Flavor) (echo : Bool) (acc : String) :
    (fuel : Nat) → List Char → String × Bool
  | 0, _ => (acc, true)
  | _ + 1, [] => (acc, true)
  | fuel + 1, '\\' :: rest =>
    match rest with
    | 'c' :: _ => (acc, false)
    | '0' :: rest =>
      let (c, after) := octalChar 3 rest
      unescape flavor echo (acc.push c) fuel after
    | d :: more =>
      if isOctal d && !(echo && flavor = .extended) then
        let (c, after) := octalChar 3 (d :: more)
        unescape flavor echo (acc.push c) fuel after
      else match simpleEscape? flavor rest with
        | some (s, after) => unescape flavor echo (acc ++ s) fuel after
        | none =>
          if !echo && flavor ≠ .plain && (d = '"' || d = '\'') then
            unescape flavor echo (acc.push d) fuel more
          else unescape flavor echo (acc.push '\\') fuel rest
    | [] => (acc.push '\\', true)
  | fuel + 1, c :: rest => unescape flavor echo (acc.push c) fuel rest

/-! ## Printing arguments -/

def echoText (flavor : Flavor) (escapes newline : Bool) (args : List String) : String :=
  let text := " ".intercalate args
  let ending := if newline then "\n" else ""
  if escapes then
    match unescape flavor true "" (text.length + 1) text.toList with
    | (s, true) => s ++ ending
    | (s, false) => s
  else text ++ ending

/-- The arguments after the options. -/
def echoWithOptions (flavor : Flavor) (escapes newline : Bool) : List String → String
  | arg :: rest =>
    match arg.toList with
    | '-' :: c :: letters =>
      if (c :: letters).all fun c => c = 'n' || c = 'e' || c = 'E' then
        let last := (c :: letters).reverse.find? fun c => c = 'e' || c = 'E'
        echoWithOptions flavor (last.elim escapes (· = 'e'))
          (newline && !(c :: letters).contains 'n') rest
      else echoText flavor escapes newline (arg :: rest)
    | _ => echoText flavor escapes newline (arg :: rest)
  | [] => echoText flavor escapes newline []

/-- What `echo` prints.  In the common command language it knows `-n` only and always reads
    backslash sequences. -/
def echo : Flavor → List String → String
  | .plain, "-n" :: rest => echoText .plain true false rest
  | .plain, args => echoText .plain true true args
  | flavor, args => echoWithOptions flavor false true args

/-! ## Directives of a format -/

/-- How a value is printed. -/
structure Directive where
  flags : List Char
  width : Option Nat
  precision : Option Nat

def Directive.pad (d : Directive) (text : String) : String :=
  let fill := String.ofList (List.replicate (d.width.getD 0 - text.length) ' ')
  if d.flags.contains '-' then text ++ fill else fill ++ text

/-- A number with its sign, padded to the width, with zeros if asked for. -/
def Directive.padNumber (d : Directive) (sign body : String) (zeros : Bool) : String :=
  if zeros && d.flags.contains '0' && !d.flags.contains '-' then
    sign ++ String.ofList (List.replicate (d.width.getD 0 - sign.length - body.length) '0') ++ body
  else d.pad (sign ++ body)

def Directive.sign (d : Directive) (negative : Bool) : String :=
  if negative then "-"
  else if d.flags.contains '+' then "+"
  else if d.flags.contains ' ' then " "
  else ""

def Directive.digits (d : Directive) (base n : Nat) : String :=
  let ds := if n = 0 && d.precision = some 0 then [] else Nat.toDigits base n
  String.ofList (List.replicate (d.precision.getD 1 - ds.length) '0' ++ ds)

def Directive.decimal (d : Directive) (v : Int) : String :=
  d.padNumber (d.sign (v < 0)) (d.digits 10 v.natAbs) d.precision.isNone

def Directive.unsigned (d : Directive) (conversion : Char) (n : Nat) : String :=
  let alternate := d.flags.contains '#'
  match conversion with
  | 'o' =>
    let body := d.digits 8 n
    let body := if alternate && body.toList.head? ≠ some '0' then "0" ++ body else body
    d.padNumber "" body d.precision.isNone
  | 'x' => d.padNumber (if alternate && n ≠ 0 then "0x" else "") (d.digits 16 n) d.precision.isNone
  | 'X' =>
    d.padNumber (if alternate && n ≠ 0 then "0X" else "")
      (String.ofList ((d.digits 16 n).toList.map Text.toUpper)) d.precision.isNone
  | _ => d.padNumber "" (d.digits 10 n) d.precision.isNone

def Directive.fraction (d : Directive) (conversion : Char) (v : Text.Fraction) : String :=
  let small := Text.toLower conversion
  let upper := conversion ≠ small
  let letters := fun s : String => if upper then String.ofList (s.toList.map Text.toUpper) else s
  match v with
  | .finite s n den =>
    let alternate := d.flags.contains '#'
    let places := d.precision.getD 6
    let body := match small with
      | 'f' => Text.fixed places alternate n den
      | 'e' => Text.scientific places alternate n den
      | _ => Text.general places alternate n den
    d.padNumber (d.sign s) (letters body) true
  | .infinite s => d.pad (d.sign s ++ letters "inf")
  | .undefined s => d.pad (d.sign s ++ letters "nan")

/-! ## Numbers among the arguments -/

/-- What is wrong with an argument that should be a number. -/
inductive NumberFault where
  | none
  | notNumber
  | trailing
  | range
  deriving DecidableEq

/-- The whole number that a text starts with, with a sign, in base 8, 10 or 16. -/
def readInteger (text : String) : Int × NumberFault :=
  let cs := text.toList.dropWhile fun c => c = ' ' || ('\t' ≤ c && c ≤ '\r')
  let (negative, body) := match cs with
    | '-' :: r => (true, r)
    | '+' :: r => (false, r)
    | _ => (false, cs)
  let isHex := fun c : Char => (Text.hexValue? c).isSome
  let (base, digits, rest) := match body with
    | '0' :: x :: h :: more =>
      if (x = 'x' || x = 'X') && isHex h then
        (16, (h :: more).takeWhile isHex, (h :: more).dropWhile isHex)
      else (8, '0' :: (x :: h :: more).takeWhile isOctal, (x :: h :: more).dropWhile isOctal)
    | '0' :: more => (8, '0' :: more.takeWhile isOctal, more.dropWhile isOctal)
    | _ => (10, body.takeWhile Char.isDigit, body.dropWhile Char.isDigit)
  match Text.ofDigits? base digits with
  | none => (0, .notNumber)
  | some n => (if negative then -(n : Int) else n, if rest.isEmpty then .none else .trailing)

/-- A number brought into range. -/
def clampSigned (v : Int) : Int × Bool :=
  if v < -Int.pow 2 63 then (-Int.pow 2 63, true)
  else if v > Int.pow 2 63 - 1 then (Int.pow 2 63 - 1, true)
  else (v, false)

/-- The value as an unsigned number of 64 bits; negative ones wrap around. -/
def clampUnsigned (v : Int) : Nat × Bool :=
  if v.natAbs ≥ Text.limit64 then (Text.limit64 - 1, true)
  else if v < 0 then (Text.limit64 - v.natAbs, false)
  else (v.natAbs, false)

/-! ## Formats -/

/-- How far a format is printed. -/
structure Printing where
  text : String
  args : List String
  complaints : List String
  status : Nat
  stopped : Bool

def Printing.next (p : Printing) : Option String × Printing :=
  (p.args.head?, { p with args := p.args.tail })

def Printing.complain (p : Printing) (text : String) : Printing :=
  { p with complaints := text :: p.complaints, status := 1 }

/-- Notes what is wrong with a number. -/
def Printing.note (p : Printing) (flavor : Flavor) (arg : String) : NumberFault → Printing
  | .none => p
  | .notNumber => match flavor with
    | .program => p.complain (quotedPlainly arg ++ ": expected a numeric value")
    | .plain => if arg = "" then p else p.complain (arg ++ ": expected numeric value")
    | .extended => p.complain (arg ++ ": invalid number")
  | .trailing => match flavor with
    | .program => p.complain (quotedPlainly arg ++ ": value not completely converted")
    | .plain => p.complain (arg ++ ": not completely converted")
    | .extended => p.complain (arg ++ ": invalid number")
  | .range =>
    p.complain ((if flavor = .program then quotedPlainly arg else arg) ++
      ": Numerical result out of range")

/-- The number of a quoted character. -/
def quotedCode? (arg : String) : Option Int :=
  match arg.toList with
  | '\'' :: c :: _ => some c.toNat
  | '"' :: c :: _ => some c.toNat
  | ['\''] => some 0
  | ['"'] => some 0
  | _ => none

def Printing.integer (p : Printing) (flavor : Flavor) (signed : Bool) : Int × Printing :=
  match p.next with
  | (none, p) => (0, p)
  | (some arg, p) =>
    match quotedCode? arg with
    | some code => (code, p)
    | none =>
      let (v, fault) := readInteger arg
      let (v, beyond) := if signed then clampSigned v
        else let (n, beyond) := clampUnsigned v; ((n : Int), beyond)
      (v, p.note flavor arg (if fault ≠ .none then fault else if beyond then .range else .none))

def Printing.fraction (p : Printing) (flavor : Flavor) : Text.Fraction × Printing :=
  match p.next with
  | (none, p) => (.zero, p)
  | (some arg, p) =>
    match quotedCode? arg with
    | some code => (.ofInt code, p)
    | none =>
      match Text.readFraction arg.toList with
      | none => (.zero, p.note flavor arg .notNumber)
      | some (v, rest) =>
        (v.nearest (if flavor = .plain then 53 else 64),
          p.note flavor arg (if rest.isEmpty then .none else .trailing))

/-- A number that belongs to a directive: digits, or a star for the next argument. -/
def readMeasure (flavor : Flavor) (p : Printing) (cs : List Char) :
    Option Int × List Char × Printing :=
  match cs with
  | '*' :: rest =>
    let (v, p) := p.integer flavor true
    (some v, rest, p)
  | _ =>
    let digits := cs.takeWhile Char.isDigit
    ((Text.ofDigits? 10 digits).map (fun n => (n : Int)), cs.drop digits.length, p)

/-- A text between quotes, so that the extended command language reads it back. -/
def reusable (text : String) : String :=
  if text = "" then "''"
  else if text.toList.any fun c => !isPrintable c then
    "$'" ++ String.join (text.toList.map fun c =>
      if c = '\'' || c = '\\' then "\\" ++ String.singleton c
      else if isPrintable c then String.singleton c else escapeOf c) ++ "'"
  else String.join (text.toList.map fun c =>
    if c.isAlphanum || "_-./,:@%+".toList.contains c then String.singleton c
    else "\\" ++ String.singleton c)

/-- Prints the argument for one directive.  `source` is its text for complaints. -/
def Printing.convert (p : Printing) (flavor : Flavor) (d : Directive) (conversion : Char)
    (source : String) : Printing :=
  match conversion with
  | 's' =>
    let (arg, p) := p.next
    let s := arg.getD ""
    let s := match d.precision with
      | some n => String.ofList (s.toList.take n)
      | none => s
    { p with text := p.text ++ d.pad s }
  | 'b' =>
    let (arg, p) := p.next
    let s := arg.getD ""
    let (s, whole) := unescape flavor false "" (s.length + 1) s.toList
    let s := match d.precision with
      | some n => String.ofList (s.toList.take n)
      | none => s
    { p with text := p.text ++ d.pad s, stopped := !whole }
  | 'q' =>
    if flavor = .plain then
      { p with complaints := (source ++ ": invalid directive") :: p.complaints, status := 2,
               stopped := true }
    else
      let (arg, p) := p.next
      let s := arg.getD ""
      { p with text := p.text ++ d.pad (if flavor = .program then shown s else reusable s) }
  | 'c' =>
    let (arg, p) := p.next
    let s := match (arg.getD "").toList with
      | c :: _ => String.singleton c
      | [] => if flavor = .extended then "" else "\x00"
    { p with text := p.text ++ d.pad s }
  | c =>
    if c = 'd' || c = 'i' then
      let (v, p) := p.integer flavor true
      { p with text := p.text ++ d.decimal v }
    else if c = 'o' || c = 'u' || c = 'x' || c = 'X' then
      let (v, p) := p.integer flavor false
      { p with text := p.text ++ d.unsigned c v.natAbs }
    else if "eEfFgG".toList.contains c then
      let (v, p) := p.fraction flavor
      { p with text := p.text ++ d.fraction c v }
    else
      let complaint := match flavor with
        | .plain => source ++ ": invalid directive"
        | .program => source ++ ": invalid conversion specification"
        | .extended => "\x60" ++ String.singleton c ++ "': invalid format character"
      { p with complaints := complaint :: p.complaints, status := if flavor = .plain then 2 else 1,
               stopped := true }

/-- Prints the format once. -/
def Printing.pass (flavor : Flavor) (p : Printing) : (fuel : Nat) → List Char → Printing
  | 0, _ => p
  | _ + 1, [] => p
  | fuel + 1, '%' :: '%' :: rest => pass flavor { p with text := p.text.push '%' } fuel rest
  | fuel + 1, '%' :: rest =>
    let flags := rest.takeWhile fun c => "#-+ 0".toList.contains c
    let (width, after, p) := readMeasure flavor p (rest.drop flags.length)
    let (flags, width) := match width with
      | some w => (if w < 0 then '-' :: flags else flags, some w.natAbs)
      | none => (flags, none)
    let (precision, after, p) : Option Nat × List Char × Printing := match after with
      | '.' :: more =>
        match readMeasure flavor p more with
        | (some v, after, p) => (if v < 0 then none else some v.natAbs, after, p)
        | (none, after, p) => (some 0, after, p)
      | _ => (none, after, p)
    let after := if flavor = .plain then after
      else after.dropWhile fun c => "hlLjzt".toList.contains c
    match after with
    | [] =>
      let complaint := match flavor with
        | .plain => "missing format character"
        | .program => "%" ++ String.ofList rest ++ ": invalid conversion specification"
        | .extended => "\x60%': missing format character"
      { p with complaints := complaint :: p.complaints, status := if flavor = .plain then 2 else 1,
               stopped := true }
    | conversion :: after =>
      let source := "%" ++ String.ofList (rest.take (rest.length - after.length))
      let p := p.convert flavor ⟨flags, width, precision⟩ conversion source
      if p.stopped then p else pass flavor p fuel after
  | fuel + 1, '\\' :: rest =>
    match rest with
    | 'c' :: more =>
      if flavor = .plain then pass flavor { p with text := p.text ++ "\\c" } fuel more
      else { p with stopped := true }
    | d :: _ =>
      if isOctal d then
        let (c, after) := octalChar 3 rest
        pass flavor { p with text := p.text.push c } fuel after
      else match simpleEscape? flavor rest with
        | some (s, after) => pass flavor { p with text := p.text ++ s } fuel after
        | none =>
          if flavor ≠ .plain && (d = '"' || (d = '\'' && flavor = .extended)) then
            pass flavor { p with text := p.text.push d } fuel (rest.drop 1)
          else pass flavor { p with text := p.text.push '\\' } fuel rest
    | [] => { p with text := p.text.push '\\' }
  | fuel + 1, c :: rest => pass flavor { p with text := p.text.push c } fuel rest

/-- Prints the format until the arguments are used up. -/
def Printing.passes (flavor : Flavor) (format : List Char) : (fuel : Nat) → Printing → Printing
  | 0, p => p
  | fuel + 1, p =>
    let after := p.pass flavor (format.length + 1) format
    if after.stopped || after.args.isEmpty || after.args.length = p.args.length then after
    else Printing.passes flavor format fuel after

def format (flavor : Flavor) (format : String) (args : List String) : Printing :=
  let p := Printing.passes flavor format.toList (args.length + 1) ⟨"", args, [], 0, false⟩
  if flavor = .program && !p.stopped && !p.args.isEmpty then
    { p with complaints :=
        ("warning: ignoring excess arguments, starting with " ++ quotedPlainly (p.args.headD "")) ::
          p.complaints }
  else p

def printf (c : Call) : Effect :=
  let args := match c.args with
    | "--" :: rest => rest
    | args => args
  match args with
  | [] => c.misuse 1 "missing operand"
  | form :: args =>
    let p := format .program form args
    let e := p.complaints.reverse.foldl (fun e text => e.complain e.status (c.name ++ ": " ++ text))
      c.idle
    { e.say p.text with status := p.status }

end Concolic.Utility
