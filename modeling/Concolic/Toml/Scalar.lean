import Concolic.Calendar
import Concolic.Text.Decimal

/-
  TOML values other than arrays and tables: texts, numbers, dates and truth values.

  Every reader takes the characters that follow and gives what it read with the rest.  Numbers with
  a fraction or an exponent and dates are recognised but not kept.
-/

namespace Concolic.Toml

/-- A value.  A table is the list of its entries, each under the names that lead to it. -/
inductive Value where
  | text (s : String)
  | integer (i : Int)
  | real
  | boolean (b : Bool)
  | moment
  | array (items : List Value)
  | table (entries : List (List String × Value))

/-- The blanks inside a line. -/
def isSpace (c : Char) : Bool := c = ' ' || c = '\t'

/-- A character that may stand in a comment or a text as it is: no control character but a tab. -/
def isPlain (c : Char) : Bool := c = '\t' || (' ' ≤ c && c ≤ '~') || '\x80' ≤ c

/-! ## Texts -/

/-- The character with a given number, unless it is a surrogate or too large. -/
def scalar? (digits : List Char) : Option Char :=
  match Text.ofDigits? 16 digits with
  | some n => if n.isValidChar then some (Char.ofNat n) else none
  | none => none

/-- The character that a letter after a backslash stands for. -/
def unescape? (c : Char) : Option Char :=
  match c with
  | 'b' => some '\x08'
  | 't' => some '\t'
  | 'n' => some '\n'
  | 'f' => some '\x0c'
  | 'r' => some '\r'
  | '"' => some '"'
  | '\\' => some '\\'
  | _ => none

/-- Reads a text up to its closing quote; `acc` holds its characters, last first. -/
def readBasic (acc : List Char) : List Char → Option (String × List Char)
  | '"' :: rest => some (String.ofList acc.reverse, rest)
  | '\\' :: 'u' :: a :: b :: c :: d :: rest =>
    match scalar? [a, b, c, d] with
    | some x => readBasic (x :: acc) rest
    | none => none
  | '\\' :: 'U' :: a :: b :: c :: d :: e :: f :: g :: h :: rest =>
    match scalar? [a, b, c, d, e, f, g, h] with
    | some x => readBasic (x :: acc) rest
    | none => none
  | '\\' :: c :: rest =>
    match unescape? c with
    | some x => readBasic (x :: acc) rest
    | none => none
  | c :: rest => if isPlain c then readBasic (c :: acc) rest else none
  | [] => none

/-- Reads a literal text up to its closing quote. -/
def readLiteral (cs : List Char) : Option (String × List Char) :=
  let inner := cs.takeWhile fun c => isPlain c && c ≠ '\''
  match cs.dropWhile fun c => isPlain c && c ≠ '\'' with
  | '\'' :: rest => some (String.ofList inner, rest)
  | _ => none

/-- After the backslash at the end of a line: blanks up to the end of the line come next. -/
def endsLine (cs : List Char) : Bool :=
  match cs.dropWhile isSpace with
  | '\n' :: _ => true
  | '\r' :: '\n' :: _ => true
  | _ => false

/-- Reads a text over several lines, up to three quotes; one or two more quotes before them belong
    to the text.  `skipping` says that a backslash ended the line, so that blanks and line ends are
    dropped. -/
def readBasicLines (acc : List Char) (skipping : Bool) : List Char → Option (String × List Char)
  | '"' :: '"' :: '"' :: '"' :: '"' :: rest =>
      some (String.ofList ('"' :: '"' :: acc).reverse, rest)
  | '"' :: '"' :: '"' :: '"' :: rest => some (String.ofList ('"' :: acc).reverse, rest)
  | '"' :: '"' :: '"' :: rest => some (String.ofList acc.reverse, rest)
  | '\\' :: 'u' :: a :: b :: c :: d :: rest =>
    match scalar? [a, b, c, d] with
    | some x => readBasicLines (x :: acc) false rest
    | none => none
  | '\\' :: 'U' :: a :: b :: c :: d :: e :: f :: g :: h :: rest =>
    match scalar? [a, b, c, d, e, f, g, h] with
    | some x => readBasicLines (x :: acc) false rest
    | none => none
  | '\\' :: c :: rest =>
    if endsLine (c :: rest) then
      if c = '\r' then readBasicLines acc true (c :: rest).tail
      else readBasicLines acc true rest
    else match unescape? c with
      | some x => readBasicLines (x :: acc) false rest
      | none => none
  | '\r' :: '\n' :: rest => readBasicLines (if skipping then acc else '\n' :: acc) skipping rest
  | c :: rest =>
    if skipping && (isSpace c || c = '\n') then readBasicLines acc true rest
    else if isPlain c || c = '\n' then readBasicLines (c :: acc) false rest
    else none
  | [] => none

/-- Reads a literal text over several lines, up to three quotes; one or two more quotes before
    them belong to the text. -/
def readLiteralLines (acc : List Char) : List Char → Option (String × List Char)
  | '\'' :: '\'' :: '\'' :: '\'' :: '\'' :: rest =>
    some (String.ofList ('\'' :: '\'' :: acc).reverse, rest)
  | '\'' :: '\'' :: '\'' :: '\'' :: rest => some (String.ofList ('\'' :: acc).reverse, rest)
  | '\'' :: '\'' :: '\'' :: rest => some (String.ofList acc.reverse, rest)
  | '\r' :: '\n' :: rest => readLiteralLines ('\n' :: acc) rest
  | c :: rest => if isPlain c || c = '\n' then readLiteralLines (c :: acc) rest else none
  | [] => none

/-- The characters after a line end right at the start, which a text over several lines drops. -/
def dropLineEnd : List Char → List Char
  | '\n' :: rest => rest
  | '\r' :: '\n' :: rest => rest
  | cs => cs

/-- A text in one of its four forms. -/
def readText : List Char → Option (String × List Char)
  | '"' :: '"' :: '"' :: rest => readBasicLines [] false (dropLineEnd rest)
  | '\'' :: '\'' :: '\'' :: rest => readLiteralLines [] (dropLineEnd rest)
  | '"' :: rest => readBasic [] rest
  | '\'' :: rest => readLiteral rest
  | _ => none

/-! ## Dates -/

/-- What a reader found: its own form, another one, or its own form with a mistake in it. -/
inductive Attempt (α : Type) where
  | found (value : α) (rest : List Char)
  | other
  | broken

/-- Two digits, for a number between `lo` and `hi`. -/
def twoDigits? (lo hi : Nat) : List Char → Option (Nat × List Char)
  | a :: b :: rest =>
    match Text.digitValue? a, Text.digitValue? b with
    | some x, some y =>
      let n := 10 * x + y
      if lo ≤ n ∧ n ≤ hi then some (n, rest) else none
    | _, _ => none
  | _ => none

/-- A character that has to come next. -/
def expect? (c : Char) : List Char → Option (List Char)
  | x :: rest => if x = c then some rest else none
  | [] => none

/-- A dot and the digits after it, if they are there. -/
def skipFraction : List Char → List Char
  | '.' :: c :: rest =>
    if Text.isDigit c then rest.dropWhile Text.isDigit else '.' :: c :: rest
  | cs => cs

/-- A time of the day.  Two digits and a colon settle that it is one. -/
def readTime (cs : List Char) : Attempt Unit :=
  match twoDigits? 0 23 cs with
  | some (_, ':' :: rest) =>
    match (do
      let (_, rest) ← twoDigits? 0 59 rest
      let rest ← expect? ':' rest
      let (_, rest) ← twoDigits? 0 60 rest
      some (skipFraction rest)) with
    | some rest => .found () rest
    | none => .broken
  | _ => .other

/-- An optional offset from universal time. -/
def readOffset : List Char → Option (List Char)
  | 'Z' :: rest => some rest
  | 'z' :: rest => some rest
  | c :: rest =>
    if c = '+' ∨ c = '-' then do
      let (_, rest) ← twoDigits? 0 23 rest
      let rest ← expect? ':' rest
      let (_, rest) ← twoDigits? 0 59 rest
      some rest
    else some (c :: rest)
  | [] => some []

/-- What may follow a date: a time, with an optional offset. -/
def readAfterDate (cs : List Char) : Option (List Char) :=
  match cs with
  | c :: rest =>
    if c = 'T' ∨ c = 't' ∨ c = ' ' then
      match readTime rest with
      | .found _ rest => readOffset rest
      | .other => some cs
      | .broken => none
    else some cs
  | [] => some []

/-- The rest of a date after its year and the first dash. -/
def readMonthDay (year : Nat) (cs : List Char) : Option (List Char) := do
  let (month, rest) ← twoDigits? 1 12 cs
  let rest ← expect? '-' rest
  let (day, rest) ← twoDigits? 1 31 rest
  if day ≤ Calendar.monthLength year month then readAfterDate rest else none

/-- A date, a time, or both.  Four digits and a dash settle that it is a date. -/
def readMoment (cs : List Char) : Attempt Unit :=
  match cs with
  | a :: b :: c :: d :: '-' :: rest =>
    match Text.ofDigits? 10 [a, b, c, d] with
    | some year =>
      match readMonthDay year rest with
      | some rest => .found () rest
      | none => .broken
    | none => readTime cs
  | _ => readTime cs

/-! ## Numbers -/

/-- The digits of a number in base `base` that single underscores may part; an underscore that no
    digit follows is a mistake.  Gives the digits without underscores. -/
def readDigits (base : Nat) (acc : List Char) : List Char → Option (List Char × List Char)
  | '_' :: c :: rest =>
    match Text.hexValue? c with
    | some d => if d < base then readDigits base (c :: acc) rest else none
    | none => none
  | '_' :: [] => none
  | c :: rest =>
    match Text.hexValue? c with
    | some d => if d < base then readDigits base (c :: acc) rest else some (acc.reverse, c :: rest)
    | none => some (acc.reverse, c :: rest)
  | [] => some (acc.reverse, [])

/-- Digits, at least one. -/
def readRun (base : Nat) (cs : List Char) : Option (List Char × List Char) :=
  match cs with
  | c :: rest =>
    match Text.hexValue? c with
    | some d => if d < base then readDigits base [c] rest else none
    | none => none
  | [] => none

/-- An optional sign: is the number negative, and what follows. -/
def readSign : List Char → Bool × List Char
  | '+' :: rest => (false, rest)
  | '-' :: rest => (true, rest)
  | cs => (false, cs)

/-- The whole part of a decimal number: a single zero, or digits that do not start with one. -/
def readWhole : List Char → Option (List Char × List Char)
  | '0' :: rest => some (['0'], rest)
  | cs => readRun 10 cs

/-- The exponent, if there is one. -/
def readExponent (cs : List Char) : Option (Option Int × List Char) :=
  match cs with
  | c :: rest =>
    if c = 'e' ∨ c = 'E' then do
      let (negative, rest) := readSign rest
      let (digits, rest) ← readRun 10 rest
      let n ← Text.ofDigits? 10 digits
      some (some (if negative then -(n : Int) else n), rest)
    else some (none, cs)
  | [] => some (none, [])

/-- The digits after the point, if there is one. -/
def readFraction (cs : List Char) : Option (Option (List Char) × List Char) :=
  match cs with
  | '.' :: rest => do
    let (digits, rest) ← readRun 10 rest
    some (some digits, rest)
  | _ => some (none, cs)

/-- The least number that is nearer to 2^1024 than to any smaller double-precision number. -/
def overflowBound : Nat := Nat.pow 2 1024 - Nat.pow 2 970

/-- `digits · 10^exponent` is too large for a double-precision number. -/
def overflows (digits : List Char) (exponent : Int) : Bool :=
  let significant := digits.dropWhile (· = '0')
  match Text.ofDigits? 10 significant with
  | none => false
  | some n =>
    let size := significant.length + exponent
    if size < 300 then false
    else if 400 < size then true
    else if 0 ≤ exponent then overflowBound ≤ n * Nat.pow 10 exponent.toNat
    else overflowBound * Nat.pow 10 (-exponent).toNat ≤ n

/-- A number of 64 bits with sign. -/
def inRange (i : Int) : Bool := -Int.pow 2 63 ≤ i && i < Int.pow 2 63

/-- A decimal number after its sign: an integer, or one with a fraction or an exponent. -/
def readDecimal (negative : Bool) (cs : List Char) : Option (Value × List Char) := do
  let (whole, rest) ← readWhole cs
  let (fraction, rest) ← readFraction rest
  let (exponent, rest) ← readExponent rest
  match fraction, exponent with
  | none, none =>
    let n ← Text.ofDigits? 10 whole
    let i : Int := if negative then -(n : Int) else n
    if inRange i then some (.integer i, rest) else none
  | _, _ =>
    let part := fraction.getD []
    if !negative && overflows (whole ++ part) (exponent.getD 0 - part.length) then none
    else some (.real, rest)

/-- A whole number to a base. -/
def readBased (base : Nat) (cs : List Char) : Option (Value × List Char) := do
  let (digits, rest) ← readRun base cs
  let n ← Text.ofDigits? base digits
  if inRange n then some (.integer n, rest) else none

/-- A number that starts with a digit or a sign. -/
def readNumber : List Char → Option (Value × List Char)
  | '0' :: 'x' :: rest => readBased 16 rest
  | '0' :: 'o' :: rest => readBased 8 rest
  | '0' :: 'b' :: rest => readBased 2 rest
  | cs =>
    match readSign cs with
    | (_, 'i' :: 'n' :: 'f' :: rest) => some (.real, rest)
    | (_, 'n' :: 'a' :: 'n' :: rest) => some (.real, rest)
    | (negative, rest) => readDecimal negative rest

/-- A value that is neither array nor table. -/
def readScalar (cs : List Char) : Option (Value × List Char) :=
  match cs with
  | 't' :: 'r' :: 'u' :: 'e' :: rest => some (.boolean true, rest)
  | 'f' :: 'a' :: 'l' :: 's' :: 'e' :: rest => some (.boolean false, rest)
  | c :: _ =>
    if c = '"' ∨ c = '\'' then (readText cs).map fun (s, rest) => (.text s, rest)
    else match readMoment cs with
      | .found _ rest => some (.moment, rest)
      | .broken => none
      | .other => readNumber cs
  | [] => none

end Concolic.Toml
