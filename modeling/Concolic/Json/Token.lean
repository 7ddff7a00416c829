import Concolic.Text.Decimal

/-
  JSON texts as tokens.

  A text with a surrogate escape that has no partner denotes no characters; it is a token all the
  same (`brokenText`), because it may stand where nobody looks.  Numbers are kept as written.
-/

namespace Concolic.Json

/-- A value as far as flat records need it: arrays and objects inside one are only recognised. -/
inductive Value where
  | null
  | bool (b : Bool)
  | number (literal : List Char)
  | text (s : String)
  | brokenText
  | nested
  deriving DecidableEq, Repr

/-- The two kinds of brackets. -/
inductive Container where
  | array
  | object
  deriving DecidableEq, Repr

/-- The words of a JSON text. -/
inductive Token where
  | opening (c : Container)
  | closing (c : Container)
  | colon
  | comma
  | value (v : Value)
  deriving DecidableEq, Repr

/-! ## Texts -/

/-- The number that four hexadecimal digits denote. -/
def hex4 (a b c d : Char) : Option Nat := Text.ofDigits? 16 [a, b, c, d]

/-- The first half of a surrogate pair. -/
def isHigh (n : Nat) : Bool := 0xd800 ≤ n && n < 0xdc00

/-- The second half of a surrogate pair. -/
def isLow (n : Nat) : Bool := 0xdc00 ≤ n && n < 0xe000

/-- The character that a pair of units denotes. -/
def ofPair (high low : Nat) : Char :=
  Char.ofNat (0x10000 + (high - 0xd800) * 0x400 + (low - 0xdc00))

/-- The character that a letter after a backslash stands for. -/
def unescape? (c : Char) : Option Char :=
  match c with
  | '"' => some '"'
  | '\\' => some '\\'
  | '/' => some '/'
  | 'b' => some '\x08'
  | 'f' => some '\x0c'
  | 'n' => some '\n'
  | 'r' => some '\r'
  | 't' => some '\t'
  | _ => none

/-- The characters of a text read so far. -/
structure Gathered where
  /-- The characters, last first. -/
  chars : List Char
  /-- The first unit of a pair that waits for the second. -/
  high : Option Nat
  /-- All escapes so far denoted characters. -/
  whole : Bool
  deriving DecidableEq, Repr

namespace Gathered

/-- Nothing gathered yet. -/
def empty : Gathered := ⟨[], none, true⟩

/-- One more character. -/
def push (g : Gathered) (c : Char) : Gathered := ⟨c :: g.chars, none, g.whole && g.high.isNone⟩

/-- One more unit, from an escape by number. -/
def pushUnit (g : Gathered) (n : Nat) : Gathered :=
  if isHigh n then ⟨g.chars, some n, g.whole && g.high.isNone⟩
  else if isLow n then
    match g.high with
    | some high => ⟨ofPair high n :: g.chars, none, g.whole⟩
    | none => ⟨g.chars, none, false⟩
  else g.push (Char.ofNat n)

/-- The text, if all of it is one. -/
def value (g : Gathered) : Value :=
  if g.whole && g.high.isNone then .text (String.ofList g.chars.reverse) else .brokenText

end Gathered

/-- Reads a text up to its closing quote and gives what follows. -/
def readText (g : Gathered) : List Char → Option (Value × List Char)
  | '"' :: rest => some (g.value, rest)
  | '\\' :: 'u' :: a :: b :: c :: d :: rest =>
    match hex4 a b c d with
    | some n => readText (g.pushUnit n) rest
    | none => none
  | '\\' :: c :: rest =>
    match unescape? c with
    | some e => readText (g.push e) rest
    | none => none
  | c :: rest => if c < ' ' then none else readText (g.push c) rest
  | [] => none

/-! ## Numbers -/

/-- What a number can be made of. -/
def isNumberChar (c : Char) : Bool :=
  Text.isDigit c || c = '-' || c = '+' || c = '.' || c = 'e' || c = 'E'

/-- At least one digit and nothing else. -/
def isDigits (cs : List Char) : Bool := !cs.isEmpty && cs.all Text.isDigit

/-- The exponent of a number, or nothing. -/
def isExponent : List Char → Bool
  | [] => true
  | c :: rest =>
    (c = 'e' || c = 'E') &&
      match rest with
      | '+' :: digits => isDigits digits
      | '-' :: digits => isDigits digits
      | digits => isDigits digits

/-- Nothing, or a fraction, and an optional exponent after it. -/
def isFraction : List Char → Bool
  | '.' :: rest => isDigits (rest.takeWhile Text.isDigit) &&
      isExponent (rest.dropWhile Text.isDigit)
  | rest => isExponent rest

/-- A number: digits without superfluous zeros in front, an optional minus sign before them and
    an optional fraction and exponent after them. -/
def isNumber (cs : List Char) : Bool :=
  let cs := match cs with
    | '-' :: rest => rest
    | _ => cs
  match cs with
  | '0' :: rest => isFraction rest
  | _ => isDigits (cs.takeWhile Text.isDigit) && isFraction (cs.dropWhile Text.isDigit)

/-! ## The whole text -/

/-- The blanks between tokens. -/
def isSpace (c : Char) : Bool := c = ' ' || c = '\n' || c = '\t' || c = '\r'

/-- The tokens of `cs` after those in `acc`, last first; `fuel` bounds their number. -/
def tokensFrom : (fuel : Nat) → (acc : List Token) → List Char → Option (List Token)
  | 0, _, _ => none
  | _ + 1, acc, [] => some acc.reverse
  | fuel + 1, acc, c :: rest =>
    if isSpace c then tokensFrom fuel acc rest
    else match c with
      | '\x7b' => tokensFrom fuel (.opening .object :: acc) rest
      | '\x7d' => tokensFrom fuel (.closing .object :: acc) rest
      | '[' => tokensFrom fuel (.opening .array :: acc) rest
      | ']' => tokensFrom fuel (.closing .array :: acc) rest
      | ':' => tokensFrom fuel (.colon :: acc) rest
      | ',' => tokensFrom fuel (.comma :: acc) rest
      | '"' =>
        match readText .empty rest with
        | some (v, rest) => tokensFrom fuel (.value v :: acc) rest
        | none => none
      | 't' =>
        match rest with
        | 'r' :: 'u' :: 'e' :: rest => tokensFrom fuel (.value (.bool true) :: acc) rest
        | _ => none
      | 'f' =>
        match rest with
        | 'a' :: 'l' :: 's' :: 'e' :: rest => tokensFrom fuel (.value (.bool false) :: acc) rest
        | _ => none
      | 'n' =>
        match rest with
        | 'u' :: 'l' :: 'l' :: rest => tokensFrom fuel (.value .null :: acc) rest
        | _ => none
      | _ =>
        let literal := (c :: rest).takeWhile isNumberChar
        if isNumber literal then
          tokensFrom fuel (.value (.number literal) :: acc) ((c :: rest).dropWhile isNumberChar)
        else none

/-- The tokens of a whole text. -/
def tokens? (cs : List Char) : Option (List Token) := tokensFrom (cs.length + 1) [] cs

end Concolic.Json
