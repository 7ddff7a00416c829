import Concolic.Shell.Grammar

/-
  Arithmetic expressions.

  Values are whole numbers of 64 bits that wrap around.  The operators are those of C with their
  precedences.  The second operand of `&&` and `||`, and the branch of `?:` that is not taken, are
  read but have no effect.
-/

namespace Concolic.Shell

/-- A word of an expression. -/
inductive Lexeme where
  | number (value : Int64)
  | name (text : String)
  | operator (text : String)
  /-- A character that has no meaning here. -/
  | stray
  deriving DecidableEq

/-- How far an expression is read, and what it did. -/
structure Calculation where
  rest : List Lexeme
  /-- Assignments so far, last one first. -/
  assigned : List (String × Int64)
  /-- The values of the variables before. -/
  value : String → Option String
  dialect : Dialect
  source : String

/-- Reading an expression and calculating its value at once. -/
abbrev Calculating := EStateM String Calculation

/-! ## Numbers -/

def maxValue : Nat := Nat.pow 2 63 - 1

/-- The value of a run of digits; what is too large becomes the largest value. -/
def clamped (n : Nat) : Int64 := Int64.ofNat (min n maxValue)

/-- The number that a text starts with, in base 8, 10 or 16 as its first digits say, and what
    follows it. -/
def leadingNumber (cs : List Char) : Nat × List Char :=
  let isHex := fun c : Char => (Text.hexValue? c).isSome
  let isOctal := fun c : Char => '0' ≤ c && c ≤ '7'
  let valueOf := fun (base : Nat) (ds : List Char) => (Text.ofDigits? base ds).getD 0
  match cs with
  | '0' :: x :: c :: rest =>
    if (x = 'x' || x = 'X') && isHex c then
      let digits := (c :: rest).takeWhile isHex
      (valueOf 16 digits, (c :: rest).drop digits.length)
    else
      let digits := (x :: c :: rest).takeWhile isOctal
      (valueOf 8 ('0' :: digits), (x :: c :: rest).drop digits.length)
  | '0' :: rest =>
    let digits := rest.takeWhile isOctal
    (valueOf 8 ('0' :: digits), rest.drop digits.length)
  | _ =>
    let digits := cs.takeWhile Char.isDigit
    (valueOf 10 digits, cs.drop digits.length)

/-- What may stand around a number. -/
def isPadding (c : Char) : Bool := c = ' ' || ('\t' ≤ c && c ≤ '\r')

/-- The number that a whole text is, with blanks around it and a sign before it. -/
def wholeNumber? (s : String) : Option Int64 :=
  let cs := s.toList.dropWhile isPadding
  let (negative, digits) := match cs with
    | '-' :: rest => (true, rest)
    | '+' :: rest => (false, rest)
    | _ => (false, cs)
  if !(digits.head?.any Char.isDigit) then none
  else
    let (n, rest) := leadingNumber digits
    if !rest.all isPadding then none
    else if negative then some (Int64.ofInt (-(min n (maxValue + 1) : Nat)))
    else some (clamped n)

def showValue (v : Int64) : String := Text.ofInt v.toInt

/-! ## Lexemes -/

/-- The operators, longer ones before those that they start with. -/
def operators (dialect : Dialect) : List String :=
  (if dialect = .extended then ["**", "++", "--", ","] else []) ++
  ["<<=", ">>=", "&&", "||", "<<", ">>", "<=", ">=", "==", "!=", "+=", "-=", "*=", "/=", "%=", "&=",
   "|=", "^=", "+", "-", "*", "/", "%", "<", ">", "&", "|", "^", "~", "!", "?", ":", "=", "(", ")"]

/-- The words of an expression. -/
def lexemes (dialect : Dialect) (acc : List Lexeme) : (fuel : Nat) → List Char → List Lexeme
  | 0, _ => acc.reverse
  | _ + 1, [] => acc.reverse
  | fuel + 1, c :: rest =>
    if c = ' ' || c = '\t' || c = '\n' then lexemes dialect acc fuel rest
    else if c.isDigit then
      let (n, after) := leadingNumber (c :: rest)
      lexemes dialect (.number (clamped n) :: acc) fuel after
    else if isNameStart c then
      let name := (c :: rest).takeWhile isNameChar
      lexemes dialect (.name (String.ofList name) :: acc) fuel ((c :: rest).drop name.length)
    else
      match (operators dialect).find? fun op => op.toList.isPrefixOf (c :: rest) with
      | some op => lexemes dialect (.operator op :: acc) fuel ((c :: rest).drop op.length)
      | none => (.stray :: acc).reverse

/-! ## Evaluation -/

def reject {α : Type} (why : String) : Calculating α := do
  let s ← get
  throw ("arithmetic expression: " ++ why ++ ": \"" ++ s.source ++ "\"")

def nextOperator : Calculating (Option String) := do
  match (← get).rest with
  | .operator op :: _ => return some op
  | _ => return none

def skipLexeme : Calculating Unit := modify fun s => { s with rest := s.rest.drop 1 }

/-- How strongly an operator binds. -/
def precedence? : String → Option Nat
  | "*" => some 8
  | "/" => some 8
  | "%" => some 8
  | "+" => some 7
  | "-" => some 7
  | "<<" => some 6
  | ">>" => some 6
  | "<" => some 5
  | "<=" => some 5
  | ">" => some 5
  | ">=" => some 5
  | "==" => some 4
  | "!=" => some 4
  | "&" => some 3
  | "^" => some 2
  | "|" => some 1
  | _ => none

def truth (b : Bool) : Int64 := if b then 1 else 0

/-- The value of an operator with two operands. -/
def applyOperator (op : String) (a b : Int64) : Calculating Int64 :=
  match op with
  | "*" => return a * b
  | "/" => if b = 0 then reject "division by zero" else return a / b
  | "%" => if b = 0 then reject "division by zero" else return a % b
  | "+" => return a + b
  | "-" => return a - b
  | "<<" => return a <<< (b &&& 63)
  | ">>" => return a >>> (b &&& 63)
  | "<" => return truth (a < b)
  | "<=" => return truth (a ≤ b)
  | ">" => return truth (b < a)
  | ">=" => return truth (b ≤ a)
  | "==" => return truth (a = b)
  | "!=" => return truth (a ≠ b)
  | "&" => return a &&& b
  | "^" => return a ^^^ b
  | _ => return a ||| b

/-- The number that a variable holds, after the assignments so far. -/
def variableValue (name : String) : Calculating Int64 := do
  let s ← get
  match s.assigned.lookup name with
  | some v => return v
  | none =>
    match s.value name with
    | none => return 0
    | some "" => return 0
    | some text =>
      match wholeNumber? text with
      | some v => return v
      | none =>
        if s.dialect = .extended then return 0 else throw ("Illegal number: " ++ text)

def assignValue (name : String) (v : Int64) : Calculating Int64 := do
  modify fun s => { s with assigned := (name, v) :: s.assigned }
  return v

/-- The operator that is part of an assignment. -/
def assigning? : String → Option String
  | "=" => some ""
  | "+=" => some "+"
  | "-=" => some "-"
  | "*=" => some "*"
  | "/=" => some "/"
  | "%=" => some "%"
  | "<<=" => some "<<"
  | ">>=" => some ">>"
  | "&=" => some "&"
  | "|=" => some "|"
  | "^=" => some "^"
  | _ => none

def power (a : Int64) (n : Nat) : Int64 := Int64.ofInt (Int.pow a.toInt n)

mutual

/-- Evaluates an assignment or a choice.  `idle` says that it has no effect. -/
def assignment : (fuel : Nat) → (idle : Bool) → Calculating Int64
  | 0, _ => reject "expecting EOF"
  | fuel + 1, idle => do
    match (← get).rest with
    | .name name :: .operator op :: _ =>
      match assigning? op with
      | none => conditional fuel idle
      | some op =>
        skipLexeme
        skipLexeme
        let v ← assignment fuel idle
        if idle then return v
        else if op = "" then assignValue name v
        else assignValue name (← applyOperator op (← variableValue name) v)
    | _ => conditional fuel idle

/-- An expression with `?:`, or one that binds more strongly. -/
def conditional : (fuel : Nat) → (idle : Bool) → Calculating Int64
  | 0, _ => reject "expecting EOF"
  | fuel + 1, idle => do
    let test ← disjunction fuel idle
    if (← nextOperator) = some "?" then
      skipLexeme
      let positive ← assignment fuel (idle || test = 0)
      if (← nextOperator) ≠ some ":" then reject "expecting ':'"
      else
        skipLexeme
        let negative ← conditional fuel (idle || test ≠ 0)
        return if test ≠ 0 then positive else negative
    else return test

/-- Operands between `||`. -/
def disjunction : (fuel : Nat) → (idle : Bool) → Calculating Int64
  | 0, _ => reject "expecting EOF"
  | fuel + 1, idle => do
    let a ← conjunction fuel idle
    if (← nextOperator) = some "||" then
      skipLexeme
      let b ← disjunction fuel (idle || a ≠ 0)
      return truth (a ≠ 0 || b ≠ 0)
    else return a

/-- Operands between `&&`. -/
def conjunction : (fuel : Nat) → (idle : Bool) → Calculating Int64
  | 0, _ => reject "expecting EOF"
  | fuel + 1, idle => do
    let a ← operand fuel idle
    let a ← binary fuel idle 1 a
    if (← nextOperator) = some "&&" then
      skipLexeme
      let b ← conjunction fuel (idle || a = 0)
      return truth (a ≠ 0 && b ≠ 0)
    else return a

/-- Goes on after the operand `a` with operators that bind at least as tightly as `level`. -/
def binary : (fuel : Nat) → (idle : Bool) → (level : Nat) → Int64 → Calculating Int64
  | 0, _, _, _ => reject "expecting EOF"
  | fuel + 1, idle, level, a => do
    match ← nextOperator with
    | none => return a
    | some op =>
      match precedence? op with
      | none => return a
      | some p =>
        if p < level then return a
        else
          skipLexeme
          let b ← operand fuel idle
          let b ← binary fuel idle (p + 1) b
          let v ← if idle then pure b else applyOperator op a b
          binary fuel idle level v

/-- A number, a name, a sign or a group. -/
def operand : (fuel : Nat) → (idle : Bool) → Calculating Int64
  | 0, _ => reject "expecting primary"
  | fuel + 1, idle => do
    match (← get).rest with
    | .number v :: _ =>
      skipLexeme
      if (← nextOperator) = some "**" then
        skipLexeme
        let n ← operand fuel idle
        return power v n.toInt.toNat
      else return v
    | .name name :: .operator op :: _ =>
      skipLexeme
      if op = "++" || op = "--" then
        skipLexeme
        if idle then return 0
        else
          let old ← variableValue name
          let _ ← assignValue name (if op = "++" then old + 1 else old - 1)
          return old
      else if op = "**" then
        let v ← if idle then pure 0 else variableValue name
        skipLexeme
        let n ← operand fuel idle
        return power v n.toInt.toNat
      else if idle then return 0
      else variableValue name
    | .name name :: _ =>
      skipLexeme
      if idle then return 0 else variableValue name
    | .operator "(" :: _ =>
      skipLexeme
      let v ← sequence fuel idle
      if (← nextOperator) ≠ some ")" then reject "expecting ')'"
      else
        skipLexeme
        return v
    | .operator "+" :: _ =>
      skipLexeme
      operand fuel idle
    | .operator "-" :: _ =>
      skipLexeme
      return -(← operand fuel idle)
    | .operator "!" :: _ =>
      skipLexeme
      return truth ((← operand fuel idle) = 0)
    | .operator "~" :: _ =>
      skipLexeme
      return ~~~(← operand fuel idle)
    | .operator op :: .name name :: _ =>
      if op = "++" || op = "--" then
        skipLexeme
        skipLexeme
        if idle then return 0
        else
          let old ← variableValue name
          assignValue name (if op = "++" then old + 1 else old - 1)
      else reject "expecting primary"
    | _ => reject "expecting primary"

/-- Evaluates expressions with commas between them and gives the last value. -/
def sequence : (fuel : Nat) → (idle : Bool) → Calculating Int64
  | 0, _ => reject "expecting EOF"
  | fuel + 1, idle => do
    let v ← assignment fuel idle
    if (← nextOperator) = some "," then
      skipLexeme
      sequence fuel idle
    else return v

end

def wholeExpression (fuel : Nat) : Calculating Int64 := do
  let v ← sequence fuel false
  if (← get).rest.isEmpty then return v else reject "expecting EOF"

/-- The value of an expression and the assignments in it, first one first, or a complaint. -/
def evaluate (dialect : Dialect) (value : String → Option String) (source : String) :
    Except String (Int64 × List (String × Int64)) :=
  let rest := lexemes dialect [] (source.length + 1) source.toList
  if dialect = .extended && rest.isEmpty then .ok (0, [])
  else
    match (wholeExpression (8 * (rest.length + 2))).run
        { rest, assigned := [], value, dialect, source } with
    | .ok v s => .ok (v, s.assigned.reverse)
    | .error e _ => .error e

end Concolic.Shell
