import Concolic.Utility.Print

/-
  Questions about texts, numbers and files.

  An argument is an operator only where an operator can stand, so that operands may look like
  operators.
-/

namespace Concolic.Utility

open Concolic.Text (decode)

/-- The kinds of operators. -/
inductive Operator where
  | unary
  | binary
  | not
  | and
  | or
  | opening
  | closing
  deriving DecidableEq, Repr

/-- What an answer depends on. -/
structure Question where
  tree : Tree
  cwd : Loc
  flavor : Flavor
  isSet : String → Bool

/-- The answer, or what is wrong with the expression. -/
abbrev Answer := Except String Bool

namespace Question

/-- The kind of an operator. -/
def operator? (q : Question) (word : String) : Option Operator :=
  match word with
  | "!" => some .not
  | "-a" => some .and
  | "-o" => some .or
  | "(" => some .opening
  | ")" => some .closing
  | "==" => if q.flavor = .plain then none else some .binary
  | _ =>
    if ["=", "!=", "<", ">", "-eq", "-ne", "-ge", "-gt", "-le", "-lt", "-nt", "-ot", "-ef"].contains
        word then some .binary
    else if ["-r", "-w", "-x", "-e", "-f", "-d", "-c", "-b", "-p", "-u", "-g", "-k",
      "-s", "-t", "-z", "-n", "-h", "-O", "-G", "-L", "-S"].contains word then some .unary
    else none

/-- What a path leads to. -/
def node? (q : Question) (follow : Bool) (path : String) : Option (Loc × Node) :=
  match q.tree.lookup q.cwd follow (decode path) with
  | .ok loc => (q.tree.node? loc).map fun node => (loc, node)
  | .error _ => none

def one (q : Question) (op arg : String) : Bool :=
  let found := q.node? true arg
  match op with
  | "-n" => arg ≠ ""
  | "-z" => arg = ""
  | "-f" => found.any fun (loc, _) => (q.tree.blob? loc).isSome
  | "-d" => found.any fun (_, node) => node.isFolder
  | "-c" => found.any fun (loc, _) => (q.tree.device? loc).isSome
  | "-x" => found.any fun (loc, node) =>
    node.isFolder || (q.tree.blob? loc).any fun b => b.runnable
  | "-s" => found.any fun (loc, node) =>
    node.isFolder || (q.tree.blob? loc).any fun b => b.bytes.size ≠ 0
  | "-L" => isLink
  | "-h" => isLink
  | "-v" => q.isSet arg
  | "-a" => found.isSome
  | _ => ["-e", "-r", "-w", "-O", "-G"].contains op && found.isSome
where
  isLink : Bool := (q.node? false arg).any fun
    | (_, .link _) => true
    | _ => false

def number? (text : String) : Option Int :=
  let isGap := fun c : Char => c = ' ' || ('\t' ≤ c && c ≤ '\r')
  let cs := text.toList.dropWhile isGap
  Text.signed? (cs.reverse.dropWhile isGap).reverse

/-- The text for what is no number. -/
def notNumber (q : Question) (text : String) : String :=
  match q.flavor with
  | .plain => "Illegal number: " ++ text
  | .extended => text ++ ": integer expression expected"
  | .program => "invalid integer " ++ quotedPlainly text

def two (q : Question) (a op b : String) : Answer :=
  let numbers := fun (test : Int → Int → Bool) =>
    match number? a, number? b with
    | some x, some y => .ok (test x y)
    | none, _ => .error (q.notNumber a)
    | some _, none => .error (q.notNumber b)
  match op with
  | "!=" => .ok (a ≠ b)
  | "<" => .ok (a < b)
  | ">" => .ok (b < a)
  | "-eq" => numbers fun x y => x = y
  | "-ne" => numbers fun x y => x ≠ y
  | "-lt" => numbers fun x y => x < y
  | "-le" => numbers fun x y => x ≤ y
  | "-gt" => numbers fun x y => y < x
  | "-ge" => numbers fun x y => y ≤ x
  | "-nt" => .ok false
  | "-ot" => .ok false
  | "-ef" =>
    match q.node? true a, q.node? true b with
    | some (x, _), some (y, _) => .ok (q.tree.sameFile x y)
    | _, _ => .ok false
  | _ => .ok (a = b)

/-- The operator at the start of the words, unless it has to be an operand there. -/
def lex (q : Question) : List String → Option Operator
  | [] => none
  | word :: rest =>
    match q.operator? word with
    | none => none
    | some .unary =>
      let isOperand : Bool := match rest with
        | [] => true
        | [_] => false
        | next :: _ :: _ => decide (q.operator? next = some .binary)
      if isOperand then none else some .unary
    | some .opening => if rest.isEmpty then none else some .opening
    | some op => some op

mutual

/-- Expressions joined by `-o`.  Gives the answer and the words from the last operand on. -/
def disjunction (q : Question) : (fuel : Nat) → List String → Except String (Bool × List String)
  | 0, ws => .ok (false, ws)
  | fuel + 1, ws =>
    match conjunction q fuel ws with
    | .error e => .error e
    | .ok (a, ws) =>
      if q.lex (ws.drop 1) = some .or then
        match disjunction q fuel (ws.drop 2) with
        | .error e => .error e
        | .ok (b, ws) => .ok (a || b, ws)
      else .ok (a, ws)

def conjunction (q : Question) : (fuel : Nat) → List String → Except String (Bool × List String)
  | 0, ws => .ok (false, ws)
  | fuel + 1, ws =>
    match negation q fuel ws with
    | .error e => .error e
    | .ok (a, ws) =>
      if q.lex (ws.drop 1) = some .and then
        match conjunction q fuel (ws.drop 2) with
        | .error e => .error e
        | .ok (b, ws) => .ok (a && b, ws)
      else .ok (a, ws)

/-- A question after any number of `!`. -/
def negation (q : Question) : (fuel : Nat) → List String → Except String (Bool × List String)
  | 0, ws => .ok (false, ws)
  | fuel + 1, ws =>
    if q.lex ws = some .not then
      match ws with
      | _ :: next :: rest =>
        match negation q fuel (next :: rest) with
        | .error e => .error e
        | .ok (a, ws) => .ok (!a, ws)
      | _ => .ok (true, ws)
    else primary q fuel ws

/-- A question, a text or a group. -/
def primary (q : Question) : (fuel : Nat) → List String → Except String (Bool × List String)
  | 0, ws => .ok (false, ws)
  | _ + 1, [] => .ok (false, [])
  | fuel + 1, word :: rest =>
    match q.lex (word :: rest) with
    | some .opening =>
      if q.lex rest = some .closing then .ok (false, rest)
      else match disjunction q fuel rest with
        | .error e => .error e
        | .ok (a, ws) =>
          if q.lex (ws.drop 1) = some .closing then .ok (a, ws.drop 1)
          else .error "closing paren expected"
    | some .unary =>
      match rest with
      | [] => .error (word ++ ": argument expected")
      | arg :: _ =>
        if word = "-t" then
          match number? arg with
          | some _ => .ok (false, rest)
          | none => .error (q.notNumber arg)
        else .ok (q.one word arg, rest)
    | _ =>
      match rest with
      | op :: more =>
        if q.lex (op :: more) = some .binary then
          match more with
          | [] => .error (op ++ ": argument expected")
          | b :: _ =>
            match q.two word op b with
            | .error e => .error e
            | .ok a => .ok (a, more)
        else .ok (word ≠ "", word :: rest)
      | [] => .ok (word ≠ "", [word])

end

/-- The answer to an expression whose first word is not an operator by position. -/
def whole (q : Question) (ws : List String) : Answer :=
  match disjunction q (4 * ws.length + 4) ws with
  | .error e => .error e
  | .ok (a, left) =>
    match left with
    | word :: _ :: _ => .error (if word = "" then "unexpected operator"
      else word ++ ": unexpected operator")
    | _ => .ok a

/-- The answer to an expression.  Three and four words are read by position first. -/
def answer (q : Question) : (fuel : Nat) → List String → Answer
  | 0, _ => .ok false
  | _ + 1, [] => .ok false
  | fuel + 1, ws =>
    match ws with
    | [a, op, b] =>
      if q.operator? op = some .binary then q.two a op b
      else if a = "(" && b = ")" then q.whole [op]
      else if a = "!" then negate (answer q fuel [op, b])
      else q.whole ws
    | [a, b, c, d] =>
      if a = "(" && d = ")" then q.whole [b, c]
      else if a = "!" then negate (answer q fuel [b, c, d])
      else q.whole ws
    | _ => q.whole ws
where
  negate : Answer → Answer
    | .ok b => .ok (!b)
    | .error e => .error e

/-! ## Reading by position -/

/-- The answer of a part of an expression and the words after it, or a complaint. -/
abbrev Reading := Except String (Bool × List String)

def Reading.not : Reading → Reading
  | .ok (a, rest) => .ok (!a, rest)
  | .error e => .error e

def Reading.text (word : String) (rest : List String) : Reading := .ok (word ≠ "", rest)

/-- An operand is missing. -/
def tooShort (q : Question) (last : String) : Reading :=
  .error (if q.flavor = .extended then "argument expected"
    else "missing argument after " ++ quotedPlainly last)

/-- An operator is missing. -/
def expects (q : Question) (kind word : String) : Reading :=
  .error ((if q.flavor = .extended then word else quotedPlainly word) ++ ": " ++ kind ++
    " operator expected")

def isUnary (q : Question) (word : String) : Bool :=
  q.operator? word = some .unary ||
    (q.flavor = .extended && ["-a", "-o", "-v", "-N", "-R"].contains word)

def isBinary (q : Question) (word : String) : Bool :=
  q.operator? word = some .binary && (q.flavor = .extended || (word ≠ "<" && word ≠ ">"))

/-- A word that looks like an operator. -/
def isSwitch (word : String) : Bool :=
  match word.toList with
  | ['-', _] => true
  | _ => false

def askOne (q : Question) (last op : String) : List String → Reading
  | [] => q.tooShort last
  | word :: rest =>
    if !q.isUnary op then q.expects "unary" op
    else if op = "-t" && q.flavor = .program && (number? word).isNone then
      .error (q.notNumber word)
    else .ok (q.one op word, rest)

def askTwo (q : Question) (a op b : String) (rest : List String) : Reading :=
  match q.two a op b with
  | .ok answer => .ok (answer, rest)
  | .error e => .error e

/-- An expression of two words. -/
def pair (q : Question) (last : String) : List String → Reading
  | a :: b :: rest =>
    if a = "!" then .ok (b = "", rest)
    else if isSwitch a then q.askOne last a (b :: rest)
    else if q.flavor = .extended then q.expects "unary" a
    else q.tooShort last
  | _ => q.tooShort last

mutual

def anyOf (q : Question) (last : String) : (fuel : Nat) → List String → Reading
  | 0, ws => .ok (false, ws)
  | fuel + 1, ws =>
    match allOf q last fuel ws with
    | .ok (a, "-o" :: rest) =>
      match anyOf q last fuel rest with
      | .ok (b, rest) => .ok (a || b, rest)
      | e => e
    | reading => reading

def allOf (q : Question) (last : String) : (fuel : Nat) → List String → Reading
  | 0, ws => .ok (false, ws)
  | fuel + 1, ws =>
    match term q last fuel ws with
    | .ok (a, "-a" :: rest) =>
      match allOf q last fuel rest with
      | .ok (b, rest) => .ok (a && b, rest)
      | e => e
    | reading => reading

/-- One part: a question, a text, a negated part or parts between brackets. -/
def term (q : Question) (last : String) : (fuel : Nat) → List String → Reading
  | 0, ws => .ok (false, ws)
  | _ + 1, [] => q.tooShort last
  | fuel + 1, word :: rest =>
    if word = "!" then (term q last fuel rest).not
    else if word = "(" then
      let length := (rest.drop 1).takeWhile (· ≠ ")") |>.length
      let inner := if rest.isEmpty then q.tooShort last
        else if q.flavor = .program then
          byPosition q last fuel (if length < 3 then length + 1 else rest.length) rest
        else anyOf q last fuel rest
      let (start, stop) := if q.flavor = .extended then ("\x60", "") else ("'", "'")
      match inner with
      | .error e => .error e
      | .ok (_, []) => .error (start ++ ")' expected")
      | .ok (a, close :: rest) =>
        if close = ")" then .ok (a, rest)
        else .error (start ++ ")' expected, found " ++ stop ++ close ++ stop)
    else
      let single := fun (_ : Unit) =>
        if q.flavor = .extended then
          if q.isUnary word && !rest.isEmpty then q.askOne last word rest
          else Reading.text word rest
        else if isSwitch word then
          if q.isUnary word then q.askOne last word rest else q.expects "unary" word
        else Reading.text word rest
      match rest with
      | op :: b :: rest => if q.isBinary op then q.askTwo word op b rest else single ()
      | _ => single ()

/-- An expression of a number of words: up to four are read by where they stand. -/
def byPosition (q : Question) (last : String) : (fuel : Nat) → (count : Nat) → List String → Reading
  | 0, _, ws => .ok (false, ws)
  | fuel + 1, count, ws =>
    match count, ws with
    | 1, a :: rest => Reading.text a rest
    | 2, _ => q.pair last ws
    | 3, a :: op :: b :: rest =>
      if q.isBinary op then q.askTwo a op b rest
      else if a = "!" then (q.pair last (op :: b :: rest)).not
      else if a = "(" && b = ")" then Reading.text op rest
      else if op = "-a" || op = "-o" then anyOf q last fuel ws
      else q.expects "binary" op
    | 4, a :: b :: c :: d :: rest =>
      if a = "!" then (byPosition q last fuel 3 (b :: c :: d :: rest)).not
      else if a = "(" && d = ")" then
        match q.pair last [b, c] with
        | .ok (a, _) => .ok (a, rest)
        | e => e
      else anyOf q last fuel ws
    | _, _ => anyOf q last fuel ws

end

/-- The answer to an expression that is read by position, with nothing left of it. -/
def positional (q : Question) (ws : List String) : Answer :=
  if ws.isEmpty then .ok false
  else match q.byPosition (ws.getLastD "") (4 * ws.length + 4) ws.length ws with
    | .error e => .error e
    | .ok (a, []) => .ok a
    | .ok (_, word :: _) =>
      .error (if q.flavor = .program then "extra argument " ++ quotedPlainly word
        else if word.startsWith "-" then "syntax error: \x60" ++ word ++ "' unexpected"
        else "too many arguments")

end Question

/-- The status, and what is wrong. -/
def testStatus (q : Question) (bracket : Bool) (args : List String) : Nat × Option String :=
  let decide := fun (ws : List String) =>
    match if q.flavor = .plain then q.answer 4 ws else q.positional ws with
    | .ok true => (0, none)
    | .ok false => (1, none)
    | .error e => (2, some e)
  if bracket then
    if args.getLast? = some "]" then decide args.dropLast
    else (2, some (if q.flavor = .plain then "missing ]"
      else if q.flavor = .extended then "missing \x60]'" else "missing ']'"))
  else decide args

def test (c : Call) (bracket : Bool) : Effect :=
  match testStatus ⟨c.tree, c.cwd, .program, fun _ => false⟩ bracket c.args with
  | (status, none) => { c.idle with status }
  | (status, some e) => c.fail status e

end Concolic.Utility
