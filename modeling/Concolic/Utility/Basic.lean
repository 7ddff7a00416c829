import Concolic.Text.Charset
import Concolic.Text.Decimal
import Concolic.Text.Octet
import Concolic.Tree.Compound

/-
  Programs that do one thing, and the conventions they share.

  Such a program is a function of a `Call`: its name and arguments, its standard input and the tree.
  What it did is an `Effect`.  Arguments and streams are texts of bytes.
-/

namespace Concolic.Utility

open Concolic.Text (decode octets)

/-- What a program is given. -/
structure Call where
  /-- The name that it was called by, which its complaints start with. -/
  name : String
  args : List String
  tree : Tree
  cwd : Loc
  /-- What is left of the standard input, or why it cannot be read. -/
  input : Thunk (Except Fault String)
  /-- The standard input is a file in which the program can go back. -/
  seekable : Bool
  /-- The file that the standard output goes to, if it goes to one. -/
  outputFile : Option Loc
  environment : List (String × String)

/-- How much of its standard input a program took. -/
inductive Taken where
  | nothing
  /-- So many bytes, and it wanted no more. -/
  | some (bytes : Nat)
  | all
  deriving DecidableEq, Repr

/-- Whether an operand stands for the input. -/
def isStandardInput (path : String) : Bool :=
  path = "-" || path = "/dev/stdin" || path = "/dev/fd/0"

/-- What a program did. -/
structure Effect where
  tree : Tree
  /-- What it printed, last text first; the flag marks complaints. -/
  printed : List (Bool × String)
  status : Nat
  wait : Nat
  taken : Taken
  /-- The number of questions that it put to its user. -/
  asked : Nat

namespace Effect

def none (t : Tree) : Effect := ⟨t, [], 0, 0, .nothing, 0⟩

def say (e : Effect) (text : String) : Effect := { e with printed := (false, text) :: e.printed }

/-- Goes on after a complaint: the status is that of a failure from now on. -/
def complain (e : Effect) (status : Nat) (text : String) : Effect :=
  { e with printed := (true, text ++ "\n") :: e.printed, status }

/-- Goes on after having read the standard input to its end, if it stands for one of
    the operands. -/
def reading (e : Effect) (operands : List String) : Effect :=
  if operands.any isStandardInput then { e with taken := .all } else e

def onTree (e : Effect) (t : Tree) : Effect := { e with tree := t }

end Effect

def Call.idle (c : Call) : Effect := Effect.none c.tree

def Call.print (c : Call) (text : String) : Effect := c.idle.say text

def Call.fail (c : Call) (status : Nat) (text : String) : Effect :=
  c.idle.complain status (c.name ++ ": " ++ text)

def Call.misuse (c : Call) (status : Nat) (text : String) : Effect :=
  c.fail status (text ++ "\nTry '" ++ c.name ++ " --help' for more information.")

def reason : Fault → String
  | .os code => Fault.text code
  | f => f.message

/-! ## Names in complaints -/

def isPrintable (c : Char) : Bool := ' ' ≤ c && c ≤ '~'

def octal3 (n : Nat) : String :=
  String.ofList [Char.ofNat (48 + n / 64 % 8), Char.ofNat (48 + n / 8 % 8), Char.ofNat (48 + n % 8)]

/-- How a character is shown that cannot be printed. -/
def escapeOf (c : Char) : String :=
  match c with
  | '\n' => "\\n"
  | '\t' => "\\t"
  | '\r' => "\\r"
  | '\x07' => "\\a"
  | '\x08' => "\\b"
  | '\x0b' => "\\v"
  | '\x0c' => "\\f"
  | c => "\\" ++ octal3 c.toNat

/-- A text between single quotes, after what stands before it; `escaped` says that the quotes of an
    escape are open instead. -/
def quoteParts (acc : String) (escaped : Bool) : List Char → String
  | [] => acc ++ "'"
  | c :: rest =>
    if isPrintable c then
      let acc := if escaped then acc ++ "''" else acc
      if c = '\'' then quoteParts (acc ++ "'\\''") false rest
      else quoteParts (acc.push c) false rest
    else
      let acc := if escaped then acc else acc ++ "'$'"
      quoteParts (acc ++ escapeOf c) true rest

/-- A character that double quotes do not hide. -/
def isActive (c : Char) : Bool := c = '"' || c = '$' || c = '\x60' || c = '\\' || !isPrintable c

def quoted (name : String) : String :=
  let cs := name.toList
  if cs.contains '\'' && !cs.any isActive then "\"" ++ name ++ "\""
  else quoteParts "'" false cs

/-- A character that makes quotes necessary. -/
def needsQuotes (c : Char) : Bool :=
  !isPrintable c || " !\"$&'()*:;<=>?[\\^\x60|".toList.contains c

/-- A name, quoted if necessary. -/
def shown (name : String) : String :=
  match name.toList with
  | [] => "''"
  | [c] => if c = '\x7b' || c = '\x7d' || c = '#' || c = '~' || needsQuotes c then
      quoted name else name
  | c :: rest =>
    if c = '#' || c = '~' || (c :: rest).any needsQuotes then quoted name else name

/-- A name between quotes, with backslash sequences for what they cannot protect. -/
def quotedPlainly (name : String) : String :=
  "'" ++ String.join (name.toList.map fun c =>
    if c = '\'' then "\\'"
    else if c = '\\' then "\\\\"
    else if isPrintable c then String.singleton c
    else escapeOf c) ++ "'"

/-! ## Options -/

/-- Whether an option has a value. -/
inductive Valued where
  | no
  | yes
  /-- Only directly after it. -/
  | attached
  deriving DecidableEq

/-- The options of a program: letters, and long names for some of them. -/
structure Options where
  letters : List (Char × Valued)
  long : List (String × Char × Valued)

/-- An option that was given. -/
structure Given where
  letter : Char
  value : Option String
  deriving DecidableEq, Repr

/-- Options by their letters and long names. -/
def Options.ofLetters (plain : String) (valued : String) (long : List (String × Char × Valued)) :
    Options :=
  { letters := (plain.toList.map fun c => (c, .no)) ++
    (valued.toList.map fun c => (c, .yes)), long }

def readLong (o : Options) (text : String) (rest : List String) :
    Except String (Given × List String) :=
  let name := String.ofList (text.toList.takeWhile (· ≠ '='))
  let value := match text.toList.dropWhile (· ≠ '=') with
    | _ :: v => some (String.ofList v)
    | [] => none
  let candidates := match o.long.find? fun l => l.1 = name with
    | some exact => [exact]
    | none => o.long.filter fun l => name.toList.isPrefixOf l.1.toList
  match candidates with
  | [] => .error ("unrecognized option '--" ++ name ++ "'")
  | (full, letter, valued) :: others =>
    if others.any fun l => l.2.1 ≠ letter then
      .error ("option '--" ++ name ++ "' is ambiguous; possibilities:" ++
        String.join (candidates.map fun l => " '--" ++ l.1 ++ "'"))
    else match valued, value, rest with
      | .no, some _, _ => .error ("option '--" ++ full ++ "' doesn't allow an argument")
      | .no, none, _ => .ok (⟨letter, none⟩, rest)
      | .yes, some v, _ => .ok (⟨letter, some v⟩, rest)
      | .yes, none, v :: rest => .ok (⟨letter, some v⟩, rest)
      | .yes, none, [] => .error ("option '--" ++ full ++ "' requires an argument")
      | .attached, _, _ => .ok (⟨letter, value⟩, rest)

def readLetters (o : Options) (acc : List Given) : List Char → List String →
    Except String (List Given × List String)
  | [], rest => .ok (acc, rest)
  | c :: cs, rest =>
    match o.letters.lookup c with
    | none => .error ("invalid option -- '" ++ String.singleton c ++ "'")
    | some .no => readLetters o (⟨c, none⟩ :: acc) cs rest
    | some .attached =>
      .ok (⟨c, if cs.isEmpty then none else some (String.ofList cs)⟩ :: acc, rest)
    | some .yes =>
      if !cs.isEmpty then .ok (⟨c, some (String.ofList cs)⟩ :: acc, rest)
      else match rest with
        | v :: rest => .ok (⟨c, some v⟩ :: acc, rest)
        | [] => .error ("option requires an argument -- '" ++ String.singleton c ++ "'")

/-- Reads options and operands; `mixed` says that options may follow operands. -/
def readMixed (o : Options) (mixed : Bool) (given : List Given) (operands : List String) :
    (fuel : Nat) → List String → Except String (List Given × List String)
  | 0, _ => .ok (given.reverse, operands.reverse)
  | _ + 1, [] => .ok (given.reverse, operands.reverse)
  | fuel + 1, arg :: rest =>
    match arg.toList with
    | ['-', '-'] => .ok (given.reverse, operands.reverse ++ rest)
    | '-' :: '-' :: name =>
      match readLong o (String.ofList name) rest with
      | .error e => .error e
      | .ok (g, rest) => readMixed o mixed (g :: given) operands fuel rest
    | '-' :: c :: cs =>
      match readLetters o given (c :: cs) rest with
      | .error e => .error e
      | .ok (given, rest) => readMixed o mixed given operands fuel rest
    | _ =>
      if mixed then readMixed o mixed given (arg :: operands) fuel rest
      else .ok (given.reverse, operands.reverse ++ arg :: rest)

/-- Options anywhere, and the operands. -/
def readOptions (o : Options) (args : List String) : Except String (List Given × List String) :=
  readMixed o true [] [] (args.length + 1) args

/-- Options before the first operand. -/
def readLeadingOptions (o : Options) (args : List String) :
    Except String (List Given × List String) :=
  readMixed o false [] [] (args.length + 1) args

def has (given : List Given) (c : Char) : Bool := given.any fun g => g.letter = c

/-- The value that was given last. -/
def valueOf? (given : List Given) (c : Char) : Option String :=
  (given.reverse.find? fun g => g.letter = c).bind (·.value)

/-- Goes on unless the options are wrong. -/
def Call.withOptions (c : Call) (o : Options) (run : List Given → List String → Effect) : Effect :=
  match readOptions o c.args with
  | .error e => c.misuse 1 e
  | .ok (given, operands) => run given operands

/-! ## Files -/

/-- The operand is a device without an end. -/
def Call.isEndless (c : Call) (path : String) : Bool :=
  match c.tree.lookup c.cwd true (decode path) with
  | .ok loc => (c.tree.device? loc).any Device.isEndless
  | .error _ => false

/-- The text at a path; of a device without an end, more than anybody asks for. -/
def Call.read (c : Call) (t : Tree) (path : String) : Except Fault String :=
  if c.isEndless path then .ok Text.zeros
  else (t.readBlob c.cwd (decode path)).map fun blob => octets blob.bytes

/-- Reads a file or the input. -/
def Call.readOperand (c : Call) (path : String) : Except Fault String :=
  if isStandardInput path then c.input.get else c.read c.tree path

/-- The operands, or the input if there are none. -/
def orInput (operands : List String) : List String := if operands.isEmpty then ["-"] else operands

/-- The texts of operands, one after the other: the standard input is at its end after the first
    time that it is named. -/
def Call.texts (c : Call) (operands : List String) : List (String × Except Fault String) :=
  (operands.foldl
    (fun (acc : List (String × Except Fault String) × Bool) path =>
      let (texts, used) := acc
      if isStandardInput path then
        ((path, if used then (c.input.get.map fun _ => "") else c.input.get) :: texts, true)
      else ((path, c.read c.tree path) :: texts, used))
    ([], false)).1.reverse

/-- Goes through the texts of operands and complains about those that cannot be read. -/
def Call.overTexts (c : Call) (operands : List String) (complaint : String → Fault → String)
    (act : Effect → String → String → Effect) : Effect :=
  let operands := orInput operands
  ((c.texts operands).foldl
    (fun e (path, read) =>
      match read with
      | .ok text => act e path text
      | .error f => e.complain 1 (c.name ++ ": " ++ complaint path f))
    c.idle).reading operands

def plainComplaint (path : String) (f : Fault) : String := shown path ++ ": " ++ reason f

/-- The parts of a text that end with a character, without it, and whether the last one had it. -/
def piecesOf (close : Char) (text : String) : List (List Char) × Bool :=
  let pieces := Text.splitOn close text.toList
  match pieces.getLast? with
  | some [] => (pieces.dropLast, true)
  | _ => (pieces, false)

/-- The lines of a text, without their ends, and whether the last one had one. -/
def linesOf (text : String) : List (List Char) × Bool := piecesOf '\n' text

def unlines (lines : List (List Char)) : String :=
  String.ofList (lines.foldr (fun line acc => line ++ '\n' :: acc) [])

/-- Puts a question to the user: the next line of the standard input is the answer, and it agrees if
    it starts with a `y`. -/
def Call.ask (c : Call) (e : Effect) (question : String) : Bool × Effect :=
  let answers := (linesOf ((c.input.get.toOption).getD "")).1
  let agreed := match answers.getD e.asked [] with
    | letter :: _ => letter = 'y' || letter = 'Y'
    | [] => false
  (agreed, { e with
    printed := (true, c.name ++ ": " ++ question ++ "? ") :: e.printed
    asked := e.asked + 1
    taken := .all })

def baseName (path : String) : String :=
  let cs := (path.toList.reverse.dropWhile (· = '/'))
  if cs.isEmpty then (if path = "" then "" else "/")
  else String.ofList (cs.takeWhile (· ≠ '/')).reverse

def withoutSlashes (path : String) : String :=
  let cs := path.toList.reverse.dropWhile (· = '/')
  if cs.isEmpty && path ≠ "" then "/" else String.ofList cs.reverse

/-- The path of a name in a directory. -/
def inFolder (folder name : String) : String :=
  if folder.toList.getLast? = some '/' then folder ++ name else folder ++ "/" ++ name

end Concolic.Utility
