import Concolic.Text.Regex
import Concolic.Utility.Reading

/-
  The scripts of the stream editor: what they consist of and how they are read.
-/

namespace Concolic.Utility.Edit

open Concolic.Text (Regex)
open Concolic.Text.Regex (Matcher)

/-- What selects a line. -/
inductive Address where
  | line (n : Nat)
  /-- The line `first`, and every `step`th one after it. -/
  | step (first step : Nat)
  | last
  /-- A line that an expression matches; none stands for the last one that was used. -/
  | regex (m : Option Matcher)

/-- Where a range of lines ends. -/
inductive Bound where
  | address (a : Address)
  /-- So many lines later. -/
  | later (n : Nat)
  /-- At the next multiple of a number. -/
  | multiple (n : Nat)

/-- Which lines an instruction is for. -/
structure Guard where
  first : Option Address
  bound : Option Bound
  negated : Bool

/-- Upper or lower case. -/
inductive Case where
  | upper
  | lower
  deriving DecidableEq

/-- A part of a replacement. -/
inductive Piece where
  | char (c : Char)
  /-- What a group matched, or all that was matched. -/
  | part (n : Nat)
  /-- The case of all that follows. -/
  | case (c : Option Case)
  /-- The case of the next character. -/
  | nextCase (c : Case)

/-- What is replaced, by what and how often. -/
structure Substitution where
  matcher : Option Matcher
  replacement : List Piece
  every : Bool
  /-- The match to start with. -/
  nth : Nat
  print : Bool
  file : Option String

/-- What an instruction does. The end of a group is an instruction of its own, so that a group which
    is not selected is a jump behind its end. -/
inductive Action where
  /-- Starts a group, which ends before an instruction. -/
  | group (after : Nat)
  | nothing
  | substitute (s : Substitution)
  | exchangeChars (pairs : List (Char × Char))
  | delete
  | deleteFirst
  | print
  | printFirst
  | next
  | joinNext
  | get
  | getMore
  | hold
  | holdMore
  | exchange
  | empty
  | quit (status : Nat) (silent : Bool)
  | append (text : String)
  | insert (text : String)
  | change (text : String)
  | number
  | show_ (width : Option Nat)
  | fileName
  | jump (label : String)
  | jumpIf (label : String) (replaced : Bool)
  | label (name : String)
  | readFile (path : String)
  | readLine (path : String)
  | writeFile (path : String)
  | writeFirst (path : String)

/-- An action for selected lines. -/
structure Instruction where
  guard : Guard
  action : Action

/-! ## Reading -/

/-- What is left of a script, and how many characters were read. -/
structure Place where
  rest : List Char
  count : Nat

/-- Reading a script. -/
abbrev Reader := EStateM (Nat × String) Place

/-- The script is wrong here. -/
def wrong {α : Type} (text : String) : Reader α := do throw ((← get).count, text)

def peek : Reader (Option Char) := do return (← get).rest.head?

def next : Reader (Option Char) := do
  match (← get).rest with
  | [] => return none
  | c :: rest => do
    modify fun p => ⟨rest, p.count + 1⟩
    return some c

def takeWhile (kind : Char → Bool) : Reader (List Char) := do
  let p ← get
  let cs := p.rest.takeWhile kind
  set (⟨p.rest.drop cs.length, p.count + cs.length⟩ : Place)
  return cs

def isBlank (c : Char) : Bool := c != '\n' && isSpace c

def skipBlanks : Reader Unit := do let _ ← takeWhile isBlank

def number : Reader Nat := do return (Text.ofDigits? 10 (← takeWhile Char.isDigit)).getD 0

/-- What has to follow an instruction. -/
def endOfCommand : Reader Unit := do
  skipBlanks
  match ← peek with
  | none => return
  | some '\x7d' => return
  | some '#' => return
  | some c => do
    let _ ← next
    if c = '\n' || c = ';' then return else wrong "extra characters after command"

/-- The number of characters of a set at the start of an expression, its opening bracket included;
    none if it is not closed. -/
def setLength (cs : List Char) : Option Nat :=
  let body := cs.drop 1
  let (n, body) := if body.head? = some '^' then (2, body.drop 1) else (1, body)
  let (n, body) := if body.head? = some ']' then (n + 1, body.drop 1) else (n, body)
  go (cs.length + 1) n body
where
  /-- Goes on inside the set. -/
  go : Nat → Nat → List Char → Option Nat
    | 0, _, _ => none
    | _ + 1, _, [] => none
    | fuel + 1, n, '[' :: c :: rest =>
      if c = ':' || c = '.' || c = '=' then
        let inner := rest.takeWhile (· ≠ c)
        match rest.drop inner.length with
        | _ :: ']' :: after => go fuel (n + inner.length + 4) after
        | _ => go fuel (n + 2) rest
      else if c = ']' then some (n + 2)
      else go fuel (n + 2) rest
    | fuel + 1, n, c :: rest =>
      if c = ']' then some (n + 1) else if c = '\n' then none else go fuel (n + 1) rest

/-- Splits the text before a delimiter from what follows it. In an expression a delimiter inside a
    set does not count, and an escaped `n` is the end of a line. -/
def delimited (delimiter : Char) (isRegex : Bool) (acc : List Char) :
    (fuel : Nat) → List Char → Option (List Char × List Char)
  | 0, _ => none
  | _ + 1, [] => none
  | fuel + 1, c :: rest =>
    if c = delimiter then some (acc.reverse, rest)
    else if c = '\n' then none
    else if c = '\\' then
      match rest with
      | [] => none
      | d :: rest =>
        if d = delimiter then
          if !isRegex && d = '&' then delimited delimiter isRegex ('&' :: '\\' :: acc) fuel rest
          else delimited delimiter isRegex (d :: acc) fuel rest
        else if d = 'n' && isRegex then delimited delimiter isRegex ('\n' :: acc) fuel rest
        else if d = '\n' && isRegex then delimited delimiter isRegex ('\n' :: acc) fuel rest
        else delimited delimiter isRegex (d :: '\\' :: acc) fuel rest
    else if c = '[' && isRegex then
      match setLength (c :: rest) with
      | some n =>
        delimited delimiter isRegex (((c :: rest).take n).reverse ++ acc) fuel ((c :: rest).drop n)
      | none => none
    else delimited delimiter isRegex (c :: acc) fuel rest

/-- The text up to a delimiter. -/
def readDelimited (delimiter : Char) (isRegex : Bool) (complaint : String) :
    Reader (List Char) := do
  let p ← get
  match delimited delimiter isRegex [] (p.rest.length + 1) p.rest with
  | some (text, rest) => do
    set (⟨rest, p.count + (p.rest.length - rest.length)⟩ : Place)
    return text
  | none => do
    let line := p.rest.takeWhile (· ≠ '\n')
    set (⟨[], p.count + line.length⟩ : Place)
    wrong complaint

/-- Reads the expression of a text, which may be empty to stand for the last one. -/
def readRegex (extended ignoreCase multiline : Bool) (cs : List Char) : Reader (Option Matcher) :=
  if cs.isEmpty then return none
  else match Regex.matcher ⟨extended, true, false⟩ ignoreCase multiline cs with
    | .ok m => return some m
    | .error e => wrong e

/-- An address, if there is one. -/
def readAddress (extended : Bool) : Reader (Option Address) := do
  match ← peek with
  | some '$' => do
    let _ ← next
    return some .last
  | some c =>
    if c.isDigit then do
      let n ← number
      if (← peek) = some '~' then do
        let _ ← next
        return some (.step n (← number))
      else return some (.line n)
    else if c = '/' || c = '\\' then do
      let _ ← next
      let delimiter ← if c = '/' then pure '/' else do
        match ← next with
        | some d => pure d
        | none => wrong "unterminated address regex"
      let text ← readDelimited delimiter true "unterminated address regex"
      let flags ← takeWhile fun c => c = 'I' || c = 'M'
      return some (.regex (← readRegex extended (flags.contains 'I') (flags.contains 'M') text))
    else return none
  | none => return none

/-- The end of a range. -/
def readBound (extended : Bool) : Reader Bound := do
  match ← peek with
  | some '+' => do
    let _ ← next
    return .later (← number)
  | some '~' => do
    let _ ← next
    return .multiple (← number)
  | _ => do
    match ← readAddress extended with
    | some a => return .address a
    | none => do
      let _ ← next
      wrong "unexpected \x60,'"

/-- The character that an escape stands for. -/
def control? : Char → Option Char
  | 'a' => some '\x07'
  | 'f' => some '\x0c'
  | 'n' => some '\n'
  | 'r' => some '\r'
  | 't' => some '\t'
  | 'v' => some '\x0b'
  | _ => none

/-- The character that a number after a backslash and a letter stands for, and what follows it. -/
def numbered? (letter : Char) (rest : List Char) : Option (Char × List Char) :=
  let read := fun (base width : Nat) =>
    let ds := (rest.take width).takeWhile fun c => (Text.hexValue? c).any fun d => d < base
    (Text.ofDigits? base ds).map fun n => (Char.ofNat (n % 256), rest.drop ds.length)
  match letter with
  | 'x' => read 16 2
  | 'o' => read 8 3
  | 'd' => read 10 3
  | _ => none

/-- The parts of a replacement. -/
def pieces (acc : List Piece) : (fuel : Nat) → List Char → List Piece
  | 0, _ => acc.reverse
  | _ + 1, [] => acc.reverse
  | fuel + 1, '\\' :: c :: rest =>
    if c.isDigit then pieces (.part (c.toNat - 48) :: acc) fuel rest
    else match c with
      | 'U' => pieces (.case (some .upper) :: acc) fuel rest
      | 'L' => pieces (.case (some .lower) :: acc) fuel rest
      | 'E' => pieces (.case none :: acc) fuel rest
      | 'u' => pieces (.nextCase .upper :: acc) fuel rest
      | 'l' => pieces (.nextCase .lower :: acc) fuel rest
      | c =>
        match control? c, numbered? c rest with
        | some d, _ => pieces (.char d :: acc) fuel rest
        | none, some (d, rest) => pieces (.char d :: acc) fuel rest
        | none, none => pieces (.char c :: acc) fuel rest
  | fuel + 1, '&' :: rest => pieces (.part 0 :: acc) fuel rest
  | fuel + 1, c :: rest => pieces (.char c :: acc) fuel rest

/-- What stands after a substitution. -/
structure Flags where
  every : Bool
  print : Bool
  ignoreCase : Bool
  multiline : Bool
  nth : Option Nat
  file : Option String

def readName : Reader String := do
  skipBlanks
  let cs ← takeWhile (· ≠ '\n')
  if cs.isEmpty then wrong "missing filename in r/R/w/W commands"
  else return String.ofList cs

def readFlags (f : Flags) : (fuel : Nat) → Reader Flags
  | 0 => return f
  | fuel + 1 => do
    match ← peek with
    | none => return f
    | some c =>
      if c = '\x7d' || c = '#' then return f
      else if c.isDigit then do
        if f.nth.isSome then do
          let _ ← next
          wrong "multiple number options to \x60s' command"
        else
          let n ← number
          if n = 0 then wrong "number option to \x60s' command may not be zero"
          else readFlags { f with nth := some n } fuel
      else do
        let _ ← next
        match c with
        | 'g' =>
          if f.every then wrong "multiple \x60g' options to \x60s' command"
          else readFlags { f with every := true } fuel
        | 'p' =>
          if f.print then wrong "multiple \x60p' options to \x60s' command"
          else readFlags { f with print := true } fuel
        | 'i' => readFlags { f with ignoreCase := true } fuel
        | 'I' => readFlags { f with ignoreCase := true } fuel
        | 'm' => readFlags { f with multiline := true } fuel
        | 'M' => readFlags { f with multiline := true } fuel
        | 'w' => return { f with file := some (← readName) }
        | '\n' => return f
        | ';' => return f
        | c => if isBlank c then readFlags f fuel else wrong "unknown option to \x60s'"

/-- The last group that is referred to. -/
def largestPart (ps : List Piece) : Nat :=
  ps.foldl (fun n p => match p with
    | .part k => max n k
    | _ => n) 0

def readSubstitution (extended : Bool) : Reader Action := do
  let complaint := "unterminated \x60s' command"
  match ← next with
  | none => wrong complaint
  | some delimiter => do
    let regex ← readDelimited delimiter true complaint
    let replacement ← readDelimited delimiter false complaint
    let ps := pieces [] (replacement.length + 1) replacement
    let f ← readFlags ⟨false, false, false, false, none, none⟩ ((← get).rest.length + 1)
    let m ← readRegex extended f.ignoreCase f.multiline regex
    if m.any fun m => m.groups < largestPart ps then
      wrong ("invalid reference \\" ++ Nat.repr (largestPart ps) ++ " on \x60s' command's RHS")
    else
      return .substitute
        { matcher := m, replacement := ps, every := f.every, nth := f.nth.getD 1, print := f.print,
          file := f.file }

/-- A list of characters without escapes. -/
def exchanged (acc : List Char) : List Char → List Char
  | '\\' :: 'n' :: rest => exchanged ('\n' :: acc) rest
  | '\\' :: c :: rest =>
    match control? c with
    | some d => exchanged (d :: acc) rest
    | none => if c = '\\' then exchanged ('\\' :: acc) rest else exchanged (c :: '\\' :: acc) rest
  | c :: rest => exchanged (c :: acc) rest
  | [] => acc.reverse

def readExchange : Reader Action := do
  let complaint := "unterminated \x60y' command"
  match ← next with
  | none => wrong complaint
  | some delimiter => do
    let from_ := exchanged [] (← readDelimited delimiter false complaint)
    let to_ := exchanged [] (← readDelimited delimiter false complaint)
    if from_.length ≠ to_.length then wrong "strings for \x60y' command are different lengths"
    else do
      endOfCommand
      return .exchangeChars (from_.zip to_)

/-- The text of a command that adds one, up to the first end of a line without a backslash, and what
    follows it. -/
def addedText (acc : List Char) : (fuel : Nat) → List Char → List Char × List Char
  | 0, cs => (acc.reverse, cs)
  | _ + 1, [] => (acc.reverse, [])
  | _ + 1, '\n' :: rest => (acc.reverse, rest)
  | _ + 1, ['\\'] => (acc.reverse, [])
  | fuel + 1, '\\' :: c :: rest =>
    match control? c, numbered? c rest with
    | some d, _ => addedText (d :: acc) fuel rest
    | none, some (d, rest) => addedText (d :: acc) fuel rest
    | none, none => addedText (c :: acc) fuel rest
  | fuel + 1, c :: rest => addedText (c :: acc) fuel rest

/-- The text after `a`, `i` or `c`. -/
def readText : Reader String := do
  skipBlanks
  match ← peek with
  | none => wrong "expected \\ after \x60a', \x60c' or \x60i'"
  | some '\\' => do
    let _ ← next
    let p ← get
    let blanks := p.rest.takeWhile isBlank
    match p.rest.drop blanks.length with
    | '\n' :: rest => set (⟨rest, p.count + blanks.length + 1⟩ : Place)
    | _ => pure ()
    text
  | some _ => text
where
  /-- Reads the text itself. -/
  text : Reader String := do
    let p ← get
    if p.rest.isEmpty then return ""
    else do
      let (cs, rest) := addedText [] (p.rest.length + 1) p.rest
      set (⟨rest, p.count + (p.rest.length - rest.length)⟩ : Place)
      return String.ofList (cs ++ ['\n'])

def readLabel : Reader String := do
  skipBlanks
  let cs ← takeWhile fun c => !isSpace c && c != ';' && c != '\x7d'
  endOfCommand
  return String.ofList cs

/-- What stands after a letter. -/
def readAction (extended : Bool) (letter : Char) : Reader Action := do
  let plain := fun (a : Action) => do
    endOfCommand
    return a
  let status := do
    skipBlanks
    let n ← number
    endOfCommand
    return n
  match letter with
  | 's' => readSubstitution extended
  | 'y' => readExchange
  | 'd' => plain .delete
  | 'D' => plain .deleteFirst
  | 'p' => plain .print
  | 'P' => plain .printFirst
  | 'n' => plain .next
  | 'N' => plain .joinNext
  | 'g' => plain .get
  | 'G' => plain .getMore
  | 'h' => plain .hold
  | 'H' => plain .holdMore
  | 'x' => plain .exchange
  | 'z' => plain .empty
  | 'F' => plain .fileName
  | '=' => plain .number
  | 'l' => do
    skipBlanks
    let ds ← takeWhile Char.isDigit
    endOfCommand
    return .show_ (Text.ofDigits? 10 ds)
  | 'q' => return .quit (← status) false
  | 'Q' => return .quit (← status) true
  | 'a' => return .append (← readText)
  | 'i' => return .insert (← readText)
  | 'c' => return .change (← readText)
  | 'b' => return .jump (← readLabel)
  | 't' => return .jumpIf (← readLabel) true
  | 'T' => return .jumpIf (← readLabel) false
  | 'r' => return .readFile (← readName)
  | 'R' => return .readLine (← readName)
  | 'w' => return .writeFile (← readName)
  | 'W' => return .writeFirst (← readName)
  | ':' => do
    skipBlanks
    let cs ← takeWhile fun c => !isSpace c && c != ';'
    if cs.isEmpty then wrong "\":\" lacks a label"
    else do
      endOfCommand
      return .label (String.ofList cs)
  | c => wrong ("unknown command: \x60" ++ String.singleton c ++ "'")

/-- The addresses before an instruction. -/
def readGuard (extended : Bool) : Reader Guard := do
  let first ← readAddress extended
  let bound ← match first with
    | none => pure none
    | some _ => do
      skipBlanks
      if (← peek) = some ',' then do
        let _ ← next
        skipBlanks
        pure (some (← readBound extended))
      else pure none
  skipBlanks
  let negated := (← peek) = some '!'
  if negated then do
    let _ ← next
    skipBlanks
    if (← peek) = some '!' then do
      let _ ← next
      wrong "multiple \x60!'s"
    else return ⟨first, bound, true⟩
  else return ⟨first, bound, false⟩

/-- The address of line zero is used for something other than an expression to look for from the
    start. -/
def Guard.isMisused (g : Guard) : Bool :=
  match g.first, g.bound with
  | some (.line 0), some (.address (.regex _)) => false
  | some (.line 0), _ => true
  | _, _ => false

/-- Reads commands up to the end of the script.  `opened` are the groups that are not closed yet. -/
def readCommands (extended : Bool) (acc : Array Instruction) (opened : List Nat) :
    (fuel : Nat) → Reader (Array Instruction)
  | 0 => return acc
  | fuel + 1 => do
    let _ ← takeWhile fun c => isSpace c || c = ';'
    match ← peek with
    | none => if opened.isEmpty then return acc else throw (0, "unmatched \x60\x7b'")
    | some '#' => do
      let _ ← takeWhile (· ≠ '\n')
      readCommands extended acc opened fuel
    | some _ => do
      let guard ← readGuard extended
      match ← next with
      | none => wrong "missing command"
      | some c =>
        if guard.isMisused then wrong "invalid usage of line address 0"
        else if c = '\x7b' then
          readCommands extended (acc.push ⟨guard, .group 0⟩) (acc.size :: opened) fuel
        else if c = '\x7d' then
          match opened, guard.first with
          | _, some _ => wrong "\x7d doesn't want any addresses"
          | [], none => wrong "unexpected \x60\x7d'"
          | start :: opened, none => do
            endOfCommand
            let acc := acc.modify start fun i => { i with action := .group (acc.size + 1) }
            readCommands extended (acc.push ⟨guard, .nothing⟩) opened fuel
        else if guard.bound.isSome && (c = 'q' || c = 'Q') then
          wrong "command only uses one address"
        else if guard.first.isSome && c = ':' then wrong ": doesn't want any addresses"
        else do
          let action ← readAction extended c
          readCommands extended (acc.push ⟨guard, action⟩) opened fuel

/-- The instruction that a label stands at; the end of the script for an empty one. -/
def labelled? (script : Array Instruction) (name : String) : Option Nat :=
  if name = "" then some script.size
  else script.findIdx? fun i => match i.action with
    | .label l => l = name
    | _ => false

/-- A label that is nowhere. -/
def missingLabel? (script : Array Instruction) : Option String :=
  script.findSome? fun i => match i.action with
    | .jump l => if (labelled? script l).isNone then some l else none
    | .jumpIf l _ => if (labelled? script l).isNone then some l else none
    | _ => none

/-- A part of a script as it was given, and how complaints about it start. -/
inductive Source where
  | expression (text : String)
  | file (name text : String)

def Source.text : Source → String
  | .expression text => text
  | .file _ text => text

/-- The source in which a character stands. -/
def position (count : Nat) : (index : Nat) → List Source → String
  | _, [] => ""
  | index, source :: rest =>
    let size := source.text.length
    let index' := match source with
      | .expression _ => index + 1
      | .file _ _ => index
    if count ≤ size || rest.isEmpty then
      match source with
      | .expression _ =>
        "-e expression #" ++ Nat.repr index' ++ ", char " ++ Nat.repr count ++ ": "
      | .file name text =>
        let ends := (text.toList.take count).filter (· = '\n')
        "file " ++ name ++ " line " ++ Nat.repr (ends.length + 1) ++ ": "
    else position (count - size - 1) index' rest

/-- The instructions of all sources together. -/
def readScript (extended : Bool) (sources : List Source) :
    Except (Nat × String) (Array Instruction) :=
  let cs := ("\n".intercalate (sources.map Source.text)).toList
  match (readCommands extended #[] [] (cs.length + 1)).run ⟨cs, 0⟩ with
  | .error (count, text) _ => .error (1, position count 0 sources ++ text)
  | .ok script _ =>
    match missingLabel? script with
    | some l => .error (4, "can't find label for jump to \x60" ++ l ++ "'")
    | none => .ok script

end Concolic.Utility.Edit
