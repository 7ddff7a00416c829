import Concolic.Utility.Edit

/-
  The stream editor: running its scripts over the lines of files.

  A cycle reads a line into the buffer, runs the instructions on it and prints it.
-/

namespace Concolic.Utility.Edit

open Concolic.Text (decode ofOctets)
open Concolic.Text.Regex (Matcher)

/-- A line, and whether its end is there. -/
structure Line where
  chars : List Char
  ended : Bool

/-- What comes in. -/
inductive Feed where
  | line (l : Line)
  | file (name : String)
  /-- A file cannot be read. -/
  | bad (text : String)

/-- How the editor was called. -/
structure Settings where
  quiet : Bool
  /-- Files are edited one by one. -/
  separate : Bool
  extended : Bool
  lineEnd : Char

/-- What a text that waits for the end of the cycle is. -/
inductive Queued where
  | text (text : String)
  | file (path : String)
  | lineOf (path : String)

/-- How an instruction goes on. -/
inductive Step where
  | go (index : Nat)
  /-- Ends the cycle; the flag says whether the buffer is printed. -/
  | finish (print : Bool)
  | again
  | stop (status : Nat) (print : Bool)
  | broken (text : String)
  | endless

/-- The state between instructions. -/
structure Editor where
  buffer : Line
  held : Line
  feed : List Feed
  number : Nat
  fileName : String
  replaced : Bool
  lastRegex : Option Matcher
  queue : List Queued
  /-- The ends of the ranges that are open, by the index of their instruction. -/
  ranges : List (Nat × Option Nat)
  printed : List (Bool × String)
  /-- The line printed last has no end. -/
  open_ : Bool
  /-- What was written to files. -/
  files : List (String × List String)
  /-- How many lines were taken from files that are read line by line. -/
  taken : List (String × Nat)
  status : Nat
  patience : Nat
  isEndless : Bool
  /-- The script ended before the input did. -/
  stopped : Bool

namespace Editor

def print (e : Editor) (text : String) : Editor :=
  if text = "" then e
  else
    { e with
      printed := (false, if e.open_ then "\n" ++ text else text) :: e.printed, open_ := false }

def printLine (s : Settings) (e : Editor) (l : Line) : Editor :=
  let text := String.ofList l.chars
  let start := if e.open_ then String.singleton s.lineEnd else ""
  { e with
    printed := (false, start ++ text ++
      (if l.ended then String.singleton s.lineEnd else "")) :: e.printed
    open_ := !l.ended }

def writeTo (e : Editor) (path text : String) : Editor :=
  if path = "/dev/stdout" then e.print text
  else if path = "/dev/stderr" then { e with printed := (true, text) :: e.printed }
  else { e with files := e.files.map fun f => if f.1 = path then (f.1, text :: f.2) else f }

/-- Whether this is not the last line. -/
def hasMore (s : Settings) (e : Editor) : Bool :=
  go s e.feed
where
  go (s : Settings) : List Feed → Bool
    | [] => false
    | .line _ :: _ => true
    | .file _ :: rest => if s.separate then false else go s rest
    | .bad _ :: rest => go s rest

/-- Prints what was put off to the end of the cycle. -/
def flush (read : String → Option String) (e : Editor) : Editor :=
  let e' := e.queue.reverse.foldl
    (fun e q => match q with
      | .text text => e.print text
      | .file path => e.print ((read path).getD "")
      | .lineOf path =>
        let n := (e.taken.lookup path).getD 0
        let lines := (linesOf ((read path).getD "")).1
        match lines[n]? with
        | some l =>
          { e.print (String.ofList (l ++ ['\n'])) with
            taken := (path, n + 1) :: e.taken.filter fun t => t.1 ≠ path }
        | none => e)
    e
  { e' with queue := [] }

def take (s : Settings) (e : Editor) : Option (Line × Editor) :=
  go e e.feed
where
  go (e : Editor) : List Feed → Option (Line × Editor)
    | [] => none
    | .line l :: rest =>
        some (l, { e with feed := rest, number := e.number + 1, replaced := false })
    | .file name :: rest =>
      go { e with fileName := name, number := if s.separate then 0 else e.number } rest
    | .bad text :: rest => go { e with printed := (true, text) :: e.printed, status := 2 } rest

/-- The complaints about files that are left when there is no line any more. -/
def leftovers (e : Editor) : Editor :=
  e.feed.foldl (fun e f => match f with
    | .bad text => { e with printed := (true, text) :: e.printed, status := 2 }
    | _ => e) e

/-- An expression, or the one used last. -/
def regexOf (e : Editor) (m : Option Matcher) : Option (Matcher × Editor) :=
  match m.orElse fun _ => e.lastRegex with
  | some m => some (m, { e with lastRegex := some m })
  | none => none

/-! ## Addresses -/

/-- An address selects the current line; none if it refers to an expression that is not there. -/
def selects (s : Settings) (e : Editor) : Address → Option (Bool × Editor)
  | .line n => some (n = e.number, e)
  | .step first step =>
    some (if step = 0 then e.number = first
      else decide (first ≤ e.number) && (e.number - first) % step = 0, e)
  | .last => some (!e.hasMore s, e)
  | .regex m =>
    (e.regexOf m).map fun (m, e) => (m.test e.buffer.chars.toArray, e)

/-- Opens the range of an instruction, up to a line that is known, or not. -/
def openRange (e : Editor) (index : Nat) (last : Option Nat) : Editor :=
  { e with ranges := (index, last) :: e.ranges.filter fun r => r.1 ≠ index }

def closeRange (e : Editor) (index : Nat) : Editor :=
  { e with ranges := e.ranges.filter fun r => r.1 ≠ index }

/-- Starts a range, unless it has one line. -/
def startRange (e : Editor) (index : Nat) (bound : Bound) : Editor :=
  let upTo := fun (n : Nat) => if n ≤ e.number then e else e.openRange index (some n)
  match bound with
  | .address (.line n) => upTo n
  | .later n => upTo (e.number + n)
  | .multiple n => if n = 0 then e else upTo ((e.number + n - 1) / n * n)
  | .address _ => e.openRange index none

/-- Whether a line is in a range. -/
def inRange (s : Settings) (e : Editor) (index : Nat) (first : Address) (bound : Bound) :
    Option (Bool × Editor) :=
  match e.ranges.lookup index with
  | some (some last) =>
    if e.number < last then some (true, e)
    else if e.number = last then some (true, e.closeRange index)
    else start (e.closeRange index)
  | some none => ending e
  | none =>
    match first, bound with
    | .line 0, _ => if e.number = 1 then ending e else some (false, e)
    | _, _ => start e
where
  /-- The line may start a range. -/
  start (e : Editor) : Option (Bool × Editor) :=
    (e.selects s first).map fun (selected, e) =>
      if selected then (true, e.startRange index bound) else (false, e)
  /-- The line is in a range that may end with it. -/
  ending (e : Editor) : Option (Bool × Editor) :=
    match bound with
    | .address a =>
      (e.selects s a).map fun (selected, e) =>
        (true, if selected then e.closeRange index else e.openRange index none)
    | _ => some (true, e)

/-- Whether an instruction is for this line. -/
def guarded (s : Settings) (e : Editor) (index : Nat) (g : Guard) : Option (Bool × Editor) :=
  let result := match g.first, g.bound with
    | none, _ => some (true, e)
    | some a, none => e.selects s a
    | some a, some b => e.inRange s index a b
  result.map fun (selected, e) => (selected != g.negated, e)

/-! ## Replacements -/

/-- The text of a replacement. -/
def replacementOf (pieces : List Piece) (part : Nat → List Char) : List Char :=
  let apply := fun (c : Case) (x : Char) => if c = .upper then x.toUpper else x.toLower
  let result := pieces.foldl
    (fun (acc : List Char × Option Case × Option Case) p =>
      let (out, lasting, once) := acc
      let add := fun (cs : List Char) =>
        cs.foldl
          (fun (acc : List Char × Option Case × Option Case) x =>
            let (out, lasting, once) := acc
            let x := match once, lasting with
              | some c, _ => apply c x
              | none, some c => apply c x
              | none, none => x
            (x :: out, lasting, none))
          (out, lasting, once)
      match p with
      | .char c => add [c]
      | .part n => add (part n)
      | .case c => (out, c, none)
      | .nextCase c => (out, lasting, some c))
    ([], none, none)
  result.1.reverse

/-- Replaces matches from a position on.  `n` is the number of the next match, and `after` the end
    of the last one, right behind which an empty match does not count. -/
def replaceFrom (m : Matcher) (sub : Substitution) (chars : Array Char) (acc : List Char)
    (hit : Bool) (n : Nat) (after : Option Nat) : (tries i : Nat) → List Char × Bool
  | 0, i => (acc.reverse ++ (chars.extract i chars.size).toList, hit)
  | tries + 1, i =>
    match (if i ≤ chars.size then m.find? chars i else none) with
    | none => (acc.reverse ++ (chars.extract i chars.size).toList, hit)
    | some f =>
      let before := (chars.extract i f.start).toList.reverse ++ acc
      if f.start = f.finish && after = some f.start then
        -- an empty match right behind the last one: passes a character
        replaceFrom m sub chars ((chars[f.start]?.toList) ++ before) hit n none tries (f.start + 1)
      else
        let wanted := if sub.every then sub.nth ≤ n else sub.nth = n
        let here := if wanted then
            (replacementOf sub.replacement (Matcher.partText chars f)).reverse ++ before
          else (chars.extract f.start f.finish).toList.reverse ++ before
        if wanted && !sub.every then
          (here.reverse ++ (chars.extract f.finish chars.size).toList, true)
        else if f.start = f.finish then
          replaceFrom m sub chars ((chars[f.start]?.toList) ++ here) (hit || wanted)
            (n + 1) none tries
            (f.start + 1)
        else
          replaceFrom m sub chars here (hit || wanted) (n + 1) (some f.finish) tries f.finish

/-- Replaces matches in the buffer. -/
def substitute (s : Settings) (e : Editor) (sub : Substitution) : Option Editor :=
  (e.regexOf sub.matcher).map fun (m, e) =>
    let chars := e.buffer.chars.toArray
    let (result, hit) := replaceFrom m sub chars [] false 1 none (chars.size + 2) 0
    if !hit then e
    else
      let e := { e with buffer := { e.buffer with chars := result }, replaced := true }
      let e := if sub.print then e.printLine s e.buffer else e
      match sub.file with
      | some path => e.writeTo path (String.ofList (result ++ ['\n']))
      | none => e

/-! ## Instructions -/

/-- A line without characters that cannot be printed. -/
def visible (width : Nat) (cs : List Char) : String :=
  let shown := cs.map fun c =>
    if c = '\\' then "\\\\" else if isPrintable c then String.singleton c else escapeOf c
  let (lines, current, _) := shown.foldl
    (fun (acc : List String × String × Nat) t =>
      let (lines, current, n) := acc
      if 1 < width && width - 1 < n + t.length then ((current ++ "\\\n") :: lines, t, t.length)
      else (lines, current ++ t, n + t.length))
    ([], "", 0)
  String.join lines.reverse ++ current ++ "$\n"

def firstLine (cs : List Char) : List Char := cs.takeWhile (· ≠ '\n')

/-- Runs one instruction. -/
def act (s : Settings) (script : Array Instruction) (read : String → Option String) (e : Editor)
    (index : Nat) (action : Action) : Step × Editor :=
  let on := Step.go (index + 1)
  let jump := fun (l : String) => Step.go ((labelled? script l).getD script.size)
  let buffer := e.buffer.chars
  match action with
  | .group _ => (on, e)
  | .nothing => (on, e)
  | .label _ => (on, e)
  | .substitute sub =>
    match e.substitute s sub with
    | some e => (on, e)
    | none => (.broken "no previous regular expression", e)
  | .exchangeChars pairs =>
    (on, { e with
      buffer := { e.buffer with chars := buffer.map fun c => (pairs.lookup c).getD c } })
  | .delete => (.finish false, e)
  | .deleteFirst =>
    if buffer.contains '\n' then
      (.again, { e with buffer :=
        { e.buffer with chars := (buffer.dropWhile (· ≠ '\n')).drop 1 } })
    else (.finish false, e)
  | .print => (on, e.printLine s e.buffer)
  | .printFirst => (on, e.printLine s ⟨firstLine buffer, true⟩)
  | .next =>
    if e.hasMore s then
      let e := if s.quiet then e else e.printLine s e.buffer
      match (e.flush read).take s with
      | some (l, e) => (on, { e with buffer := l })
      | none => (.finish true, e)
    else (.finish true, e)
  | .joinNext =>
    if e.hasMore s then
      match (e.flush read).take s with
      | some (l, e) => (on, { e with buffer := ⟨buffer ++ s.lineEnd :: l.chars, l.ended⟩ })
      | none => (.finish true, e)
    else (.finish true, e)
  | .get => (on, { e with buffer := { e.held with ended := e.buffer.ended } })
  | .getMore =>
    (on, { e with buffer := { e.buffer with chars := buffer ++ s.lineEnd :: e.held.chars } })
  | .hold => (on, { e with held := e.buffer })
  | .holdMore =>
      (on, { e with held := { e.held with chars := e.held.chars ++ s.lineEnd :: buffer } })
  | .exchange => (on, { e with buffer := e.held, held := e.buffer })
  | .empty => (on, { e with buffer := { e.buffer with chars := [] } })
  | .quit status silent => (.stop status (!silent), e)
  | .append text => (on, { e with queue := .text text :: e.queue })
  | .insert text => (on, e.print text)
  | .change text =>
    let inside := (e.ranges.lookup index).isSome
    (.finish false, if inside then e else e.print text)
  | .number => (on, e.print (Nat.repr e.number ++ "\n"))
  | .show_ width => (on, e.print (visible (width.getD 70) buffer))
  | .fileName => (on, e.print (e.fileName ++ "\n"))
  | .jump l => (jump l, e)
  | .jumpIf l wanted =>
    if wanted then if e.replaced then (jump l, { e with replaced := false }) else (on, e)
    else if e.replaced then (on, { e with replaced := false }) else (jump l, e)
  | .readFile path => (on, { e with queue := .file path :: e.queue })
  | .readLine path => (on, { e with queue := .lineOf path :: e.queue })
  | .writeFile path => (on, e.writeTo path (String.ofList (buffer ++ ['\n'])))
  | .writeFirst path => (on, e.writeTo path (String.ofList (firstLine buffer ++ ['\n'])))

/-- Runs instructions from one on. -/
def runFrom (s : Settings) (script : Array Instruction) (read : String → Option String) :
    (fuel : Nat) → (index : Nat) → Editor → Step × Editor
  | 0, _, e => (.endless, e)
  | fuel + 1, index, e =>
    match script[index]? with
    | none => (.finish true, { e with patience := fuel })
    | some i =>
      match e.guarded s index i.guard with
      | none => (.broken "no previous regular expression", e)
      | some (false, e) =>
        match i.action with
        | .group after => runFrom s script read fuel after e
        | _ => runFrom s script read fuel (index + 1) e
      | some (true, e) =>
        match e.act s script read index i.action with
        | (.go next, e) => runFrom s script read fuel next e
        | (step, e) => (step, { e with patience := fuel })

/-- Runs cycles until the input ends. -/
def cycles (s : Settings) (script : Array Instruction) (read : String → Option String) :
    (fuel : Nat) → (again : Bool) → Editor → Editor
  | 0, _, e => { e with isEndless := true }
  | fuel + 1, again, e =>
    let started : Option Editor := if again then some e
      else (e.take s).map fun (l, e) => { e with buffer := l }
    match started with
    | none => e.leftovers
    | some e =>
      let (step, e) := runFrom s script read e.patience 0 e
      let shown := fun (print : Bool) (e : Editor) =>
        (if print && !s.quiet then e.printLine s e.buffer else e).flush read
      match step with
      | .stop status print =>
        let e := shown print e
        { e with status := if status = 0 then e.status else status, stopped := true }
      | .finish print => cycles s script read fuel false (shown print e)
      | .go _ => cycles s script read fuel false (shown true e)
      | .again => cycles s script read fuel true (shown false e)
      | .broken text =>
        { e with printed := (true, "sed: -e expression #1, char 0: " ++ text ++ "\n") :: e.printed,
                 status := 1 }
      | .endless => { e with isEndless := true }

end Editor

/-! ## The program -/

/-- The files that a script writes. -/
def writtenFiles (script : Array Instruction) : List String :=
  (script.toList.filterMap fun i => match i.action with
    | .writeFile path => some path
    | .writeFirst path => some path
    | .substitute sub => sub.file
    | _ => none).eraseDups.filter fun p => p ≠ "/dev/stdout" && p ≠ "/dev/stderr"

/-- The lines of a file. -/
def feedOf (lineEnd : Char) (name text : String) : List Feed :=
  let pieces := Text.splitOn lineEnd text.toList
  let (lines, ended) := match pieces.getLast? with
    | some [] => (pieces.dropLast, true)
    | _ => (pieces, false)
  let n := lines.length
  .file name :: lines.zipIdx.map fun (l, i) => .line ⟨l, ended || decide (i + 1 < n)⟩

/-- How many instructions are carried out at most. -/
def maxSteps : Nat := 2000000

/-- Milliseconds that nobody waits for. -/
def forever : Nat := Nat.pow 10 15

def Editor.start (feed : List Feed) (files : List String) : Editor :=
  { buffer := ⟨[], true⟩, held := ⟨[], true⟩, feed, number := 0, fileName := "-", replaced := false,
    lastRegex := none, queue := [], ranges := [], printed := [], open_ := false,
    files := files.map fun p => (p, []), taken := [], status := 0, patience := maxSteps,
    isEndless := false, stopped := false }

def Editor.run (s : Settings) (script : Array Instruction) (read : String → Option String)
    (e : Editor) : Editor := e.cycles s script read maxSteps false

/-- Stores what was written. -/
def writeFiles (c : Call) (t : Tree) (files : List (String × List String)) : Tree :=
  files.foldl (fun t f =>
    match t.write c.cwd (decode f.1) (ofOctets (String.join f.2.reverse)) with
    | .ok t => t
    | .error _ => t) t

def printedText (printed : List (Bool × String)) : String :=
  String.join ((printed.filter fun p => !p.1).map (·.2)).reverse

/-- Edits one file. -/
def editInPlace (c : Call) (s : Settings) (script : Array Instruction) (suffix : String)
    (e : Effect) (path : String) : Effect :=
  let complain := fun (status : Nat) (text : String) => e.complain status (c.name ++ ": " ++ text)
  match c.read e.tree path with
  | .error f =>
    if f = .isADirectory then complain 4 ("couldn't edit " ++ path ++ ": not a regular file")
    else complain 2 ("can't read " ++ path ++ ": " ++ reason f)
  | .ok text =>
    let read := fun (p : String) => (c.read e.tree p).toOption
    let after := (Editor.start (feedOf s.lineEnd path text) (writtenFiles script)).run s script read
    let out := printedText after.printed
    let backup := if suffix = "" then none
      else if suffix.toList.contains '*' then
        some (String.ofList (suffix.toList.flatMap fun ch =>
          if ch = '*' then (baseName path).toList else [ch]))
      else some (path ++ suffix)
    let t := match backup with
      | some b => (e.tree.write c.cwd (decode b) (ofOctets text)).toOption.getD e.tree
      | none => e.tree
    let t := (t.write c.cwd (decode path) (ofOctets out)).toOption.getD t
    let t := writeFiles c t after.files
    let complaints := after.printed.filter fun p => p.1
    { e with tree := t, printed := complaints ++ e.printed,
             wait := if after.isEndless then forever else e.wait,
             status := if after.status = 0 then e.status else after.status }

end Edit

open Edit in
def sed (c : Call) : Effect :=
  let options : Options :=
    { letters := [('n', .no), ('E', .no), ('r', .no), ('s', .no), ('u', .no), ('z', .no),
        ('e', .yes), ('f', .yes), ('l', .yes), ('i', .attached)]
      long := [("quiet", 'n', .no), ("silent", 'n', .no), ("regexp-extended", 'E', .no),
        ("separate", 's', .no), ("unbuffered", 'u', .no), ("null-data", 'z', .no),
        ("zero-terminated", 'z', .no), ("expression", 'e', .yes), ("file", 'f', .yes),
        ("line-length", 'l', .yes), ("in-place", 'i', .attached), ("posix", 'p', .no),
        ("debug", 'D', .no), ("sandbox", 'S', .no), ("follow-symlinks", 'F', .no)] }
  let usage := "Usage: " ++ c.name ++
    " [OPTION]... \x7bscript-only-if-no-other-script\x7d [input-file]..."
  match readOptions options c.args with
  | .error e => c.idle.complain 1 (c.name ++ ": " ++ e ++ "\n" ++ usage)
  | .ok (given, operands) =>
    let listed := given.filter fun g => g.letter = 'e' || g.letter = 'f'
    let bad := listed.findSome? fun g =>
      if g.letter = 'f' then
        match c.readOperand (g.value.getD "") with
        | .error f => some (g.value.getD "", f)
        | .ok _ => none
      else none
    let sources : List Source := listed.map fun g =>
      let v := g.value.getD ""
      if g.letter = 'e' then .expression v
      else
        let text := (c.readOperand v).toOption.getD ""
        let cs := text.toList
        .file v (if cs.getLast? = some '\n' then String.ofList cs.dropLast else text)
    match bad, listed, operands with
    | some (v, f), _, _ => c.fail 4 ("couldn't open file " ++ v ++ ": " ++ reason f)
    | none, [], [] => c.idle.complain 1 usage
    | none, _, _ =>
      let (sources, operands) := if listed.isEmpty then
          ([.expression (operands.headD "")], operands.tail)
        else (sources, operands)
      let extended := has given 'E' || has given 'r'
      match readScript extended sources with
      | .error (status, e) => c.fail status e
      | .ok script =>
        let hushed := match (sources.headD (.expression "")).text.toList with
          | ['#', 'n'] => true
          | '#' :: 'n' :: '\n' :: _ => true
          | _ => false
        let inPlace := has given 'i'
        let s : Settings :=
          { quiet := has given 'n' || hushed, separate := has given 's' || inPlace, extended,
            lineEnd := if has given 'z' then '\x00' else '\n' }
        if inPlace then
          operands.foldl (fun e path =>
            if e.status = 4 then e
            else editInPlace c s script ((valueOf? given 'i').getD "") e path) c.idle
        else
          let paths := orInput operands
          let usable := paths.takeWhile fun p =>
            match c.readOperand p with
            | .error f => f != .isADirectory
            | .ok _ => true
          let folder := paths[usable.length]?
          let feed := (c.texts usable).flatMap fun (p, read) =>
            match read with
            | .ok text => feedOf s.lineEnd p text
            | .error f => [Feed.bad (c.name ++ ": can't read " ++ p ++ ": " ++ reason f ++ "\n")]
          let read := fun (p : String) => (c.readOperand p).toOption
          let after := (Editor.start feed (writtenFiles script)).run s script read
          let e : Effect :=
            { c.idle with printed := after.printed, status := after.status
                          tree := writeFiles c c.tree after.files,
                          wait := if after.isEndless then forever else 0 }
          let e := e.reading paths
          -- what follows the line at which the script ended is left
          let e : Effect := if after.stopped && e.taken = Taken.all then
              let left := after.feed.foldl (fun n f => match f with
                | .line l => n + l.chars.length + (if l.ended then 1 else 0)
                | _ => n) 0
              { e with taken := Taken.some (((c.input.get.toOption).getD "").length - left) }
            else e
          match folder with
          | some p => e.complain 4 (c.name ++ ": read error on " ++ p ++ ": Is a directory")
          | none => e

end Concolic.Utility
