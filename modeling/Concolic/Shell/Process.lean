import Concolic.Image
import Concolic.Shell.Builtin

/-
  Processes that run scripts: how one starts, how a copy of it is made and joined again, what its
  redirections refer to, and what the words of a command ask for.
-/

namespace Concolic.Shell

open Concolic.Text (decode octets)

/-! ## Steps -/

/-- How a command is run. -/
structure Mode where
  /-- Its failure is looked at, so that it does not end the script. -/
  tested : Bool
  /-- The process has nothing to do after it. -/
  last : Bool

def Mode.plain : Mode := ⟨false, false⟩

def Mode.test : Mode := ⟨true, false⟩

/-- One more command. -/
def State.step (s : State) (line : Nat) : State :=
  let s := s.withShell fun sh => { sh with line, outputStatus := 0 }
  match s.world.patience with
  | 0 => s.withFlow .endless
  | n + 1 => s.withWorld fun w => { w with patience := n }

/-- A failure that nobody looks at may end the script. -/
def State.checked (s : State) (mode : Mode) : State :=
  if s.isNormal && !mode.tested && s.shell.status ≠ 0 && s.has 'e' then s.withFlow .exit else s

/-- The state after a round of a loop, and whether there may be another one. -/
def State.afterRound (s : State) : Bool × State :=
  match s.shell.flow with
  | .normal => (true, s)
  | .leave 0 => (false, s.withFlow .normal)
  | .leave 1 => (false, s.withFlow .normal)
  | .leave (n + 2) => (false, s.withFlow (.leave (n + 1)))
  | .again 0 => (true, s.withFlow .normal)
  | .again 1 => (true, s.withFlow .normal)
  | .again (n + 2) => (false, s.withFlow (.again (n + 1)))
  | _ => (false, s)

/-- How the process that ran a program goes on after that ended in a flow. -/
def Flow.ofProcess : Flow → Flow
  | .killed n => .killed n
  | .late => .late
  | .endless => .endless
  | _ => .normal

/-! ## Signals -/

/-- Says that a process was ended by a signal. -/
def State.tellSignal (s : State) (signal : Nat) : State :=
  match signalText signal with
  | some text =>
    if s.shell.dialect = .extended then
      if signal = 13 || signal = 2 || signal = 15 then s else s.warn text
    else s.printError (text ++ "\n")
  | none => s

/-- The state after the process noticed the signals that copies of it sent. -/
def State.noticed (s : State) : State :=
  if s.shell.isCopy || s.world.signals.isEmpty then s
  else
    let mine := s.world.signals.filter fun e => e.1 = s.shell.process
    let s := s.withWorld fun w =>
      { w with signals := w.signals.filter fun e => e.1 ≠ s.shell.process }
    mine.foldl (fun s e => if s.isNormal then s.receive e.2 else s) s

/-! ## Copies -/

/-- A copy in a process of its own. -/
def State.copied (s : State) : State :=
  s.withShell fun sh =>
    { sh with
      isCopy := true, traps := sh.traps.filter fun t => t.2 = "", pending := [], jobs := [] }

/-- The process after a copy of it, or a program that it ran, has ended.  The end by a signal is
    told. -/
def State.joined (s child : State) : State :=
  let s := { s with world := child.world }
  match child.shell.flow with
  | .late => s.withFlow .late
  | .endless => s.withFlow .endless
  | .killed n => (s.tellSignal n).withStatus (128 + n)
  | _ => s.withStatus child.shell.status

def State.atTime (s : State) (clock : Nat) : State := s.withWorld fun w => { w with clock }

/-- Later, unless the process is ended before. -/
def State.delayed (s : State) (clock : Nat) : State :=
  match s.world.limit with
  | some limit => if limit < clock then (s.atTime limit).withFlow .late else s.atTime clock
  | none => s.atTime clock

/-- The job that goes on next. -/
def World.nextJob? (w : World) (time : Nat) : Option Job :=
  let due := w.waiting.reverse.filter fun j => j.wake.any fun t => t ≤ time
  match (due.filterMap (·.wake)).min? with
  | some t => due.find? fun j => j.wake = some t
  | none => none

def World.withoutJob (w : World) (process : Nat) : World :=
  { w with waiting := w.waiting.filter fun j => j.process ≠ process }

/-- Whether a job can add to a collected text. -/
def World.printsTo (w : World) (j : Job) (id : Nat) : Bool :=
  j.shell.descriptors.any fun d =>
    match w.files.lookup d.2 with
    | some ⟨.collector n, _, _, _, _⟩ => n = id
    | _ => false

/-- Whether everything was read from a file. -/
def World.isUsedUp (w : World) (file : Nat) : Bool :=
  match w.files.lookup file with
  | some ⟨.text left _, _, _, _, _⟩ => left.isEmpty
  | _ => true

/-! ## Descriptors -/

/-- The descriptors that a redirection changes. -/
def Redirect.descriptors : Redirect → List Nat
  | .file n _ _ => [n]
  | .copy n _ => [n]
  | .document n _ => [n]
  | .word n _ => [n]
  | .both _ _ => [1, 2]

/-- The state with the descriptors that redirections changed as they were. -/
def State.restored (s : State) (outer : List (Nat × Nat))
    (redirects : List Redirect) (since : Nat) : State :=
  if redirects.isEmpty then s
  else
    let touched := redirects.flatMap Redirect.descriptors
    (touched.foldl (fun s d => s.setDescriptor d (outer.lookup d)) s).dropClosed since

/-- The text for a file that cannot be opened. -/
def openingComplaint (s : State) (access : Access) (path : String) (f : Fault) : String :=
  if s.shell.dialect = .extended then
    if f = .alreadyExists then path ++ ": cannot overwrite existing file"
    else path ++ ": " ++ Utility.reason f
  else
    let missing := f = .notFound || f = .notADirectory
    if access = .read then
      "cannot open " ++ path ++ ": " ++ (if missing then "No such file" else Utility.reason f)
    else
      "cannot create " ++ path ++ ": " ++
        (if missing then "Directory nonexistent" else Utility.reason f)

/-- The descriptor that a path stands for. -/
def State.standsFor? (s : State) (path : String) : Option Nat :=
  match s.world.tree.lookup s.shell.cwd true (decode path) with
  | .ok loc =>
    match s.world.tree.device? loc with
    | some (.descriptor n) => some n
    | _ => none
  | .error _ => none

def State.redirectTo (s : State) (descriptors : List Nat) (access : Access) (path : String) :
    Bool × State :=
  let status := if s.shell.dialect = .extended then 1 else 2
  match (s.standsFor? path).bind fun n => s.shell.descriptors.lookup n with
  | some file => (true, descriptors.foldl (fun s d => s.setDescriptor d (some file)) s)
  | none =>
    match s.openPath access path with
    | .ok (f, s) =>
      let (n, s) := s.addFile f
      (true, descriptors.foldl (fun s d => s.setDescriptor d (some n)) s)
    | .error f => (false, (s.warn (openingComplaint s access path f)).withStatus status)

def State.redirectCopy (s : State) (descriptor : Nat) (source : String) : Bool × State :=
  if source = "-" then (true, s.setDescriptor descriptor none)
  else match (if s.shell.dialect = .plain && source.length ≠ 1 then none else natural? source) with
    | some n =>
      match s.shell.descriptors.lookup n with
      | some file => (true, s.setDescriptor descriptor (some file))
      | none =>
        let text := source ++ ": Bad file descriptor"
        if s.shell.dialect = .extended then (false, (s.warn text).withStatus 1)
        -- the descriptor for complaints is closed by then if it is the one to change
        else (false, (if descriptor = 2 then s else s.warn text).withStatus 2)
    | none => (false, s.abort "Syntax error: Bad fd number")

def State.redirectText (s : State) (descriptor : Nat) (text : String) : State :=
  s.openAs descriptor ⟨.text text.toList true, 0, true, false, false⟩

/-! ## What is asked for -/

/-- What the words of a command ask for. -/
inductive Plan where
  | nothing
  /-- A built-in command; a special one ends the script if it fails. -/
  | builtin (special : Bool) (name : String) (args : List String)
  | function (body : Command) (args : List String)
  | program (name : String) (args : List String)
  | describe (brief : Bool) (names : List String)

/-- A command that is no function. -/
def State.ownPlan (s : State) (special : Bool) : List String → Plan
  | [] => .nothing
  | name :: args =>
    if s.isBuiltin name then
      .builtin (special && s.shell.dialect = .plain && specialBuiltins.contains name) name args
    else .program name args

/-- What the words after `command` ask for. -/
def State.commandPlan (s : State) : (fuel : Nat) → List String → Plan
  | 0, _ => .nothing
  | _ + 1, "-v" :: names => .describe true names
  | _ + 1, "-V" :: names => .describe false names
  | fuel + 1, "-p" :: rest => s.commandPlan fuel rest
  | fuel + 1, "command" :: rest => s.commandPlan fuel rest
  | _ + 1, "--" :: rest => s.ownPlan false rest
  | _ + 1, words => s.ownPlan false words

/-- What words ask for. -/
def State.plan (s : State) (words : List String) : Plan :=
  match words with
  | [] => .nothing
  | name :: args =>
    if s.shell.dialect = .plain && specialBuiltins.contains name then .builtin true name args
    else match s.shell.functions.lookup name with
      | some body => .function body args
      | none =>
        if name = "command" then s.commandPlan (args.length + 1) args
        else if name = "builtin" && s.shell.dialect = .extended then s.ownPlan true args
        else s.ownPlan true words

/-- What is run for a program that is named in a script.  A file that has no known form is a script
    of the plain language. -/
def State.findProgram (s : State) (env : List (String × String)) (name : String)
    (args : List String) : Except Fault Image :=
  let path := ((env.lookup "PATH").orElse fun _ => s.value? "PATH").getD ""
  match Image.find s.world.tree s.shell.cwd path name args with
  | .error f =>
    if f = .execFormat then
      let file := if name.toList.contains '/' then some name else s.programPath? name
      match file with
      | some file => .ok ⟨"sh", "/bin/sh", file :: args⟩
      | none => .error f
    else .error f
  | found => found

/-- The status and text for a program that cannot be run. -/
def launchComplaint (s : State) (name : String) (f : Fault) : Nat × String :=
  let missing := f = .notFound || f = .notADirectory
  if s.shell.dialect = .extended then
    if missing then
      (127, if name.toList.contains '/' then "No such file or directory" else "command not found")
    else if f = .accessDenied && s.world.tree.isFolder s.shell.cwd (decode name) then
      (126, "Is a directory")
    else (126, Utility.reason f)
  else if name = "" then (127, "Permission denied")
  else if missing then (127, "not found")
  else (if f = .linkLoop || f = .nameTooLong then 127 else 126, Utility.reason f)

/-- The command is special: its failure ends the script. -/
def Plan.isSpecial : Plan → Bool
  | .builtin special _ _ => special
  | _ => false

/-- Assignments before the command stay. -/
def Plan.isLasting : Plan → Bool
  | .nothing => true
  | plan => plan.isSpecial

/-- Redirections of the command stay. -/
def Plan.isExec : Plan → Bool
  | .builtin _ name _ => name = "exec"
  | _ => false

/-- The path of a file that is run as a part of the script, or why there is none. -/
def State.scriptPath (s : State) (name : String) : Except String String :=
  if name.toList.contains '/' then
    if s.world.tree.hasEntry s.shell.cwd (decode name) then .ok name
    else .error (if s.shell.dialect = .extended then name ++ ": No such file or directory"
      else "cannot open " ++ name ++ ": No such file")
  else
    let isFile := fun (p : String) =>
      match s.world.tree.lookup s.shell.cwd true (decode p) with
      | .ok loc => !s.world.tree.isFolderAt loc
      | .error _ => false
    let found := ((Image.searchFolders ((s.value? "PATH").getD "")).map fun dir =>
      Utility.inFolder dir name).find? isFile
    match found with
    | some path => .ok path
    | none =>
      if s.shell.dialect = .extended then
        if isFile name then .ok name else .error (name ++ ": No such file or directory")
      else .error (name ++ ": not found")

/-! ## Showing commands -/

/-- A command as it is shown before it is run. -/
def tracedText (s : State) (assigned : List (String × String)) (fields : List String) : String :=
  let words := (assigned.map fun a => a.1 ++ "=" ++ a.2) ++ fields
  (s.value? "PS4").getD "+ " ++ " ".intercalate words ++ "\n"

/-- The state after a text was printed where complaints went before redirections. -/
def State.traced (s : State) (outer : List (Nat × Nat)) (text : String) : State :=
  let inner := s.shell.descriptors
  let s := (s.withShell fun sh => { sh with descriptors := outer }).printError text
  s.withShell fun sh => { sh with descriptors := inner }

/-- Gives variables their former values back. -/
def State.withVariables (s : State) (saved : List (String × Option Variable)) : State :=
  saved.foldl (fun s e => match e.2 with
    | some v => s.setVariable e.1 v
    | none => s.dropVariable e.1) s

/-! ## Starting -/

/-- The value of `PWD` for a process that starts: the one it is given if that is right. -/
def workingPath (t : Tree) (cwd : Loc) (given : Option String) : String :=
  match given with
  | some path =>
    if path.toList.head? = some '/' &&
        (t.lookup [] true (decode path)).toOption = some cwd then path
    else pathOf cwd
  | none => pathOf cwd

/-- A process that starts to read a script. -/
def Interpreter.start (dialect : Dialect) (name : String) (env : List (String × String)) (t : Tree)
    (cwd : Loc) (process : Nat) (descriptors : List (Nat × Nat)) : Interpreter :=
  let given := (env.filter fun e => isName e.1 && e.1 ≠ "IFS").map fun e =>
    (e.1, (⟨some e.2, true, false⟩ : Variable))
  let path : List (String × Variable) :=
    if (env.lookup "PATH").isSome then [] else [("PATH", ⟨some Machine.searchPath, false, false⟩)]
  let own : List (String × Variable) := path ++
    [("OPTIND", ⟨some "1", false, false⟩), ("IFS", ⟨some " \t\n", false, false⟩),
     ("PS1", ⟨some "# ", false, false⟩), ("PS2", ⟨some "> ", false, false⟩),
     ("PS4", ⟨some "+ ", false, false⟩), ("PPID", ⟨some (Nat.repr (process - 1)), false, false⟩),
     ("PWD", ⟨some (workingPath t cwd (env.lookup "PWD")), true, false⟩)]
  { dialect, name, args := [],
    bindings := own.foldl (fun vs v => State.replaceKey v.1 v.2 vs) given,
    saved := [], functions := [], aliases := [], documents := [], nextKey := 0, options := [],
    pipefail := false, traps := [], pending := [], descriptors, cwd, status := 0, outputStatus := 0,
    line := 1, within := none, process, isCopy := false, lastJob := none, jobs := [],
    functionDepth := 0, loopDepth := 0, optionPlace := (0, []), flow := .normal }

/-- What a program that reads scripts was asked to do. -/
inductive Start where
  /-- To read a script; its text, the name it goes by, and its arguments. -/
  | script (text name : String) (args : List String)
  /-- Nothing that it understands. -/
  | refused (text : String) (status : Nat)

/-- The letters of the options that come first. -/
def leadingLetters : List String → List Char
  | [] => []
  | arg :: rest =>
    match arg.toList with
    | ['-', '-'] => []
    | sign :: c :: cs =>
      if sign = '-' || sign = '+' then
        c :: cs ++ leadingLetters (if (c :: cs).contains 'o' then rest.drop 1 else rest)
      else []
    | _ => []
  termination_by args => args.length
  decreasing_by
    simp only [List.length_cons]
    split
    · rw [List.length_drop]; omega
    · omega

/-- Where the script of a shell comes from. -/
def startOf (image : Image) (s : State) : State × Start :=
  let letters := leadingLetters image.args
  match readSetOptions s (image.args.length + 1) image.args with
  | .error e => (s, .refused e 2)
  | .ok (s, operands, _) =>
    if letters.contains 'c' then
      match operands with
      | [] =>
        (s, .refused (if s.shell.dialect = .extended then "-c: option requires an argument"
          else "-c requires an argument") 2)
      | [script] => (s, .script script image.name [])
      | script :: name :: args => (s, .script script name args)
    else if operands.isEmpty || letters.contains 's' then
      match s.available 0 with
      | .ok (text, _) => (s.consume 0 text.length, .script text image.name operands)
      | .error _ => (s, .script "" image.name operands)
    else
      let file := operands.headD ""
      match s.world.tree.readBlob s.shell.cwd (decode file) with
      | .ok blob => (s, .script (octets blob.bytes) file operands.tail)
      | .error f =>
        if s.shell.dialect = .extended then
          let missing := f = .notFound
          (s, .refused (file ++ ": " ++ Utility.reason f) (if missing then 127 else 126))
        else if f = .isADirectory then (s, .script "" file operands.tail)
        else (s, .refused (openingComplaint s .read file f) 2)

/-! ## Programs -/

/-- The slot in which a variable is kept, which decides on the order in which programs see them. -/
def slotOf (name : String) : Nat :=
  match name.toList with
  | [] => 0
  | c :: cs => ((c :: cs).foldl (fun n c => n + c.toNat) (c.toNat * 16)) % 39

/-- The variables that a program finds, in order. -/
def State.programEnvironment (s : State) : List (String × String) :=
  s.environment.mergeSort fun a b => slotOf a.1 ≤ slotOf b.1

def State.call (s : State) (image : Image) (env : List (String × String)) : Utility.Call :=
  { name := image.name, args := image.args, tree := s.world.tree, cwd := s.shell.cwd,
    input := Thunk.mk fun _ => (s.available 0).map (·.1),
    seekable := s.isSeekable 0, outputFile := s.fileOf 1, environment := env }

/-- The size of the pieces in which programs read what they cannot go back in. -/
def pieceSize : Nat := 8192

/-- What a program took from its input. -/
def State.taken (s : State) (taken : Utility.Taken) : State :=
  match taken with
  | .nothing => s
  | .all =>
    match s.available 0 with
    | .ok (text, true) => s.consume 0 text.length
    | .ok (text, false) => (s.consume 0 text.length).withFlow .late
    | .error _ => s
  | .some n =>
    match s.available 0 with
    | .ok (text, ended) =>
      if s.isSeekable 0 || !ended then
        let s := s.consume 0 n
        if !ended && text.length < n then s.withFlow .late else s
      else s.consume 0 (min text.length ((n + pieceSize - 1) / pieceSize * pieceSize))
    | .error _ => s

/-- The status and text of a program that cannot print. -/
def printFailure (program name : String) (f : Fault) : Nat × String :=
  let why := Utility.reason f
  let more := if f = .noSpace then "" else ": " ++ why
  match program with
  | "sed" => (4, name ++ ": couldn't flush stdout: " ++ why)
  | "ls" => (2, name ++ ": write error: " ++ why)
  | "grep" => (2, name ++ ": write error: " ++ why)
  | "printenv" => (2, name ++ ": write error: " ++ why)
  | "expr" => (3, name ++ ": write error: " ++ why)
  | "env" => (125, name ++ ": write error: " ++ why)
  | "sort" =>
    (2, name ++ ": fflush failed: 'standard output': " ++ why ++ "\n" ++ name ++
      ": write error" ++ more)
  | "wc" => (1, name ++ ": write error" ++ more)
  | "cat" => (1, name ++ (if f = .os 9 then ": standard output: " else ": write error: ") ++ why)
  | _ => (1, name ++ ": write error: " ++ why)

/-- The state after a program. -/
def State.absorb (s : State) (program name : String) (e : Utility.Effect) : State :=
  let s := s.withWorld fun w => { w with tree := e.tree }
  let s := s.taken e.taken
  let (s, failure) := e.printed.reverse.foldl
    (fun (acc : State × Option Fault) p =>
      match acc.1.write (if p.1 then 2 else 1) p.2 with
      | .ok s => (s, acc.2)
      | .error f => (acc.1, if p.1 || p.2 = "" then acc.2 else some f))
    (s, none)
  match failure with
  | none => s.withStatus e.status
  | some f =>
    let (status, text) := printFailure program name f
    (s.printError (text ++ "\n")).withStatus status

end Concolic.Shell
