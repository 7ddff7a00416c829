import Concolic.Shell.Arithmetic
import Concolic.Shell.Pattern
import Concolic.Tree.Sharing

/-
  The state in which scripts run.
-/

namespace Concolic.Shell

open Concolic.Text (decode octets ofOctets)

/-! ## Open files -/

/-- What a file is open on. -/
inductive Channel where
  | file (id : Nat)
  | folder
  | device (device : Device)
  /-- A text that is put together, by its number. -/
  | collector (id : Nat)
  /-- A text that is read.  `ended` says that no more will come. -/
  | text (rest : List Char) (ended : Bool)

/-- An open file. -/
structure OpenFile where
  channel : Channel
  offset : Nat
  readable : Bool
  writable : Bool
  /-- Bytes are always added at the end. -/
  appending : Bool

/-! ## Processes -/

/-- A variable, with or without a value. -/
structure Variable where
  value : Option String
  exported : Bool
  fixed : Bool

/-- How to go on. -/
inductive Flow where
  | normal
  /-- Leave so many loops. -/
  | leave (loops : Nat)
  /-- Leave all but one of so many loops and go on with that one. -/
  | again (loops : Nat)
  | return
  | exit
  | killed (signal : Nat)
  | late
  /-- There is no end in sight. -/
  | endless
  deriving DecidableEq, Repr

/-- What a process that reads scripts has for itself. -/
structure Interpreter where
  dialect : Dialect
  /-- The name that complaints start with, `$0`. -/
  name : String
  args : List String
  bindings : List (String × Variable)
  /-- What the variables were before the functions that are running, innermost first. -/
  saved : List (List (String × Option Variable))
  functions : List (String × Command)
  aliases : List (String × String)
  documents : List (Nat × Word)
  nextKey : Nat
  options : List Char
  /-- Failures inside a pipeline count. -/
  pipefail : Bool
  traps : List (Nat × String)
  /-- Signals whose actions are still to be run. -/
  pending : List Nat
  descriptors : List (Nat × Nat)
  cwd : Loc
  status : Nat
  /-- The status of the last script whose output was put in. -/
  outputStatus : Nat
  line : Nat
  /-- What is being carried out by a command such as `eval`, named in complaints. -/
  within : Option String
  process : Nat
  /-- It is a copy that was made by the process. -/
  isCopy : Bool
  lastJob : Option Nat
  jobs : List Nat
  functionDepth : Nat
  loopDepth : Nat
  /-- The argument that `getopts` looks at, and the letters of it that are left. -/
  optionPlace : Nat × List Char
  flow : Flow

/-- A process that nobody waits for. -/
structure Job where
  process : Nat
  /-- When its next command ends, if it does. -/
  wake : Option Nat
  /-- When that command was started. -/
  started : Nat
  commands : List Command
  shell : Interpreter

/-- A process that has ended. -/
structure Ended where
  process : Nat
  status : Nat
  /-- The signal that ended it, if that was not told yet. -/
  signal : Option Nat

/-- What all processes share: the tree, the open files, the clock and the processes that have not
    ended. -/
structure World where
  tree : Tree
  files : List (Nat × OpenFile)
  nextFile : Nat
  collected : List (Nat × List String)
  nextCollector : Nat
  clock : Nat
  limit : Option Nat
  /-- How many more commands are run before the run counts as endless. -/
  patience : Nat
  waiting : List Job
  ended : List Ended
  nextProcess : Nat
  /-- Signals that were sent to a process and not yet noticed. -/
  signals : List (Nat × Nat)

/-- A process and its world. -/
structure State where
  shell : Interpreter
  world : World

namespace State

def withShell (s : State) (f : Interpreter → Interpreter) : State := { s with shell := f s.shell }

def withWorld (s : State) (f : World → World) : State := { s with world := f s.world }

def withStatus (s : State) (status : Nat) : State := s.withShell fun sh => { sh with status }

def withFlow (s : State) (flow : Flow) : State := s.withShell fun sh => { sh with flow }

def isNormal (s : State) : Bool := s.shell.flow = .normal

def exit (s : State) (status : Nat) : State := (s.withStatus status).withFlow .exit

def has (s : State) (option : Char) : Bool := s.shell.options.contains option

/-! ## Variables -/

/-- Replaces the value of a key, or adds it at the end. -/
def replaceKey {α : Type} (key : String) (value : α) : List (String × α) → List (String × α)
  | [] => [(key, value)]
  | (k, v) :: rest => if k = key then (key, value) :: rest else (k, v) :: replaceKey key value rest

def binding? (s : State) (name : String) : Option Variable := s.shell.bindings.lookup name

def value? (s : State) (name : String) : Option String := (s.binding? name).bind (·.value)

def setVariable (s : State) (name : String) (v : Variable) : State :=
  s.withShell fun sh => { sh with bindings := replaceKey name v sh.bindings }

def dropVariable (s : State) (name : String) : State :=
  s.withShell fun sh => { sh with bindings := sh.bindings.filter fun v => v.1 ≠ name }

/-- The state with a value for a variable; none if the variable cannot be changed. -/
def assign? (s : State) (name value : String) : Option State :=
  match s.binding? name with
  | some v =>
    if v.fixed then none
    else
      some (s.setVariable name
        { v with value := some value, exported := v.exported || s.has 'a' })
  | none => some (s.setVariable name ⟨some value, s.has 'a', false⟩)

def environment (s : State) : List (String × String) :=
  s.shell.bindings.filterMap fun (name, v) =>
    if v.exported then v.value.map fun value => (name, value) else none

/-- The characters that separate fields. -/
def separators (s : State) : String := (s.value? "IFS").getD " \t\n"

/-! ## Descriptors -/

def openFile? (s : State) (descriptor : Nat) : Option (Nat × OpenFile) :=
  (s.shell.descriptors.lookup descriptor).bind fun n =>
    (s.world.files.lookup n).map fun f => (n, f)

/-- Makes a descriptor refer to an open file, or closes it. -/
def setDescriptor (s : State) (descriptor : Nat) (file : Option Nat) : State :=
  s.withShell fun sh =>
    let others := sh.descriptors.filter fun d => d.1 ≠ descriptor
    { sh with descriptors := match file with
      | some n => (descriptor, n) :: others
      | none => others }

def addFile (s : State) (f : OpenFile) : Nat × State :=
  let n := s.world.nextFile
  (n, s.withWorld fun w => { w with files := (n, f) :: w.files, nextFile := n + 1 })

def openAs (s : State) (descriptor : Nat) (f : OpenFile) : State :=
  let (n, s) := s.addFile f
  s.setDescriptor descriptor (some n)

def setFile (s : State) (n : Nat) (f : OpenFile) : State :=
  s.withWorld fun w =>
    { w with files := w.files.map fun e => if e.1 = n then (n, f) else e }

/-- Forgets files that nobody refers to. -/
def dropClosed (s : State) (since : Nat) : State :=
  s.withWorld fun w =>
    let used := fun n => s.shell.descriptors.any (fun d => d.2 = n) ||
      w.waiting.any fun j => j.shell.descriptors.any fun d => d.2 = n
    { w with files := w.files.filter fun e => e.1 < since || used e.1 }

/-- A new text that is put together. -/
def addCollector (s : State) : Nat × State :=
  let n := s.world.nextCollector
  (n, s.withWorld fun w =>
    { w with collected := (n, []) :: w.collected, nextCollector := n + 1 })

def collectedText (s : State) (n : Nat) : String :=
  String.join ((s.world.collected.lookup n).getD []).reverse

def dropCollector (s : State) (n : Nat) : State :=
  s.withWorld fun w => { w with collected := w.collected.filter fun c => c.1 ≠ n }

/-- Writes at a place; a gap is filled with zeros. -/
def overwrite (old : ByteArray) (offset : Nat) (new : ByteArray) : ByteArray :=
  if offset = old.size then old ++ new
  else if old.size < offset then
    old ++ ByteArray.mk (Array.replicate (offset - old.size) 0) ++ new
  else old.extract 0 offset ++ new ++ old.extract (offset + new.size) old.size

def write (s : State) (descriptor : Nat) (text : String) : Except Fault State :=
  match s.openFile? descriptor with
  | none => .error .badDescriptor
  | some (n, f) =>
    if !f.writable then .error .badDescriptor
    else if text = "" then .ok s
    else match f.channel with
      | .collector id =>
        .ok (s.withWorld fun w =>
          { w with collected := w.collected.map fun c =>
              if c.1 = id then (id, text :: c.2) else c })
      | .file id =>
        let old := s.world.tree.contents id
        let bytes := ofOctets text
        let offset := if f.appending then old.bytes.size else f.offset
        let tree := s.world.tree.setShared id { old with bytes := overwrite old.bytes offset bytes }
        .ok ((s.withWorld fun w => { w with tree }).setFile n
          { f with offset := offset + bytes.size })
      | .device .full => .error .noSpace
      | _ => .ok s

/-- What is left to read from a descriptor, and whether that is all that will come. -/
def available (s : State) (descriptor : Nat) : Except Fault (String × Bool) :=
  match s.openFile? descriptor with
  | none => .error .badDescriptor
  | some (_, f) =>
    if !f.readable then .error .badDescriptor
    else match f.channel with
      | .text rest ended => .ok (String.ofList rest, ended)
      | .file id =>
        let bytes := (s.world.tree.contents id).bytes
        .ok (octets (bytes.extract f.offset bytes.size), true)
      | .folder => .error .isADirectory
      | .device d => .ok (if d.isEndless then (Text.zeros, false) else ("", true))
      | _ => .ok ("", true)

/-- Goes on after what was read. -/
def consume (s : State) (descriptor n : Nat) : State :=
  match s.openFile? descriptor with
  | none => s
  | some (number, f) =>
    match f.channel with
    | .text rest ended => s.setFile number { f with channel := .text (rest.drop n) ended }
    | _ => s.setFile number { f with offset := f.offset + n }

def isSeekable (s : State) (descriptor : Nat) : Bool :=
  match s.openFile? descriptor with
  | some (_, f) => match f.channel with
    | .file _ => true
    | _ => false
  | none => false

/-- The bytes of a file from `offset` up to the end of the line, that end included. -/
def lineAt (bytes : ByteArray) (acc : List Char) : (fuel offset : Nat) → List Char
  | 0, _ => acc.reverse
  | fuel + 1, offset =>
    if h : offset < bytes.size then
      let c := Text.octet (bytes.get offset h)
      if c = '\n' then (c :: acc).reverse else lineAt bytes (c :: acc) fuel (offset + 1)
    else acc.reverse

def lineOf (acc : List Char) : List Char → List Char
  | [] => acc.reverse
  | '\n' :: _ => ('\n' :: acc).reverse
  | c :: rest => lineOf (c :: acc) rest

/-- The next line of a descriptor, with its end, and whether more may come if it has none. -/
def peekLine (s : State) (descriptor : Nat) : Except Fault (List Char × Bool) :=
  match s.openFile? descriptor with
  | none => .error .badDescriptor
  | some (_, f) =>
    if !f.readable then .error .badDescriptor
    else match f.channel with
      | .text rest ended => .ok (lineOf [] rest, ended)
      | .file id =>
        let bytes := (s.world.tree.contents id).bytes
        .ok (lineAt bytes [] (bytes.size + 1) f.offset, true)
      | .folder => .error .isADirectory
      | .device d => .ok ([], !d.isEndless)
      | _ => .ok ([], true)

/-! ## Opening -/

def openDevice (s : State) (d : Device) (read write : Bool) : Except Fault OpenFile :=
  match d with
  | .descriptor n =>
    match s.openFile? n with
    | some (_, f) => .ok f
    | none => .error .noDevice
  | .terminal => .error .noDevice
  | d => .ok ⟨.device d, 0, read, write, false⟩

/-- Opens the file at a path.  Devices that stand for a descriptor are left to the caller. -/
def openPath (s : State) (access : Access) (path : String) : Except Fault (OpenFile × State) := do
  let t := s.world.tree
  let cwd := s.shell.cwd
  let path := decode path
  let onTree := fun t => s.withWorld fun w => { w with tree := t }
  match access with
  | .read =>
    let loc ← t.lookup cwd true path
    if t.isFolderAt loc then return (⟨.folder, 0, true, false, false⟩, s)
    else match t.device? loc with
      | some d => return (← s.openDevice d true false, s)
      | none =>
        match t.identify loc with
        | some (id, t) => return (⟨.file id, 0, true, false, false⟩, onTree t)
        | none => .error .notFound
  | _ =>
    let loc ← t.writeLoc cwd path
    match t.device? loc with
    | some d => return (← s.openDevice d (access = .readWrite) true, s)
    | none =>
      if access = .write && s.has 'C' && (t.blob? loc).isSome then .error .alreadyExists
      else
        let t := if access = .append || access = .readWrite then t.setBlob loc (t.blobAt loc)
          else t.emptied loc
        match t.identify loc with
        | some (id, t) =>
          return (⟨.file id, 0, access = .readWrite, true, access = .append⟩, onTree t)
        | none => .error .notFound

/-- The place of the file that a descriptor refers to. -/
def fileOf (s : State) (descriptor : Nat) : Option Loc :=
  match s.openFile? descriptor with
  | some (_, f) => match f.channel with
    | .file id => (s.world.tree.entries.find? fun e => e.2 = .shared id).map (·.1)
    | _ => none
  | none => none

/-! ## Complaints -/

/-- What stands before a complaint. -/
def label (s : State) : String :=
  match s.shell.dialect with
  | .plain => s.shell.name ++ ": " ++ Nat.repr s.shell.line ++ ": "
  | .extended => s.shell.name ++ ": line " ++ Nat.repr s.shell.line ++ ": "

def printError (s : State) (text : String) : State :=
  match s.write 2 text with
  | .ok s => s
  | .error _ => s

def warnAs (s : State) (command text : String) : State :=
  s.printError (s.label ++ command ++ ": " ++ text ++ "\n")

def warn (s : State) (text : String) : State :=
  match s.shell.dialect, s.shell.within with
  | .plain, some command => s.warnAs command text
  | _, _ => s.printError (s.label ++ text ++ "\n")

/-- A complaint that ends the process. -/
def abort (s : State) (text : String) : State :=
  (s.warn text).exit (if s.shell.dialect = .extended then 1 else 2)

/-! ## Parameters -/

/-- The letters of the options that are on. -/
def optionLetters (s : State) : String :=
  if s.shell.dialect = .extended then
    String.ofList ("aefhnuvxBC".toList.filter fun c => c = 'h' || c = 'B' || s.has c) ++
      (if s.has 'c' then "c" else if s.has 's' then "s" else "")
  else String.ofList ("ubaCEVvxsnmiIfe".toList.filter s.has)

/-- The value of a parameter. -/
def parameter? (s : State) (name : String) : Option String :=
  match name with
  | "?" => some (Nat.repr s.shell.status)
  | "$" => some (Nat.repr s.shell.process)
  | "#" => some (Nat.repr s.shell.args.length)
  | "-" => some s.optionLetters
  | "!" => s.shell.lastJob.map Nat.repr
  | "0" => some s.shell.name
  | _ =>
    match Text.ofDigits? 10 name.toList with
    | some n => if n = 0 then some s.shell.name else s.shell.args[n - 1]?
    | none => s.value? name

end State

end Concolic.Shell
