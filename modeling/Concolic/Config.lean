import Concolic.Failure
import Concolic.Text.Blank
import Concolic.Toml.Document
import Concolic.Tree.Operations

/-
  The configuration: defaults, and a file that overlays them.

  A field that the file does not give keeps its default; what nobody knows is ignored.  A section
  may also be an array of its fields in order, of which the last ones may be missing.
-/

namespace Concolic

open Toml (Layout Value)

/-- How sessions are run. -/
structure SessionConfig where
  maxIterations : UInt32
  workDir : String
  writeState : Bool
  deriving DecidableEq, Repr

/-- How the instrumented virtual machine is started. -/
structure ExecutorConfig where
  java : String
  maxHeap : String
  initialHeap : String
  loggerClass : String
  confFile : String
  agentJar : String
  projectRoot : String
  auxClasspath : List String
  extraJvmArgs : List String
  timeoutSeconds : UInt64
  deriving DecidableEq, Repr

/-- What can be configured. -/
structure Config where
  session : SessionConfig
  executor : ExecutorConfig
  deriving DecidableEq, Repr

/-- The session as it is without a file. -/
def SessionConfig.default : SessionConfig :=
  { maxIterations := 100, workDir := "catg_tmp", writeState := true }

/-- The defaults of the executor; its paths are seen from inside the working directory. -/
def ExecutorConfig.default : ExecutorConfig :=
  { java := "java"
    maxHeap := "4096M"
    initialHeap := "2048M"
    loggerClass := "janala.logger.DirectConcolicExecution"
    confFile := "../lib/catg.conf"
    agentJar := "../lib/janala2-gradle-0.2.jar"
    projectRoot := ".."
    auxClasspath :=
      ["../lib/janala2-gradle-0.2.jar", "../lib/asm-all-5.0.4.jar", "../lib/automaton-1.11-8.jar"]
    extraJvmArgs := ["-ea"]
    timeoutSeconds := 0 }

/-- The configuration without a file. -/
def Config.default : Config := ⟨SessionConfig.default, ExecutorConfig.default⟩

/-! ## Why something could not be done -/

/-- What ends the program: a failure of the session, a fault of its own, a configuration file that
    cannot be understood, or a plain message. -/
inductive Problem where
  | failure (cause : Failure)
  | fault (f : Fault)
  | notToml
  | plain (text : String)
  deriving DecidableEq, Repr

namespace Problem

/-- The text of a problem. -/
def message : Problem → String
  | failure cause => cause.message
  | fault f => f.message
  | notToml => "TOML parse error"
  | plain text => text

/-- What to try next; only failures of a session come with advice. -/
def hint? : Problem → Option String
  | failure cause => cause.hint?
  | _ => none

end Problem

namespace Config

/-! ## Values of known types -/

/-- The text, if it is one. -/
def text? : Value → Option String
  | .text s => some s
  | _ => none

/-- The flag, if it is one. -/
def bool? : Value → Option Bool
  | .boolean b => some b
  | _ => none

/-- An integer from zero up, below `limit`. -/
def nat? (limit : Nat) : Value → Option Nat
  | .integer (.ofNat n) => if n < limit then some n else none
  | _ => none

def uint32? (v : Value) : Option UInt32 := (nat? Text.limit32 v).map UInt32.ofNat

def uint64? (v : Value) : Option UInt64 := (nat? Text.limit64 v).map UInt64.ofNat

/-- An array of texts. -/
def texts? : Value → Option (List String)
  | .array items => items.mapM text?
  | _ => none

/-- A field: its default if it is not given, or the value read, if it has the right type. -/
def field {α : Type} (fallback : α) (read : Value → Option α) : Option Value → Option α
  | none => some fallback
  | some v => read v

/-! ## Sections -/

/-- The fields of a section by name: the value of each that is given.  A table in the place of a
    value is shown as a table, which no field is. -/
abbrev Section := String → Option Value

/-- A section that is not there. -/
def noSection : Section := fun _ => none

/-- The fields among the entries of an inline table. -/
def ofEntries (entries : List (List String × Value)) : Section := fun name =>
  match entries.find? fun e => e.1.head? = some name with
  | some ([_], v) => some v
  | some _ => some (.table [])
  | none => none

/-- A section written as an array. -/
def ofItems (names : List String) (items : List Value) : Section := fun name =>
  (names.zip items).lookup name

/-- The fields of a table of the document. -/
def ofTable (l : Layout) (path : List Toml.Step) : Section := fun name =>
  match l.get? (path ++ [.name name]) with
  | some (.leaf v) => some v
  | some _ => some (.table [])
  | none => none

/-- The section of a given name; `names` are its fields in order.  A date in its place gives no
    field, any other single value is a mistake. -/
def section? (l : Layout) (name : String) (names : List String) : Option Section :=
  match l.get? [.name name] with
  | none => some noSection
  | some (.table _) => some (ofTable l [.name name])
  | some (.list n) => some (ofItems names (List.replicate n (.table [])))
  | some (.leaf (.table entries)) => some (ofEntries entries)
  | some (.leaf (.array items)) => some (ofItems names items)
  | some (.leaf .moment) => some noSection
  | some (.leaf _) => none

/-- The keys of `[session]`. -/
def sessionNames : List String := ["max_iterations", "work_dir", "write_state"]

/-- The keys of `[executor]`. -/
def executorNames : List String :=
  ["java", "max_heap", "initial_heap", "logger_class", "conf_file", "agent_jar", "project_root",
   "aux_classpath", "extra_jvm_args", "timeout_seconds"]

/-- The session, overlaid with a section. -/
def sessionOf? (s : Section) : Option SessionConfig := do
  let d := SessionConfig.default
  return {
    maxIterations := ← field d.maxIterations uint32? (s "max_iterations")
    workDir := ← field d.workDir text? (s "work_dir")
    writeState := ← field d.writeState bool? (s "write_state") }

/-- The executor, overlaid with a section. -/
def executorOf? (s : Section) : Option ExecutorConfig := do
  let d := ExecutorConfig.default
  return {
    java := ← field d.java text? (s "java")
    maxHeap := ← field d.maxHeap text? (s "max_heap")
    initialHeap := ← field d.initialHeap text? (s "initial_heap")
    loggerClass := ← field d.loggerClass text? (s "logger_class")
    confFile := ← field d.confFile text? (s "conf_file")
    agentJar := ← field d.agentJar text? (s "agent_jar")
    projectRoot := ← field d.projectRoot text? (s "project_root")
    auxClasspath := ← field d.auxClasspath texts? (s "aux_classpath")
    extraJvmArgs := ← field d.extraJvmArgs texts? (s "extra_jvm_args")
    timeoutSeconds := ← field d.timeoutSeconds uint64? (s "timeout_seconds") }

/-- Both sections, each overlaid. -/
def ofLayout? (l : Layout) : Option Config := do
  let session ← sessionOf? (← section? l "session" sessionNames)
  let executor ← executorOf? (← section? l "executor" executorNames)
  return { session, executor }

/-! ## Loading -/

/-- The two conditions on a configuration. -/
def validate (c : Config) : Except Failure Unit :=
  if c.session.maxIterations = 0 then .error (.config "session.max_iterations must be at least 1")
  else if Text.allBlank c.executor.java then .error (.config "executor.java must not be empty")
  else .ok ()

/-- The configuration of a file; the fields with conditions of their own are checked last. -/
def ofText (text : String) : Except Problem Config :=
  match (Toml.read? text).bind ofLayout? with
  | none => .error .notToml
  | some c =>
    match c.validate with
    | .ok () => .ok c
    | .error cause => .error (.failure cause)

/-- Loads the configuration file at `path`. -/
def loadFrom (cwd : Loc) (t : Tree) (path : String) : Except Problem Config :=
  match t.readText cwd path with
  | .ok text => ofText text
  | .error f => .error (.fault f)

/-- Loads the configuration file at `path` if it is there. -/
def loadIfPresent (cwd : Loc) (t : Tree) (path : String) : Except Problem Config :=
  if t.hasEntry cwd path then loadFrom cwd t path else .ok default

end Config

end Concolic
