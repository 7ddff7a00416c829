import Concolic.Help
import Concolic.Text.Decimal

/-
  The command line, read from left to right.

  An option whose value stands in the next argument stays open until something else completes it.
  Only then is its value looked at, so an unknown option or a surplus argument before it is found
  first.
-/

namespace Concolic

/-- What a command line asks for.  Options that were not given are `none`. -/
structure Arguments where
  classpath : Option String
  entryPoint : Option String
  iterations : Option UInt32
  workDir : Option String
  timeout : Option UInt64
  config : Option String
  quiet : Bool
  dryRun : Bool
  /-- The number of finished sessions to list, if the status page is asked for. -/
  statusHistory : Option UInt64
  deriving DecidableEq, Repr

namespace Arguments

/-- Nothing given. -/
def none : Arguments :=
  { classpath := .none, entryPoint := .none, iterations := .none, workDir := .none,
    timeout := .none, config := .none, quiet := false, dryRun := false, statusHistory := .none }

/-- Class path and entry point, if a session is asked for. -/
def target (a : Arguments) : Option (String × String) :=
  match a.classpath, a.entryPoint with
  | some c, some e => some (c, e)
  | _, _ => .none

/-- What is wrong with a command line. -/
inductive Misuse where
  /-- A positional argument is missing. -/
  | missingRequired
  /-- There is no such option, or no place for the argument. -/
  | unknown
  /-- An option has no value, or an empty one where that makes no sense. -/
  | invalidValue
  /-- A value is not a number of the right size. -/
  | notANumber
  /-- An option is given twice, or an argument cannot go with those before it. -/
  | conflict
  /-- A flag is given a value. -/
  | tooManyValues
  /-- There is no help on this. -/
  | invalidSubcommand
  deriving DecidableEq, Repr

/-- Why a command line is not carried out. -/
inductive Refusal where
  | misuse (kind : Misuse)
  | help (text : String)
  | version (text : String)
  deriving DecidableEq, Repr

/-! ## Options -/

/-- The options that take a value. -/
inductive Valued where
  | iterations
  | workDir
  | timeout
  | config
  | history
  deriving DecidableEq, Repr

/-- The options without a value. -/
inductive Flag where
  | quiet
  | dryRun
  | help
  | version
  deriving DecidableEq, Repr

/-- What the name of an option stands for. -/
inductive Named where
  | valued (o : Valued)
  | flag (f : Flag)
  deriving DecidableEq, Repr

/-- Is a session or the status page asked for? -/
inductive Mode where
  | session
  | status
  deriving DecidableEq, Repr

/-- The option with a given long name. -/
def longOption : Mode → String → Option Named
  | .session, name =>
    if name = "iterations" then some (.valued .iterations)
    else if name = "work-dir" then some (.valued .workDir)
    else if name = "timeout" then some (.valued .timeout)
    else if name = "config" then some (.valued .config)
    else if name = "quiet" then some (.flag .quiet)
    else if name = "dry-run" then some (.flag .dryRun)
    else if name = "help" then some (.flag .help)
    else if name = "version" then some (.flag .version)
    else .none
  | .status, name =>
    if name = "history" then some (.valued .history)
    else if name = "help" then some (.flag .help)
    else .none

/-- The option that a single letter names. -/
def shortOption : Mode → Char → Option Named
  | .session, c =>
    if c = 'i' then some (.valued .iterations)
    else if c = 'h' then some (.flag .help)
    else if c = 'V' then some (.flag .version)
    else .none
  | .status, c => if c = 'h' then some (.flag .help) else .none

/-- Whether the option was given already. -/
def has (a : Arguments) : Valued → Bool
  | .iterations => a.iterations.isSome
  | .workDir => a.workDir.isSome
  | .timeout => a.timeout.isSome
  | .config => a.config.isSome
  | .history => a.statusHistory.isSome

/-- A number of 32 bits, read with either sign. -/
def uint32? (text : String) : Option UInt32 :=
  match Text.signed? text.toList with
  | some (.ofNat n) => if n < Text.limit32 then some (UInt32.ofNat n) else .none
  | _ => .none

/-- A decimal number of 64 bits. -/
def uint64? (text : String) : Option UInt64 :=
  (Text.unsigned? Text.limit64 text.toList).map UInt64.ofNat

/-- A value that has to be a number. -/
def number {α : Type} : Option α → Except Refusal α
  | some n => .ok n
  | .none => .error (.misuse .notANumber)

/-- Stores the value of an option, which may be given only once. -/
def set (a : Arguments) (o : Valued) (value : String) : Except Refusal Arguments :=
  if a.has o then .error (.misuse .conflict)
  else match o with
    | .iterations => (number (uint32? value)).map fun n => { a with iterations := some n }
    | .workDir =>
      if value = "" then .error (.misuse .invalidValue) else .ok { a with workDir := some value }
    | .timeout => (number (uint64? value)).map fun n => { a with timeout := some n }
    | .config => .ok { a with config := some value }
    | .history => (number (uint64? value)).map fun n => { a with statusHistory := some n }

/-! ## Reading -/

/-- An option that may still get its value. -/
structure Open where
  option : Valued
  value : Option String
  deriving DecidableEq, Repr

/-- The arguments read so far. -/
structure Reading where
  mode : Mode
  args : Arguments
  pending : Option Open
  /-- Every further argument is positional. -/
  literal : Bool
  deriving DecidableEq, Repr

namespace Reading

/-- Nothing read yet. -/
def start (mode : Mode) : Reading := ⟨mode, Arguments.none, .none, false⟩

/-- Completes the option that is open. -/
def resolve (r : Reading) : Except Refusal Reading :=
  match r.pending with
  | .none => .ok r
  | some ⟨_, .none⟩ => .error (.misuse .invalidValue)
  | some ⟨o, some value⟩ => (r.args.set o value).map fun args => { r with args, pending := .none }

/-- Acts on an option without a value. -/
def setFlag (r : Reading) (f : Flag) : Except Refusal Reading := do
  let r ← r.resolve
  match f with
  | .help =>
    .error (.help (match r.mode with
      | .session => Help.program
      | .status => Help.status))
  | .version => .error (.version Help.versionText)
  | .quiet =>
    if r.args.quiet then .error (.misuse .conflict)
    else .ok { r with args := { r.args with quiet := true } }
  | .dryRun =>
    if r.args.dryRun then .error (.misuse .conflict)
    else .ok { r with args := { r.args with dryRun := true } }

/-- Enters an option with its value, if that stands in the same argument; otherwise it is open. -/
def setValued (r : Reading) (o : Valued) (value : Option String) : Except Refusal Reading := do
  let r ← r.resolve
  match value with
  | some v => (r.args.set o v).map fun args => { r with args }
  | .none => .ok { r with pending := some ⟨o, .none⟩ }

/-- An option by its long name, with the value after an equals sign. -/
def long (r : Reading) (body : List Char) : Except Refusal Reading :=
  let name := String.ofList (body.takeWhile (· ≠ '='))
  let value := match body.dropWhile (· ≠ '=') with
    | _ :: rest => some (String.ofList rest)
    | [] => .none
  match longOption r.mode name with
  | .none => .error (.misuse .unknown)
  | some (.flag f) =>
    match value with
    | some _ => .error (.misuse .tooManyValues)
    | .none => r.setFlag f
  | some (.valued o) => r.setValued o value

/-- Options by their letters.  The first that takes a value takes the rest of the argument, less
    an equals sign at its start. -/
def short : Reading → List Char → Except Refusal Reading
  | r, [] => .ok r
  | r, c :: rest =>
    match shortOption r.mode c with
    | .none => .error (.misuse .unknown)
    | some (.flag f) => do
      let r ← r.setFlag f
      r.short rest
    | some (.valued o) =>
      r.setValued o (match rest with
        | [] => .none
        | '=' :: value => some (String.ofList value)
        | value => some (String.ofList value))

/-- Takes an argument that is no option. -/
def positional (r : Reading) (arg : String) : Except Refusal Reading :=
  match r.mode, r.args.classpath, r.args.entryPoint with
  | .status, _, _ => .error (.misuse .unknown)
  | .session, .none, _ => do
    let r ← r.resolve
    .ok { r with args := { r.args with classpath := some arg } }
  | .session, some _, .none => do
    let r ← r.resolve
    .ok { r with args := { r.args with entryPoint := some arg } }
  | .session, some _, some _ => .error (.misuse .conflict)

/-- Reads one argument; after `--` every argument is positional. -/
def step (r : Reading) (arg : String) : Except Refusal Reading :=
  if r.literal then r.positional arg
  else match arg.toList with
    | ['-', '-'] => .ok { r with literal := true }
    | '-' :: '-' :: body => r.long body
    | '-' :: c :: rest => r.short (c :: rest)
    | _ =>
      match r.pending with
      | some ⟨o, .none⟩ => .ok { r with pending := some ⟨o, some arg⟩ }
      | _ => r.positional arg

/-- Reads arguments one after the other. -/
def steps : Reading → List String → Except Refusal Reading
  | r, [] => .ok r
  | r, arg :: rest => do
    let r ← r.step arg
    r.steps rest

end Reading

/-- The default number of finished sessions on the status page. -/
def defaultHistory : UInt64 := 5

/-- The arguments after the word `status`, which is special only as first argument. -/
def parseStatus (rest : List String) : Except Refusal Arguments := do
  let r ← (Reading.start .status).steps rest
  let r ← r.resolve
  return { r.args with statusHistory := some (r.args.statusHistory.getD defaultHistory) }

/-- The arguments after `help`: which help is asked for. -/
def parseHelp : List String → Refusal
  | [] => .help Help.program
  | ["status"] => .help Help.status
  | ["help"] => .help Help.help
  | _ => .misuse .invalidSubcommand

/-- The arguments of a session, of which two are required. -/
def parseSession (args : List String) : Except Refusal Arguments := do
  let r ← (Reading.start .session).steps args
  let r ← r.resolve
  if r.args.target.isSome then return r.args else .error (.misuse .missingRequired)

/-- Reads a command line, without the name of the program. -/
def parse : List String → Except Refusal Arguments
  | "status" :: rest => parseStatus rest
  | "help" :: rest => .error (parseHelp rest)
  | args => parseSession args

end Arguments

end Concolic
