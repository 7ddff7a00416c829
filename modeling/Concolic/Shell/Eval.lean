import Concolic.Shell.Process
import Concolic.Shell.Question

/-
  Running scripts and programs.

  A part of a script that has a process of its own runs in a copy of the state, of which only the
  world is kept.  Loops are bounded by the patience of the world, which every command uses up by
  one.
-/

namespace Concolic.Shell

open Concolic.Text (decode octets)

/-- What runs the parts of a command. -/
structure Runner where
  command : Mode → Command → State → State
  /-- Runs a program with an environment in the process of the state.  Only its status and the way
      it ended are put into that process. -/
  program : Image → List (String × String) → State → State

/-! ## Scripts -/

def runAll (r : Runner) (mode : Mode) : List Command → State → State
  | [], s => s
  | [c], s => r.command mode c s
  | c :: rest, s =>
    let s := r.command { mode with last := false } c s
    if s.isNormal then runAll r mode rest s else s

/-- Reads and runs a script line by line. -/
def runLines (r : Runner) (mode : Mode) : (lines : Nat) → Source → State → State
  | 0, _, s => s
  | lines + 1, source, s =>
    let source := { source with
      aliases := s.shell.aliases, nextKey := s.shell.nextKey, documents := [] }
    match nextLine source with
    | (.error c, _) =>
      ((s.withShell fun sh => { sh with line := c.line }).warn c.text).exit 2
    | (.ok none, _) => s
    | (.ok (some cs), source) =>
      let s := s.withShell fun sh =>
        { sh with documents := source.documents ++ sh.documents, nextKey := source.nextKey }
      let s := if s.has 'n' then s else runAll r mode cs s
      if s.isNormal then runLines r mode lines source s else s

def runText (r : Runner) (mode : Mode) (text : String) (s : State) : State :=
  runLines r { mode with last := false } (text.length + 1) (Source.ofText text s.shell.dialect) s

/-- Runs a text as a part of a script, for a command that is named in complaints. -/
def runWithin (r : Runner) (mode : Mode) (command text : String) (s : State) : State :=
  let line := s.shell.line
  let within := s.shell.within
  let s := s.withShell fun sh => { sh with within := some command }
  let s := runText r mode text (s.withStatus 0)
  s.withShell fun sh => { sh with line, within }

def runActions (r : Runner) : List Nat → State → State
  | [], s => s
  | signal :: rest, s =>
    match s.shell.traps.lookup signal with
    | none => runActions r rest s
    | some action =>
      let status := s.shell.status
      let s := runText r .plain action s
      if s.isNormal then runActions r rest (s.withStatus status) else s

def runTraps (r : Runner) (s : State) : State :=
  match s.shell.pending with
  | [] => s
  | signals =>
    if s.isNormal then runActions r signals (s.withShell fun sh => { sh with pending := [] }) else s

/-- Ends a process, with the action that it has for that. -/
def finish (r : Runner) (s : State) : State :=
  if s.shell.flow.ofProcess ≠ .normal then s
  else match s.shell.traps.lookup 0 with
    | none => s
    | some action =>
      let status := s.shell.status
      let s := (s.withShell fun sh =>
        { sh with traps := sh.traps.filter fun t => t.1 ≠ 0 }).withFlow .normal
      let s := runText r .plain action s
      if s.isNormal then s.withStatus status else s

/-! ## Jobs -/

/-- The commands that are run one after the other for a command that is not waited for. -/
def jobSteps : Command → List Command
  | .subshell _ cs => cs
  | .group cs => cs
  | c => [c]

/-- Notes how a job ended. -/
def endJob (r : Runner) (process : Nat) (s : State) : World :=
  let s := finish r s
  let (status, signal) := match s.shell.flow with
    | .killed n => (128 + n, some n)
    | _ => (s.shell.status, none)
  { s.world with ended := ⟨process, status, signal⟩ :: s.world.ended }

/-- Runs the commands of a job; the first that lasts puts the rest off. -/
def continueJob (r : Runner) (process : Nat) : List Command → State → World
  | [], s => endJob r process s
  | c :: rest, s =>
    let after := r.command ⟨false, rest.isEmpty⟩ c s
    let lasting := after.shell.flow = .late || after.shell.flow = .endless
    if lasting || s.world.clock < after.world.clock then
      let wake := if lasting then none else some after.world.clock
      let job : Job := ⟨process, wake, s.world.clock, c :: rest, s.shell⟩
      { s.world with waiting := job :: s.world.waiting, patience := after.world.patience }
    else if after.isNormal then continueJob r process rest after
    else endJob r process after

/-- Starts a command without waiting for it: it is run at once as far as that takes no time, and the
    rest is put off until somebody waits. -/
def startJob (r : Runner) (c : Command) (s : State) : State :=
  let process := s.world.nextProcess
  let s := s.withWorld fun w => { w with nextProcess := process + 1 }
  let child := s.copied.openAs 0 ⟨.device .null, 0, true, false, false⟩
  let world := continueJob r process (jobSteps c) child
  { s with world }.withShell fun sh =>
    { sh with lastJob := some process, jobs := process :: sh.jobs, status := 0 }

def runJob (r : Runner) (job : Job) (w : World) : World :=
  let child : State := ⟨job.shell, { w.withoutJob job.process with clock := job.started }⟩
  match job.commands with
  | [] => endJob r job.process child
  | c :: rest =>
    let child := r.command ⟨false, rest.isEmpty⟩ c child
    if child.isNormal then continueJob r job.process rest child else endJob r job.process child

/-- Runs the jobs that are due until a time. -/
def passJobs (r : Runner) (time : Nat) : (jobs : Nat) → State → State
  | 0, s => s.withFlow .endless
  | jobs + 1, s =>
    let bound := match s.world.limit with
      | some limit => min limit time
      | none => time
    match s.world.nextJob? bound with
    | none => s.delayed time
    | some job => passJobs r time jobs { s with world := runJob r job s.world }

def passUntil (r : Runner) (time : Nat) (s : State) : State :=
  passJobs r time (s.world.patience + s.world.waiting.length + 1) s

/-- Waits until no such job is left. -/
def awaitJobs (r : Runner) (picked : World → Job → Bool) : (times : Nat) → State → State
  | 0, s => s.withFlow .endless
  | times + 1, s =>
    match s.world.waiting.filter (picked s.world) with
    | [] => s
    | j :: js =>
      match ((j :: js).filterMap (·.wake)).min? with
      | none => s.withFlow .late
      | some t =>
        let s := passUntil r t s
        if s.shell.flow = .late || s.shell.flow = .endless then s
        else awaitJobs r picked times s

def await (r : Runner) (picked : World → Job → Bool) (s : State) : State :=
  awaitJobs r picked (s.world.patience + s.world.waiting.length + 1) s

/-- Waits for the jobs that still print to a collector. -/
def drain (r : Runner) (id : Nat) (s : State) : State := await r (fun w j => w.printsTo j id) s

/-- The shell learns how a job ended. -/
def State.told (s : State) (e : Ended) : State :=
  let s := match e.signal with
    | some n => s.tellSignal n
    | none => s
  let s := s.withWorld fun w =>
    { w with ended := w.ended.map fun e' =>
        if e'.process = e.process then { e' with signal := none } else e' }
  s.withStatus (if s.shell.jobs.contains e.process then e.status else 127)

def waitFor (r : Runner) : List String → State → State
  | [], s => s
  | arg :: rest, s =>
    match count? arg with
    | none => (s.refuse "wait" ("Illegal number: " ++ arg)).state
    | some p =>
      let s := await r (fun _ j => j.process = p) s
      if !s.isNormal then s
      else match s.world.ended.find? fun e => e.process = p with
        | some e => waitFor r rest (s.told e)
        | none => waitFor r rest (s.withStatus 127)

def waitCommand (r : Runner) (args : List String) (s : State) : State :=
  if args.isEmpty then
    let s := await r (fun _ j => s.shell.jobs.contains j.process) s
    if s.isNormal then s.withStatus 0 else s
  else waitFor r args s

/-! ## Copies of the process -/

/-- Runs a script in a process of its own and gives what it printed. -/
def capture (r : Runner) (script : List Command) (s : State) : String × State :=
  let since := s.world.nextFile
  let (id, s) := s.addCollector
  let child := s.copied.openAs 1 ⟨.collector id, 0, false, true, false⟩
  let child := finish r (runAll r ⟨false, true⟩ script child)
  let child := drain r id child
  let status := s.shell.status
  let s := s.joined child
  let text := s.collectedText id
  let s := (s.dropCollector id).dropClosed since
  (text, (s.withShell fun sh => { sh with outputStatus := sh.status }).withStatus status)

/-- How a member of a pipeline ended. -/
structure Member where
  /-- The open file with what it printed. -/
  file : Nat
  flow : Flow

/-- The member before this one will never be done: it is still running and nothing that it printed
    was left for it to fail on. -/
def Member.blocks (m : Member) (w : World) : Bool :=
  (m.flow = .late || m.flow = .endless) && w.isUsedUp m.file

/-- Runs the further members of a pipeline, after one that has been run.  `start` is the time at
    which all start, `latest` the time at which the last one of those so far ended, and `failure`
    the last status of them that was not zero. -/
def runMembers (r : Runner) (mode : Mode) (before : Option Member) (start latest failure : Nat) :
    List Command → State → State
  | [], s => s.atTime latest
  | c :: rest, s =>
    let isLast := rest.isEmpty
    let patience := s.world.patience
    let (id, s) := (s.atTime start).addCollector
    let child := match before with
      | some m => s.copied.setDescriptor 0 (some m.file)
      | none => s.copied
    let child := if isLast then child
      else (child.openAs 1 ⟨.collector id, 0, false, true, false⟩).withWorld fun w =>
        { w with patience := patience / 2 }
    let child := finish r (r.command ⟨mode.tested, true⟩ c child)
    let child := if isLast then child
      else (drain r id child).withWorld fun w =>
        { w with patience := w.patience + (patience - patience / 2) }
    let flow := child.shell.flow
    let text := child.collectedText id
    let s := (s.joined child).dropCollector id
    let blocked := before.any fun m => m.blocks s.world
    let failure := if s.shell.status ≠ 0 then s.shell.status else failure
    if blocked then s.withFlow (before.elim .late (·.flow))
    else if isLast then
      let s := s.atTime (max latest s.world.clock)
      if s.shell.pipefail then s.withStatus failure else s
    else
      let ended := flow ≠ .late && flow ≠ .endless
      let latest := if ended then max latest s.world.clock else latest
      let (file, s) := (s.withFlow .normal).addFile ⟨.text text.toList ended, 0, true, false, false⟩
      runMembers r mode (some ⟨file, flow⟩) start latest failure rest s

/-- Runs commands one after the other, each on what the one before printed, but all from the same
    time on. -/
def runPipeline (r : Runner) (mode : Mode) (cs : List Command) (s : State) : State :=
  let since := s.world.nextFile
  (runMembers r mode none s.world.clock s.world.clock 0 cs s).dropClosed since

/-! ## Parts of simple commands -/

/-- Carries out assignments: the texts assigned, the variables as they were before,
    and the state. -/
def assignInOrder (r : Runner) (lasting : Bool) (assigned : List (String × String))
    (saved : List (String × Option Variable)) : List (String × Bool × Word) → State →
    List (String × String) × List (String × Option Variable) × State
  | [], s => (assigned.reverse, saved, s)
  | (name, append, word) :: rest, s =>
    let (text, s) := wordText (capture r) (assignmentWord s word) s
    if !s.isNormal then (assigned, saved, s)
    else
      let old := s.binding? name
      let value := if append then (s.value? name).getD "" ++ text else text
      match s.assign? name value with
      | none =>
        (assigned, saved, s.abort (name ++
          if s.shell.dialect = .extended then ": readonly variable" else ": is read only"))
      | some s =>
        let s := if lasting then s else s.setVariable name ⟨some value, true, false⟩
        assignInOrder r lasting ((name, value) :: assigned) ((name, old) :: saved) rest s

/-- Opens what a redirection asks for; the flag says whether that went well. -/
def redirect (r : Runner) (redirect : Redirect) (s : State) : Bool × State :=
  match redirect with
  | .file d access path =>
    let (text, s) := wordText (capture r) path s
    if s.isNormal then s.redirectTo [d] access text else (false, s)
  | .both access path =>
    let (text, s) := wordText (capture r) path s
    if s.isNormal then s.redirectTo [1, 2] access text else (false, s)
  | .copy d source =>
    let (text, s) := wordText (capture r) source s
    if s.isNormal then s.redirectCopy d text else (false, s)
  | .document d key =>
    let (cs, s) := expandWord (capture r) nesting false ((s.shell.documents.lookup key).getD []) s
    (s.isNormal, s.redirectText d (chunkText cs))
  | .word d word =>
    let (text, s) := wordText (capture r) word s
    (s.isNormal, s.redirectText d (text ++ "\n"))

/-- Opens what redirections ask for, one after the other, as long as that goes well. -/
def redirectAll (r : Runner) : List Redirect → State → Bool × State
  | [], s => (true, s)
  | first :: rest, s =>
    let (opened, s) := redirect r first s
    if opened then redirectAll r rest s else (false, s)

def maxDepth : Nat := 1000

def callFunction (r : Runner) (mode : Mode) (body : Command) (args : List String) (s : State) :
    State :=
  if s.shell.dialect = .plain && maxDepth ≤ s.shell.functionDepth then
    s.abort "Maximum function recursion depth (1000) reached"
  else
    let outer := s.shell
    let s := s.withShell fun sh =>
      { sh with
        args, functionDepth := sh.functionDepth + 1, saved := [] :: sh.saved, loopDepth := 0
        optionPlace := (0, []) }
    let s := r.command { mode with last := false } body s
    let s := s.withVariables (s.shell.saved.headD [])
    let flow := if s.shell.flow = .return then .normal else s.shell.flow
    s.withShell fun sh =>
      { sh with args := outer.args, functionDepth := outer.functionDepth, saved := outer.saved,
                loopDepth := outer.loopDepth, optionPlace := outer.optionPlace, flow }

/-- Runs a program that is named in a script.  `label` is the command that does so. -/
def runNamed (r : Runner) (mode : Mode) (label : Option String) (name : String) (args : List String)
    (s : State) : State :=
  match s.findProgram [] name args with
  | .ok image =>
    let after := r.program image s.programEnvironment s
    match after.shell.flow with
    | .killed n =>
      if mode.last then after
      else ((after.withFlow .normal).tellSignal n).withStatus (128 + n)
    | _ => after
  | .error f =>
    let (status, why) := launchComplaint s name f
    let s := match label with
      | some command => s.warnAs command (name ++ ": " ++ why)
      | none => s.warn (name ++ ": " ++ why)
    s.withStatus status

def runFile (r : Runner) (mode : Mode) (args : List String) (s : State) : Outcome :=
  match args with
  | [] =>
    if s.shell.dialect = .extended then s.refuse "." "filename argument required" else s.done 0
  | name :: more =>
    match s.scriptPath name with
    | .error why => s.refuse "." why
    | .ok path =>
      match s.world.tree.readBlob s.shell.cwd (decode path) with
      | .error f =>
        if f = .isADirectory then s.done 0
        else s.refuse "." ("cannot open " ++ path ++ ": " ++ Utility.reason f)
      | .ok blob =>
        let outer := s.shell.args
        let swap := s.shell.dialect = .extended && !more.isEmpty
        let s := if swap then s.withShell fun sh => { sh with args := more } else s
        let s := runWithin r mode path (octets blob.bytes) s
        let s := if swap then s.withShell fun sh => { sh with args := outer } else s
        ⟨if s.shell.flow = .return then s.withFlow .normal else s, false⟩

def runBuiltin (r : Runner) (mode : Mode) (name : String) (args : List String) (s : State) :
    Outcome :=
  match name with
  | "eval" => ⟨runWithin r mode "eval" (" ".intercalate args) s, false⟩
  | "." => runFile r mode args s
  | "source" => runFile r mode args s
  | "exec" =>
    match args with
    | [] => s.done 0
    | program :: args =>
      let s := runNamed r ⟨mode.tested, true⟩ (some "exec") program args s
      ⟨if s.isNormal then (s.withShell fun sh => { sh with traps := [] }).withFlow .exit else s,
        false⟩
  | "wait" => ⟨waitCommand r args s, false⟩
  | _ => (simpleBuiltin? name args s).getD (s.done 0)

/-- Runs what the words of a command stand for. -/
def runPlan (r : Runner) (mode : Mode) (plan : Plan) (s : State) : State :=
  match plan with
  | .nothing => s.withStatus s.shell.outputStatus
  | .describe brief names =>
    match names with
    | [] => s.withStatus 0
    | name :: _ =>
      let (text, known) := describeName s brief true name
      (s.say "command" text (if known then 0 else 127)).state
  | .function body args => callFunction r mode body args s
  | .program name args => runNamed r mode none name args s
  | .builtin special name args =>
    let o := runBuiltin r mode name args s
    if o.failed && special then o.state.withFlow .exit else o.state

def runSimple (r : Runner) (mode : Mode) (line : Nat) (assignments : List (String × Bool × Word))
    (words : List Word) (redirects : List Redirect) (s : State) : State :=
  let s := s.step line
  if !s.isNormal then s
  else
    let (fields, s) := allFields (capture r) words s
    if !s.isNormal then s
    else
      let plan := s.plan fields
      let outer := s.shell.descriptors
      let since := s.world.nextFile
      let (opened, s) := redirectAll r redirects s
      if !s.isNormal then s
      else if !opened then
        let s := s.restored outer redirects since
        if plan.isSpecial then s.withFlow .exit else s
      else
        let (assigned, saved, s) := assignInOrder r plan.isLasting [] [] assignments s
        if !s.isNormal then s
        else
          let s := if s.has 'x' then s.traced outer (tracedText s assigned fields) else s
          let s := runPlan r mode plan s
          let s := if plan.isLasting then s else s.withVariables saved
          let s := if plan.isExec && s.isNormal then s else s.restored outer redirects since
          s.noticed

/-! ## Compound commands -/

/-- Runs a loop for at most `rounds` rounds; `status` is that of the last one. -/
def runLoop (r : Runner) (mode : Mode) (negated : Bool) (test body : List Command) :
    (rounds : Nat) → (status : Nat) → State → State
  | 0, _, s => s.withFlow .endless
  | rounds + 1, status, s =>
    let s := runAll r .test test s
    if s.isNormal then
      if (s.shell.status == 0) != negated then
        let (more, s) := (runAll r mode body s).afterRound
        if more then runLoop r mode negated test body rounds s.shell.status s else s
      else s.withStatus status
    else
      let (more, s) := s.afterRound
      if more then runLoop r mode negated test body rounds status s else s

def runEach (r : Runner) (mode : Mode) (name : String) (body : List Command) :
    List String → State → State
  | [], s => s
  | word :: rest, s =>
    match s.assign? name word with
    | none => s.abort (name ++ ": is read only")
    | some s =>
      let (more, s) := (runAll r mode body s).afterRound
      if more then runEach r mode name body rest s else s

/-- Whether one of the patterns matches. -/
def matchesAny (r : Runner) (text : List Char) : List Word → State → Bool × State
  | [], s => (false, s)
  | w :: rest, s =>
    let (gs, s) := wordGlyphs (capture r) w s
    if !s.isNormal then (false, s)
    else if (Pattern.ofGlyphs (s.shell.dialect = .extended) gs).matches text then (true, s)
    else matchesAny r text rest s

def runCases (r : Runner) (mode : Mode) (text : List Char) :
    List (List Word × List Command) → State → State
  | [], s => s.withStatus 0
  | (patterns, body) :: rest, s =>
    let (found, s) := matchesAny r text patterns s
    if !s.isNormal then s
    else if found then runAll r mode body (if body.isEmpty then s.withStatus 0 else s)
    else runCases r mode text rest s

/-- Runs a part of a script as a loop, in which the commands to leave one are known. -/
def State.looping (s : State) (run : State → State) : State :=
  let depth := s.shell.loopDepth
  let s := run (s.withShell fun sh => { sh with loopDepth := depth + 1 })
  s.withShell fun sh => { sh with loopDepth := depth }

def perform (r : Runner) (mode : Mode) (c : Command) (s : State) : State :=
  let inner : Mode := { mode with last := false }
  match c with
  | .simple line assignments words redirects =>
    (runTraps r (runSimple r mode line assignments words redirects s)).checked mode
  | .pipeline cs => (runTraps r (runPipeline r mode cs s).noticed).checked mode
  | .negation c =>
    let s := r.command .test c s
    if s.shell.flow = .exit then s else s.withStatus (if s.shell.status = 0 then 1 else 0)
  | .both a b =>
    let s := r.command .test a s
    if s.isNormal && s.shell.status = 0 then r.command mode b s else s
  | .either a b =>
    let s := r.command .test a s
    if s.isNormal && s.shell.status ≠ 0 then r.command mode b s else s
  | .group cs => runAll r mode cs s
  | .background c => startJob r c s
  | .subshell line cs =>
    let s := s.withShell fun sh => { sh with line }
    let child := finish r (runAll r ⟨mode.tested, true⟩ cs s.copied)
    (runTraps r (s.joined child).noticed).checked mode
  | .redirected line (.subshell _ cs) redirects =>
    let s := s.withShell fun sh => { sh with line }
    let since := s.world.nextFile
    let (opened, child) := redirectAll r redirects s.copied
    let child := if opened && child.isNormal then runAll r ⟨mode.tested, true⟩ cs child else child
    (runTraps r ((s.joined (finish r child)).dropClosed since).noticed).checked mode
  | .redirected line c redirects =>
    let s := s.withShell fun sh => { sh with line }
    let outer := s.shell.descriptors
    let since := s.world.nextFile
    let (opened, s) := redirectAll r redirects s
    if opened && s.isNormal then (r.command inner c s).restored outer redirects since
    else (s.restored outer redirects since).checked mode
  | .condition test positive negative =>
    let s := runAll r .test test s
    if !s.isNormal then s
    else if s.shell.status = 0 then runAll r mode positive s
    else if negative.isEmpty then s.withStatus 0
    else runAll r mode negative s
  | .loop negated test body =>
    s.looping fun s => runLoop r inner negated test body (s.world.patience + 1) 0 s
  | .each line name words body =>
    let s := s.withShell fun sh => { sh with line }
    let (fields, s) := match words with
      | some words => allFields (capture r) words s
      | none => (s.shell.args, s)
    if !s.isNormal then s
    else if fields.isEmpty then s.withStatus 0
    else s.looping fun s => runEach r inner name body fields s
  | .choice line word cases =>
    let s := s.withShell fun sh => { sh with line }
    let (text, s) := wordText (capture r) word s
    if s.isNormal then runCases r mode text.toList cases s else s
  | .define _ name body =>
    (s.withShell fun sh =>
      { sh with functions := State.replaceKey name body sh.functions }).withStatus 0
  | .arithmetic line expression =>
    let s := s.step line
    if !s.isNormal then s
    else
      let (text, s) := wordText (capture r) expression s
      match arithmeticValue s text with
      | .ok (v, s) => (s.withStatus (if v = 0 then 1 else 0)).checked mode
      | .error e => ((s.warn e).withStatus 1).checked mode
  | .question line words =>
    let s := s.step line
    if s.isNormal then (Inquiry.ask (capture r) words s).checked mode else s

end Concolic.Shell
