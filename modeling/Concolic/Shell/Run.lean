import Concolic.Shell.Find
import Concolic.Utility.Installed

/-
  Running any program.
-/

namespace Concolic.Shell

def runShell (r : Runner) (dialect : Dialect) (image : Image) (env : List (String × String))
    (s : State) : State :=
  let process := s.world.nextProcess
  let inner : State :=
    { shell := Interpreter.start dialect image.name env s.world.tree s.shell.cwd process
        s.shell.descriptors
      world := { s.world with nextProcess := process + 1 } }
  let (inner, start) := startOf image inner
  let inner := match start with
    | .refused text status =>
      let place := if dialect = Dialect.extended then ": " else ": 0: "
      (inner.printError (image.name ++ place ++ text ++ "\n")).exit status
    | .script text name args =>
      finish r (runText r .plain text (inner.withShell fun sh => { sh with name, args }))
  ({ s with world := inner.world }.withStatus inner.shell.status).withFlow
    inner.shell.flow.ofProcess

/-- The programs that read their whole input. -/
def readers : List String :=
  ["cat", "wc", "sort", "tail", "tac", "rev", "nl", "grep", "sed", "cut", "fold", "uniq",
    "paste", "expand"]

/-- Runs a program that does one thing, and lets the time pass that it waits. -/
def runUtility (r : Runner) (run : Utility.Call → Utility.Effect) (image : Image)
    (env : List (String × String)) (s : State) : State :=
  -- `cat` looks at its output before anything else
  let closed := image.program = "cat" && (s.shell.descriptors.lookup 1).isNone
  let e := if closed then (s.call image env).fail 1 "standard output: Bad file descriptor"
    else run (s.call image env)
  let s := s.absorb image.program image.name e
  if !s.isNormal then s
  else if readers.contains image.program && image.args.any (s.call image env).isEndless then
    s.withFlow .endless
  else if e.wait = 0 then s
  else passUntil r (s.world.clock + e.wait) s

def runYes (image : Image) (s : State) : State :=
  let text := Utility.yesText image.args
  (s.absorb image.program image.name
    { Utility.Effect.none s.world.tree with printed := [(false, text)] }).withFlow .endless

/-- Runs a program by its name. -/
def execute (r : Runner) (image : Image) (env : List (String × String)) (s : State) : State :=
  let u : Setup := ⟨image.name, env⟩
  match image.program with
  | "sh" => runShell r .plain image env s
  | "dash" => runShell r .plain image env s
  | "bash" => runShell r .extended image env s
  | "env" => runEnv u r image.args s
  | "nice" => runNice u r image.args s
  | "nohup" =>
    runPlainly u r (Utility.Options.ofLetters "" "" [])
      (fun name => "failed to run command " ++ Utility.quoted name) image.args s
  | "setsid" =>
    runPlainly u r (Utility.Options.ofLetters "cfw" "" [])
      (fun name => "failed to execute " ++ name) image.args s
  | "stdbuf" =>
    if image.args.any fun a => a.toList.head? = some '-' then
      runPlainly u r (Utility.Options.ofLetters "" "ioe" [])
        (fun name => "failed to run command " ++ Utility.quoted name) image.args s
    else u.misuse 125 "you must specify a buffering mode option" s
  | "timeout" => runTimeout u r image.args s
  | "xargs" => runXargs u r image.args s
  | "find" => runFind u r image.args s
  | "yes" => runYes image s
  | program =>
    match Utility.installed? program with
    | some run => runUtility r run image env s
    | none => s.withStatus 0

/-- Runs what is nested at most so deep. -/
def runner : (depth : Nat) → Runner
  | 0 => ⟨fun _ _ s => s.withFlow .endless, fun _ _ s => s.withFlow .endless⟩
  | depth + 1 =>
    { command := fun mode c s => perform (runner depth) mode c s
      program := fun image env s => execute (runner depth) image env s }

end Concolic.Shell
