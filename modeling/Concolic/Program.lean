import Concolic.Arguments
import Concolic.Home
import Concolic.Launch
import Concolic.Recorder
import Concolic.Status

/-
  The whole program: what a command line does to the tree, what it prints and how it exits.
-/

namespace Concolic

/-- What the program depends on besides its arguments and the tree. -/
structure Environment where
  host : Host
  home : Home
  clock : Clock
  /-- The identifier of a new session. -/
  sessionId : String
  /-- The time of day, as text. -/
  now : String

namespace Program

/-- The configuration with what the command line gives in place of its own values. -/
def effective (a : Arguments) (c : Config) : Config :=
  { session := { c.session with
      maxIterations := a.iterations.getD c.session.maxIterations
      workDir := a.workDir.getD c.session.workDir }
    executor := { c.executor with
      timeoutSeconds := a.timeout.getD c.executor.timeoutSeconds } }

/-- The time an executor may take, if it is limited. -/
def timeout? (c : ExecutorConfig) : Option Duration :=
  if c.timeoutSeconds = 0 then none else some (Duration.ofSeconds c.timeoutSeconds)

/-- What a moment of a run shows: the line of an event, unless they are not wanted, or what the
    executor printed. -/
def momentOutput (quiet : Bool) : Moment → Console
  | .event e _ => if quiet then Console.empty else Console.ofLine e.line
  | .invocation _ _ output => output

/-- What a whole run prints. -/
def traceOutput (quiet : Bool) (trace : List Moment) : Console :=
  trace.foldl (fun c m => c ++ momentOutput quiet m) Console.empty

/-- The end of a run: the tree, the output, and what went wrong if something did. -/
structure Finish where
  tree : Tree
  output : Console
  result : Except Problem Unit

/-- What a run leaves and prints. -/
def ended {σ : Type} (quiet : Bool) (e : Run.Ended σ) : Finish :=
  { tree := e.tree
    output := traceOutput quiet e.trace
    result := match e.result with
      | .ok _ => .ok ()
      | .error cause => .error (.failure cause) }

/-- Runs the session that the command line and the configuration describe. -/
def runSession (env : Environment) (a : Arguments) (config : Config) (t : Tree) : Finish :=
  match a.target with
  | none => ⟨t, Console.empty, .error (.plain "usage: catg <classpath> <entry_point>")⟩
  | some (classpath, entryPoint) =>
    let config := effective a config
    if config.session.maxIterations = 0 then
      ⟨t, Console.empty, .error (.plain "iteration budget must be at least 1")⟩
    else
      let session := (Session.new env.sessionId entryPoint classpath
        config.session.workDir).withBudget
        config.session.maxIterations
      let command := Command.instrumented config.executor entryPoint classpath
      if a.dryRun then ⟨t, ⟨command.render ++ "\n", ""⟩, .ok ()⟩
      else
        let executor :=
          Launch.executor env.host.cwd command session.workDir (timeout? config.executor)
        if config.session.writeState then
          let recorder : Recorder := ⟨⟨env.home.stateDir⟩, env.host.cwd, env.now⟩
          ended a.quiet (run
            { host := env.host, session, executor, observer := recorder.observer,
              clock := env.clock }
            false (Recorder.pending session env.now) t)
        else
          ended a.quiet (run
            { host := env.host, session, executor, observer := Observer.silent, clock := env.clock }
            false () t)

/-- The configuration that a command line asks for. -/
def loadConfig (env : Environment) (a : Arguments) (t : Tree) : Except Problem Config :=
  match a.config with
  | some path => Config.loadFrom env.host.cwd t path
  | none => Config.loadIfPresent env.host.cwd t env.home.configFile

/-- What the program does with arguments it understands. -/
def perform (env : Environment) (a : Arguments) (t : Tree) : Finish :=
  match loadConfig env a t with
  | .error problem => ⟨t, Console.empty, .error problem⟩
  | .ok config =>
    match a.statusHistory with
    | some limit =>
      ⟨t, ⟨Status.ofStateDir ⟨env.home.stateDir⟩ env.host.cwd limit.toNat t, ""⟩, .ok ()⟩
    | none => runSession env a config t

/-- How a problem is reported. -/
def complaint (problem : Problem) : String :=
  "error: " ++ problem.message ++ "\n" ++
    match problem.hint? with
    | some hint => "hint: " ++ hint ++ "\n"
    | none => ""

/-- How the program exits: the tree, the output and the exit code. -/
structure Exit where
  tree : Tree
  output : Console
  code : Nat

/-- Reads the command line, then the configuration; then shows the status or runs a session. -/
def start (env : Environment) (args : List String) (t : Tree) : Exit :=
  match Arguments.parse args with
  | .error (.help text) => ⟨t, ⟨text, ""⟩, 0⟩
  | .error (.version text) => ⟨t, ⟨text, ""⟩, 0⟩
  | .error (.misuse _) => ⟨t, ⟨"", "error: the arguments are not understood\n"⟩, 2⟩
  | .ok a =>
    let finish := perform env a t
    match finish.result with
    | .ok () => ⟨finish.tree, finish.output, 0⟩
    | .error problem => ⟨finish.tree, finish.output ++ ⟨"", complaint problem⟩, 1⟩

end Program

end Concolic
