import Concolic.Event
import Concolic.Lock
import Concolic.Report
import Concolic.Session

/-
  Running a session.

  A run takes the lock, makes the working directory anew, and then repeats: archive the artifacts,
  invoke the executor, read the continuation signal.  It stops at the first iteration after which
  nothing asks for another one, or when the budget is used up.  It fails only if the lock, the
  working directory or the executor fails, or if it is told to stop.

  The executor is any function of the number of the call and the tree.  An observer is told every
  event and may change the tree (a recorder writes files).  The run keeps a trace of both.
-/

namespace Concolic

/-- Text on the two output streams. -/
structure Console where
  out : String
  err : String
  deriving DecidableEq, Repr

namespace Console

/-- Nothing printed. -/
def empty : Console := ⟨"", ""⟩

/-- One console after another. -/
def append (a b : Console) : Console := ⟨a.out ++ b.out, a.err ++ b.err⟩

instance : Append Console := ⟨append⟩

/-- The console with one line on it. -/
def ofLine : Line → Console
  | .out text => ⟨text ++ "\n", ""⟩
  | .err text => ⟨"", text ++ "\n"⟩

end Console

/-- What an invocation gives: the tree after it, the exit code or why there is none, what it
    printed, and whether someone asked the session to stop meanwhile. -/
structure Reply where
  tree : Tree
  exit : Except Failure (Option Int32)
  output : Console
  cancels : Bool

/-- An executor: its command line as shown to people, and what its n-th invocation does. -/
structure Executor where
  command : String
  invoke : Nat → Tree → Reply

/-- Someone who is told every event.  `notify` gives the observer's new state and the tree. -/
structure Observer (σ : Type) where
  notify : Event → σ → Tree → σ × Tree

/-- Nobody listens. -/
def Observer.silent : Observer Unit := ⟨fun _ _ t => ((), t)⟩

/-- An observer that keeps what it hears and never touches the tree. -/
def Observer.hearing {τ : Type} (f : τ → Event → τ) : Observer τ := ⟨fun e w t => (f w e, t)⟩

/-- The console with one more line, that of the event. -/
def Console.print (console : Console) (e : Event) : Console := console ++ ofLine e.line

/-- The observer that prints a line for every event.  Both streams are taken as writable: a program
    that cannot print a line ends there and then. -/
def Observer.renderer : Observer Console := .hearing Console.print

/-- The wall clock: when each iteration starts and how long its invocation takes. -/
structure Clock where
  stamp : Nat → Stamp
  took : Nat → Duration

/-- A point of a run: an event with the tree after the observer has seen it, or an invocation
    with the tree it finds and its output. -/
inductive Moment where
  | event (e : Event) (after : Tree)
  | invocation (call : Nat) (before : Tree) (output : Console)

namespace Run

/-- All that a run depends on besides the tree. -/
structure Setup (σ : Type) where
  host : Host
  session : Session
  executor : Executor
  observer : Observer σ
  clock : Clock

/-- A run under way: the tree, the observer's state, and the trace, newest first. -/
structure Progress (σ : Type) where
  tree : Tree
  watch : σ
  trace : List Moment

/-- How a run ended, and the tree, observer and trace, oldest first, that it left. -/
structure Ended (σ : Type) where
  result : Except Failure Report
  tree : Tree
  watch : σ
  trace : List Moment

variable {σ : Type}

/-- The directory that the session works in. -/
def Setup.workspace (s : Setup σ) : Workspace := ⟨s.session.workDir⟩

/-- Tells the observer, and notes it. -/
def emit (s : Setup σ) (e : Event) (p : Progress σ) : Progress σ :=
  let (watch, tree) := s.observer.notify e p.watch p.tree
  { tree, watch, trace := .event e tree :: p.trace }

/-- Ends a run with a failure at an iteration. -/
def abort (s : Setup σ) (iteration : Nat) (cause : Failure) (p : Progress σ) :
    Progress σ × Except Failure Report :=
  (emit s (.aborted (UInt32.ofNat iteration) cause.message) p, .error cause)

/-- Ends a run with a report; `done` are the iterations, newest first. -/
def finish (s : Setup σ) (outcome : Outcome) (done : List Iteration) (p : Progress σ) :
    Progress σ × Except Failure Report :=
  (emit s (.complete outcome (UInt32.ofNat done.length)) p,
    .ok { sessionId := s.session.id, outcome, iterations := done.reverse })

/-- Up to `left` further iterations, the next of them with number `i`. -/
def iterate (s : Setup σ) :
    (left i : Nat) → (cancelled : Bool) → (done : List Iteration) → Progress σ →
      Progress σ × Except Failure Report
  | 0, _, _, done, p => finish s .budgetExhausted done p
  | left + 1, i, cancelled, done, p =>
    if cancelled then abort s i .cancelled p
    else
      let number := UInt32.ofNat i
      let (inputs, tree) := s.workspace.snapshotInputs s.host.cwd number p.tree
      let (history, tree) := s.workspace.snapshotHistory s.host.cwd tree
      let startedAt := s.clock.stamp i
      let p := emit s (.iterationStart number s.session.budget startedAt) { p with tree }
      let reply := s.executor.invoke i p.tree
      let p := { p with
        tree := reply.tree, trace := .invocation i p.tree reply.output :: p.trace }
      match reply.exit with
      | .error cause => abort s i cause p
      | .ok exit =>
        let took := s.clock.took i
        let signal := s.workspace.signal s.host.cwd p.tree
        let p := emit s (.iterationEnd number exit took signal) p
        let done := { number, startedAt, inputs, history, exit, took, signal } :: done
        if signal.continues then iterate s left (i + 1) reply.cancels done p
        else finish s .explorationExhausted done p

/-- The part of a run during which the lock is held. -/
def locked (s : Setup σ) (cancelled : Bool) (p : Progress σ) :
    Progress σ × Except Failure Report :=
  let p := emit s (.sessionStart s.session.id s.executor.command s.session.budget) p
  match s.workspace.reset s.host.cwd p.tree with
  | (tree, .error cause) => abort s 0 cause { p with tree }
  | (tree, .ok ()) => iterate s s.session.budget.toNat 1 cancelled [] { p with tree }

end Run

/-- Runs a session; `cancelled` tells whether it was asked to stop before it began. -/
def run {σ : Type} (s : Run.Setup σ) (cancelled : Bool) (watch : σ) (t : Tree) : Run.Ended σ :=
  match Lock.acquire s.host s.session.workDir t with
  | (tree, .error cause) => { result := .error cause, tree, watch, trace := [] }
  | (tree, .ok lock) =>
    let (p, result) := Run.locked s cancelled { tree, watch, trace := [] }
    { result, tree := lock.release s.host p.tree, watch := p.watch, trace := p.trace.reverse }

end Concolic
