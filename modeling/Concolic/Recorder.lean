import Concolic.Run
import Concolic.StateDir

/-
  The recorder: an observer that keeps the state directory up to date.

  That something could not be written is never a failure of the session.
-/

namespace Concolic

/-- Where and when a recorder writes. -/
structure Recorder where
  dir : StateDir
  cwd : Loc
  /-- The time at which the session is complete, as text. -/
  completedAt : String
  deriving DecidableEq, Repr

namespace Recorder

/-- The record of a session of which nothing is known yet. -/
def pending (session : Session) (startedAt : String) : Current :=
  { sessionId := session.id
    entryPoint := session.entryPoint
    workDir := session.workDir
    command := ""
    status := "pending"
    iteration := 0
    budget := 0
    lastExit := none
    historyPresent := false
    backtrackPresent := false
    startedAt
    elapsedSecs := 0 }

/-- The record after an event. -/
def update (c : Current) : Event → Current
  | .sessionStart _ command budget => { c with command, budget, status := "starting" }
  | .iterationStart iteration _ _ => { c with iteration, status := "executing" }
  | .iterationEnd _ exit _ signal =>
    { c with
      lastExit := exit
      historyPresent := signal.history
      backtrackPresent := signal.backtrack
      status := "inspecting" }
  | .aborted iteration reason => { c with iteration, status := "aborted: " ++ reason }
  | .complete _ _ => c

/-- The journal entry of a session that is complete. -/
def entry (r : Recorder) (c : Current) (outcome : Outcome) (invocations : UInt32) : Finished :=
  { sessionId := c.sessionId
    entryPoint := c.entryPoint
    invocations
    outcome := outcome.text
    completedAt := r.completedAt }

/-- What the recorder does on an event. -/
def notify (r : Recorder) (e : Event) (c : Current) (t : Tree) : Current × Tree :=
  match e with
  | .complete outcome invocations =>
    (c, r.dir.clearCurrent r.cwd
      (r.dir.recordFinished r.cwd (r.entry c outcome invocations) t).1)
  | _ =>
    let c := update c e
    (c, (r.dir.writeCurrent r.cwd c t).1)

/-- The recorder alone. -/
def observer (r : Recorder) : Observer Current := ⟨r.notify⟩

/-- A recorder that passes every event on before it records it. -/
def wrapping {τ : Type} (r : Recorder) (inner : Observer τ) : Observer (τ × Current) :=
  ⟨fun e w t =>
    let (heard, t) := inner.notify e w.1 t
    let (record, t) := r.notify e w.2 t
    ((heard, record), t)⟩

end Recorder

end Concolic
