import Concolic.Outcome
import Concolic.Stamp
import Concolic.Workspace

/-
  What a finished session leaves.
-/

namespace Concolic

/-- One iteration: the copies made before the invocation, how the executor ended, and the
    signal read after it. -/
structure Iteration where
  number : UInt32
  startedAt : Stamp
  inputs : InputSnapshot
  history : Copy
  exit : Option Int32
  took : Duration
  signal : Signal
  deriving DecidableEq, Repr

/-- One record for every iteration, in order. -/
structure Report where
  sessionId : String
  outcome : Outcome
  iterations : List Iteration
  deriving DecidableEq, Repr

namespace Report

/-- How often the executor was invoked. -/
def invocations (r : Report) : Nat := r.iterations.length

/-- The number of iterations whose inputs were archived under their number. -/
def inputsArchived (r : Report) : Nat :=
  (r.iterations.filter fun i => i.inputs.numbered.isCopied).length

end Report

end Concolic
