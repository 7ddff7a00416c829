/-
  A session: what is explored, where, and with how many invocations at most.
-/

namespace Concolic

/-- What is explored, where, and with how many invocations at most. -/
structure Session where
  id : String
  entryPoint : String
  classpath : String
  workDir : String
  budget : UInt32
  deriving DecidableEq, Repr

namespace Session

/-- The number of invocations where nothing else is said. -/
def defaultBudget : UInt32 := 100

/-- A session with the usual budget. -/
def new (id entryPoint classpath workDir : String) : Session :=
  { id, entryPoint, classpath, workDir, budget := defaultBudget }

/-- The session with another budget, which is at least one. -/
def withBudget (s : Session) (budget : UInt32) : Session := { s with budget := max budget 1 }

end Session

end Concolic
