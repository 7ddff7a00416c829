import Concolic.Event
import Concolic.Help
import Concolic.StateDir

/-
  The status page.
-/

namespace Concolic.Status

/-- The session that is running, if there is one. -/
def running : Option Current → String
  | none => "  Running:    (no session running)\n"
  | some c =>
    "  Running:    " ++ c.entryPoint ++ " (" ++ c.sessionId ++ ")\n"
      ++ "    Work dir:   " ++ c.workDir ++ "\n"
      ++ "    Iteration:  " ++ Nat.repr c.iteration.toNat ++ "/" ++ Nat.repr c.budget.toNat
      ++ " (" ++ c.status ++ ", " ++ Nat.repr c.elapsedSecs.toNat ++ "s elapsed)\n"
      ++ match c.lastExit with
        | some code => "    Last exit:  " ++ Text.ofInt code.toInt ++ "\n"
        | none => ""

/-- A session that has ended. -/
def finishedLine (f : Finished) : String :=
  "    " ++ f.completedAt ++ "  " ++ f.entryPoint ++ "  " ++ f.outcome ++ " after "
    ++ Nat.repr f.invocations.toNat ++ " invocation(s)\n"

/-- The whole page; finished sessions come oldest first. -/
def page (current : Option Current) (finished : List Finished) : String :=
  "catg v" ++ Help.version ++ "\n\n" ++ running current
    ++ if finished.isEmpty then ""
      else "\n  Recent sessions:\n" ++ String.join (finished.reverse.map finishedLine)

/-- The page of a state directory, the newest sessions first. -/
def ofStateDir (dir : StateDir) (cwd : Loc) (limit : Nat) (t : Tree) : String :=
  page (dir.current? cwd t) (dir.history cwd limit t)

end Concolic.Status
