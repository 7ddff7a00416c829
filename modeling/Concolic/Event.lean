import Concolic.Outcome
import Concolic.Stamp
import Concolic.Workspace

/-
  The events of a session, and the progress line that each is shown as.
-/

namespace Concolic

/-- What a session reports while it runs. -/
inductive Event where
  | sessionStart (sessionId command : String) (budget : UInt32)
  | iterationStart (iteration budget : UInt32) (stamp : Stamp)
  | iterationEnd (iteration : UInt32) (exit : Option Int32) (took : Duration) (signal : Signal)
  | complete (outcome : Outcome) (invocations : UInt32)
  | aborted (iteration : UInt32) (reason : String)
  deriving DecidableEq, Repr

/-- A line for one of the two output streams. -/
inductive Line where
  | out (text : String)
  | err (text : String)
  deriving DecidableEq, Repr

namespace Event

/-- The text of an exit code; a process that a signal ended has none. -/
def exitText : Option Int32 → String
  | some code => Text.ofInt code.toInt
  | none => "signal"

/-- How a flag is shown. -/
def flag (b : Bool) : String := if b then "true" else "false"

/-- The progress line of an event.  The command and the records of the inputs go where the
    executor's own output goes, everything else beside it. -/
def line : Event → Line
  | sessionStart _ command _ => .out command
  | iterationStart iteration _ stamp =>
    .out ("[Input " ++ Nat.repr iteration.toNat ++ " at " ++ stamp.text ++ "]")
  | iterationEnd iteration exit took signal =>
    .err ("[iter " ++ Nat.repr iteration.toNat ++ "] exit=" ++ exitText exit ++ " "
      ++ took.tenths ++ "s history=" ++ flag signal.history
      ++ " backtrack=" ++ flag signal.backtrack)
  | complete outcome invocations =>
    .err ("[done] " ++ outcome.text ++ " after " ++ Nat.repr invocations.toNat ++ " invocation(s)")
  | aborted iteration reason =>
    .err ("[abort] iteration " ++ Nat.repr iteration.toNat ++ ": " ++ reason)

end Event

end Concolic
