import Concolic.Duration
import Concolic.Fault

/-
  Why a session could not be run to its end.
-/

namespace Concolic

/-- A cause that ends a session. -/
inductive Failure where
  /-- The working directory, or the directory of its lock, could not be created. -/
  | workspaceCreate (path : String) (source : Fault)
  /-- A live process holds the lock of the working directory. -/
  | workspaceLocked (path : String) (pid : UInt32)
  | executorLaunch (program : String) (source : Fault)
  | executorHung (timeout : Duration)
  | cancelled
  /-- The configuration makes no sense. -/
  | config (text : String)
  /-- Any other failed operation. -/
  | io (source : Fault)
  deriving DecidableEq, Repr

namespace Failure

/-- The text of a cause. -/
def message : Failure → String
  | workspaceCreate path source =>
    "Failed to create working directory " ++ path ++ ": " ++ source.message
  | workspaceLocked path pid =>
    "Working directory " ++ path ++ " is owned by another session (pid " ++
      Nat.repr pid.toNat ++ ")"
  | executorLaunch program source =>
    "Failed to launch executor '" ++ program ++ "': " ++ source.message
  | executorHung timeout => "Executor hung: no exit after " ++ timeout.text
  | cancelled => "Session cancelled"
  | config text => "Configuration error: " ++ text
  | io source => "IO error: " ++ source.message

/-- The fault behind a cause, if there is one. -/
def source? : Failure → Option Fault
  | workspaceCreate _ source => some source
  | executorLaunch _ source => some source
  | io source => some source
  | _ => none

/-- The executor is to blame. -/
def isExecutorFailure : Failure → Bool
  | executorLaunch _ _ => true
  | executorHung _ => true
  | _ => false

/-- What to try next, where there is something to say. -/
def hint? : Failure → Option String
  | executorLaunch _ _ => some executorHint
  | executorHung _ => some executorHint
  | workspaceLocked _ _ => some "pass a different --work-dir to run sessions side by side"
  | _ => none
where
  executorHint : String :=
    "inspect the executor command with --dry-run; " ++
      "its relative paths resolve inside the working directory"

end Failure

end Concolic
