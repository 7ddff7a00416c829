import Concolic.Json.Document
import Concolic.Json.Printer
import Concolic.Outcome

/-
  The two records that sessions leave in a state directory, and their JSON forms.

  Reading takes an object with every field exactly once, in any order and with any further ones
  between them, or an array of exactly the field values in order.
-/

namespace Concolic

open Json (Document Scalar Value)

/-- The outcome that a document holds: its text, or an object with nothing but that name. -/
def Outcome.ofDocument? : Document → Option Outcome
  | .single (.text s) => Outcome.ofText? s
  | .object [(name, .null)] => Outcome.ofText? name
  | _ => none

/-- The session that is running. -/
structure Current where
  sessionId : String
  entryPoint : String
  workDir : String
  command : String
  status : String
  iteration : UInt32
  budget : UInt32
  lastExit : Option Int32
  historyPresent : Bool
  backtrackPresent : Bool
  startedAt : String
  elapsedSecs : UInt64
  deriving DecidableEq, Repr

namespace Current

/-- The fields in order. -/
def fields (c : Current) : List (String × Scalar) :=
  [("session_id", .text c.sessionId),
   ("entry_point", .text c.entryPoint),
   ("work_dir", .text c.workDir),
   ("command", .text c.command),
   ("status", .text c.status),
   ("iteration", .int c.iteration.toNat),
   ("iteration_budget", .int c.budget.toNat),
   ("last_exit_code", match c.lastExit with
     | some code => .int code.toInt
     | none => .null),
   ("history_present", .bool c.historyPresent),
   ("backtrack_present", .bool c.backtrackPresent),
   ("started_at", .text c.startedAt),
   ("elapsed_secs", .int c.elapsedSecs.toNat)]

/-- The record as JSON. -/
def encode (c : Current) : String := Json.pretty c.fields

/-- The record with the given values in order. -/
def ofValues? : List Value → Option Current
  | [v0, v1, v2, v3, v4, v5, v6, v7, v8, v9, v10, v11] => do
    return {
      sessionId := ← v0.text?
      entryPoint := ← v1.text?
      workDir := ← v2.text?
      command := ← v3.text?
      status := ← v4.text?
      iteration := ← v5.uint32?
      budget := ← v6.uint32?
      lastExit := ← v7.optionalInt32?
      historyPresent := ← v8.bool?
      backtrackPresent := ← v9.bool?
      startedAt := ← v10.text?
      elapsedSecs := ← v11.uint64? }
  | _ => none

/-- The names of the fields that must be there. -/
def pick? (fs : List (String × Value)) : Option (List Value) :=
  ["session_id", "entry_point", "work_dir", "command", "status", "iteration", "iteration_budget",
   "last_exit_code", "history_present", "backtrack_present", "started_at", "elapsed_secs"].mapM
    fun name =>
      if name = "last_exit_code" then Json.optionalField? fs name else Json.onlyField? fs name

/-- The record that JSON describes. -/
def ofDocument? : Document → Option Current
  | .object fs => (pick? fs).bind ofValues?
  | .array items => ofValues? items
  | .single _ => none

/-- The record of a text. -/
def decode? (text : String) : Option Current := (Document.ofText? text).bind ofDocument?

end Current

/-- A session that has ended. -/
structure Finished where
  sessionId : String
  entryPoint : String
  invocations : UInt32
  outcome : String
  completedAt : String
  deriving DecidableEq, Repr

namespace Finished

/-- The fields in order. -/
def fields (f : Finished) : List (String × Scalar) :=
  [("session_id", .text f.sessionId),
   ("entry_point", .text f.entryPoint),
   ("invocations", .int f.invocations.toNat),
   ("outcome", .text f.outcome),
   ("completed_at", .text f.completedAt)]

/-- The line of the record, without its end. -/
def encode (f : Finished) : String := Json.compact f.fields

/-- The record with these values. -/
def ofValues? : List Value → Option Finished
  | [v0, v1, v2, v3, v4] => do
    return {
      sessionId := ← v0.text?
      entryPoint := ← v1.text?
      invocations := ← v2.uint32?
      outcome := ← v3.text?
      completedAt := ← v4.text? }
  | _ => none

/-- The values of the fields, each of which must be there once. -/
def pick? (fs : List (String × Value)) : Option (List Value) :=
  ["session_id", "entry_point", "invocations", "outcome", "completed_at"].mapM (Json.onlyField? fs)

/-- The record of a document. -/
def ofDocument? : Document → Option Finished
  | .object fs => (pick? fs).bind ofValues?
  | .array items => ofValues? items
  | .single _ => none

/-- The record of a text. -/
def decode? (text : String) : Option Finished := (Document.ofText? text).bind ofDocument?

end Finished

end Concolic
