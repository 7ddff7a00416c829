import Concolic.Failure
import Concolic.Marker
import Concolic.Tree.Compound

/-
  The working directory of a session and the artifacts that the executor leaves in it.
-/

namespace Concolic

/-! ## Names of artifacts -/

namespace Artifact

/-- The inputs of the next invocation. -/
def inputs : String := "inputs"
/-- The inputs of the invocation before. -/
def inputsOld : String := "inputs.old"
/-- Tells whether the inputs are real. -/
def marker : String := "isRealInput"
/-- The branches of the last invocation. -/
def history : String := "history"
/-- The branch history of the invocation before. -/
def historyOld : String := "history.old"
/-- Says that exploration is to go on. -/
def backtrackFlag : String := "backtrackFlag"

/-- The archive of the inputs of one iteration. -/
def numbered (iteration : UInt32) : String := inputs ++ Nat.repr iteration.toNat

end Artifact

/-! ## Results of the steps -/

/-- How copying an artifact went. -/
inductive Copy where
  | copied (bytes : Nat)
  | absent
  | failed (fault : Fault)
  | skipped
  deriving DecidableEq, Repr

/-- Whether the copy was made. -/
def Copy.isCopied : Copy → Bool
  | copied _ => true
  | _ => false

/-- How the inputs were archived: under a number, and as the previous ones. -/
structure InputSnapshot where
  marker : Marker
  numbered : Copy
  previous : Copy
  deriving DecidableEq, Repr

/-- What asks for another iteration. -/
structure Signal where
  history : Bool
  backtrack : Bool
  deriving DecidableEq, Repr

/-- There is more to explore as long as a history or a backtrack flag is there. -/
def Signal.continues (s : Signal) : Bool := s.history || s.backtrack

/-! ## The steps -/

/-- A working directory, by its path. -/
structure Workspace where
  root : String
  deriving DecidableEq, Repr

namespace Workspace

/-- The path of an artifact. -/
def artifact (ws : Workspace) (name : String) : String := Path.join ws.root name

/-- Makes the working directory anew.  That the old one could not be removed is no failure as long
    as the directory is there in the end. -/
def reset (ws : Workspace) (cwd : Loc) (t : Tree) : Tree × Except Failure Unit :=
  match (t.removeAll cwd ws.root).1.makeFolders cwd ws.root with
  | (t', .ok ()) => (t', .ok ())
  | (t', .error f) => (t', .error (.workspaceCreate ws.root f))

/-- The marker beside the inputs. -/
def readMarker (ws : Workspace) (cwd : Loc) (t : Tree) : Marker :=
  match t.readText cwd (ws.artifact Artifact.marker) with
  | .ok text => .present (InputKind.ofText text)
  | .error f => if f.kind = .notFound then .absent else .unreadable f

/-- Copies an artifact.  A source that is not there is told apart from a failed copy. -/
def copyArtifact (cwd : Loc) (t : Tree) (src dst : String) : Copy × Tree :=
  match t.copy cwd src dst with
  | (t', .ok bytes) => (.copied bytes, t')
  | (t', .error f) =>
    if f.kind = .notFound && !t'.hasEntry cwd src then (.absent, t') else (.failed f, t')

/-- Archives the inputs: under the iteration's number if they are real, and as the previous ones
    in any case. -/
def snapshotInputs (ws : Workspace) (cwd : Loc) (iteration : UInt32) (t : Tree) :
    InputSnapshot × Tree :=
  let marker := ws.readMarker cwd t
  let source := ws.artifact Artifact.inputs
  let (numbered, t) := match marker.kind with
    | .real => copyArtifact cwd t source (ws.artifact (Artifact.numbered iteration))
    | .synthetic => (.skipped, t)
  let (previous, t) := copyArtifact cwd t source (ws.artifact Artifact.inputsOld)
  ({ marker, numbered, previous }, t)

/-- Archives the history as the previous one. -/
def snapshotHistory (ws : Workspace) (cwd : Loc) (t : Tree) : Copy × Tree :=
  copyArtifact cwd t (ws.artifact Artifact.history) (ws.artifact Artifact.historyOld)

/-- Reads the continuation signal: only regular files count. -/
def signal (ws : Workspace) (cwd : Loc) (t : Tree) : Signal :=
  { history := t.isFile cwd (ws.artifact Artifact.history)
    backtrack := t.isFile cwd (ws.artifact Artifact.backtrackFlag) }

end Workspace

end Concolic
