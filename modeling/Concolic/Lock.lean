import Concolic.Failure
import Concolic.Text.Blank
import Concolic.Tree.Compound

/-
  The lock of a working directory.

  It is a file beside the directory that holds the process number of its owner.  It is taken by
  creating it exclusively.  A lock that is there already is respected as long as its owner is
  alive; otherwise it is stale, is removed, and creation is tried once more.
-/

namespace Concolic

/-- The process that runs a session, as far as locks and paths depend on it. -/
structure Host where
  /-- The directory that relative paths start from. -/
  cwd : Loc
  pid : UInt32
  /-- Which other processes are alive. -/
  othersAlive : UInt32 → Bool

/-- A process is alive if it is the host itself or one of the others that are. -/
def Host.isAlive (h : Host) (pid : UInt32) : Bool := pid = h.pid || h.othersAlive pid

/-- A lock that is held, by the path of its file. -/
structure Lock where
  path : String
  deriving DecidableEq, Repr

namespace Lock

/-- The lock file of a working directory: its sibling with `.lock` after the name. -/
def pathFor (workDir : String) : String :=
  Path.withFileName workDir ((Path.fileName? workDir).getD "workspace" ++ ".lock")

/-- The text in a lock file of the process `pid`. -/
def ownerText (pid : UInt32) : String := Nat.repr pid.toNat

/-- The process number that a lock file's text names. -/
def ownerOf? (text : String) : Option UInt32 :=
  (Text.unsigned? Text.limit32 (Text.trim text.toList)).map UInt32.ofNat

/-- The owner of the lock file at `path`, if it can be read. -/
def readOwner (h : Host) (t : Tree) (path : String) : Option UInt32 :=
  match t.readText h.cwd path with
  | .ok text => ownerOf? text
  | .error _ => none

/-- Creates the lock file exclusively and writes the host's process number into it. -/
def create (h : Host) (t : Tree) (path : String) : Tree × Except Fault Unit :=
  match t.createNew h.cwd path with
  | .error f => (t, .error f)
  | .ok (loc, made) =>
    match made.extend loc (ownerText h.pid).toUTF8 with
    | .error f => (made, .error f)
    | .ok written => (written, .ok ())

/-- Creates the directory that the lock file goes into. -/
def prepare (h : Host) (t : Tree) (path : String) : Tree × Except Failure Unit :=
  match Path.parent? path with
  | none => (t, .ok ())
  | some dir =>
    if dir = "" then (t, .ok ())
    else match t.makeFolders h.cwd dir with
      | (t, .ok ()) => (t, .ok ())
      | (t, .error f) => (t, .error (.workspaceCreate dir f))

/-- The live owner that a lock file at `path` names. -/
def liveOwner (h : Host) (t : Tree) (path : String) : Option UInt32 :=
  match readOwner h t path with
  | some pid => if h.isAlive pid then some pid else none
  | none => none

/-- The tree without a stale lock file; that it cannot be removed shows when creating again. -/
def discard (h : Host) (t : Tree) (path : String) : Tree :=
  match t.removeFile h.cwd path with
  | .ok t' => t'
  | .error _ => t

/-- Takes the lock at `path` once its directory is there.  A lock without a live owner is discarded
    once. -/
def seize (h : Host) (workDir path : String) (t : Tree) : Tree × Except Failure Lock :=
  match create h t path with
  | (t, .ok ()) => (t, .ok ⟨path⟩)
  | (t, .error f) =>
    if f.kind ≠ .alreadyExists then (t, .error (.io f))
    else match liveOwner h t path with
      | some pid => (t, .error (.workspaceLocked workDir pid))
      | none =>
        match create h (discard h t path) path with
        | (t, .ok ()) => (t, .ok ⟨path⟩)
        | (t, .error f) => (t, .error (.io f))

/-- Takes the lock of a working directory. -/
def acquire (h : Host) (workDir : String) (t : Tree) : Tree × Except Failure Lock :=
  match prepare h t (pathFor workDir) with
  | (t, .error e) => (t, .error e)
  | (t, .ok ()) => seize h workDir (pathFor workDir) t

/-- Gives the lock back by removing its file. -/
def release (h : Host) (lock : Lock) (t : Tree) : Tree := discard h t lock.path

end Lock

end Concolic
