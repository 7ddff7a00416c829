import Concolic.Record
import Concolic.Tree.Compound

/-
  The state directory: the record of the running session and the journal of finished ones.

  The record is replaced as a whole: it is written under a temporary name which is then given the
  right one.  The journal has one line for every finished session.
-/

namespace Concolic

/-- A state directory, by its path. -/
structure StateDir where
  root : String
  deriving DecidableEq, Repr

namespace StateDir

/-- The file of the running session. -/
def currentName : String := "current-session.json"
/-- The file of the finished ones. -/
def journalName : String := "session-history.jsonl"
/-- The number of lines at which the journal is cut. -/
def maxLines : Nat := 1000
/-- The number of bytes above which the journal is cut. -/
def maxBytes : Nat := 1048576
/-- The number of lines that a cut journal keeps. -/
def keepLines : Nat := 500

/-- The path of a file in it. -/
def file (dir : StateDir) (name : String) : String := Path.join dir.root name

/-- The temporary name under which a file is written. -/
def temporary (name : String) : String := "." ++ name ++ ".tmp"

/-- The last `n` members. -/
def newest {α : Type} (n : Nat) (xs : List α) : List α := xs.drop (xs.length - n)

/-! ## Reading -/

/-- The record, if there is one that can be read. -/
def current? (dir : StateDir) (cwd : Loc) (t : Tree) : Option Current :=
  match t.readText cwd (dir.file currentName) with
  | .ok text => Current.decode? text
  | .error _ => none

/-- The records among the last `limit` lines of a journal, oldest first. -/
def recent (limit : Nat) (journal : String) : List Finished :=
  (newest limit (Text.lines journal.toList)).filterMap fun line =>
    Finished.decode? (String.ofList line)

/-- The last finished sessions, oldest first. -/
def history (dir : StateDir) (cwd : Loc) (limit : Nat) (t : Tree) : List Finished :=
  match t.readText cwd (dir.file journalName) with
  | .ok journal => recent limit journal
  | .error _ => []

/-! ## Writing -/

/-- Gives a file of the state directory new contents as a whole. -/
def replace (dir : StateDir) (cwd : Loc) (name : String) (bytes : ByteArray) (t : Tree) :
    Tree × Except Fault Unit :=
  match t.makeFolders cwd dir.root with
  | (t, .error f) => (t, .error f)
  | (t, .ok ()) =>
    match t.write cwd (dir.file (temporary name)) bytes with
    | .error f => (t, .error f)
    | .ok t =>
      match t.sync cwd (dir.file (temporary name)) with
      | .error f => (t, .error f)
      | .ok () =>
        match t.rename cwd (dir.file (temporary name)) (dir.file name) with
        | .error f => (t, .error f)
        | .ok t => (t, .ok ())

/-- Replaces the record. -/
def writeCurrent (dir : StateDir) (cwd : Loc) (c : Current) (t : Tree) : Tree × Except Fault Unit :=
  dir.replace cwd currentName c.encode.toUTF8 t

/-- Removes the record of the running session, if it is there. -/
def clearCurrent (dir : StateDir) (cwd : Loc) (t : Tree) : Tree :=
  match t.removeFile cwd (dir.file currentName) with
  | .ok t => t
  | .error _ => t

/-- The journal is due to be cut before a line is added. -/
def isFull (journal : String) : Bool :=
  maxLines ≤ (Text.lines journal.toList).length || maxBytes < journal.utf8ByteSize

/-- The newest lines of a journal, and a new one. -/
def rotated (journal line : String) : String :=
  String.ofList (Text.joinWith '\n' (newest keepLines (Text.lines journal.toList)))
    ++ "\n" ++ line ++ "\n"

/-- The text of the journal; one that cannot be read counts as empty. -/
def journalText (dir : StateDir) (cwd : Loc) (t : Tree) : String :=
  match t.readText cwd (dir.file journalName) with
  | .ok journal => journal
  | .error _ => ""

/-- Adds a line to the journal, or replaces it once it is full. -/
def recordFinished (dir : StateDir) (cwd : Loc) (entry : Finished) (t : Tree) :
    Tree × Except Fault Unit :=
  let journal := dir.journalText cwd t
  if isFull journal then
    dir.replace cwd journalName (rotated journal entry.encode).toUTF8 t
  else match t.makeFolders cwd dir.root with
    | (t, .error f) => (t, .error f)
    | (t, .ok ()) =>
      match t.append cwd (dir.file journalName) (entry.encode ++ "\n").toUTF8 with
      | .error f => (t, .error f)
      | .ok t => (t, .ok ())

end StateDir

end Concolic
