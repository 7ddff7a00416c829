import Concolic.Tree.Walk

/-
  The single file operations.

  Each either fails with a fault and changes nothing, or gives the tree after it.  Operations that
  create, remove or rename an entry work on the name itself and never go through a link at the end
  of the path; reading and writing go through it.
-/

namespace Concolic.Tree

/-! ## Reading -/

/-- What is wrong with opening a device. -/
def deviceFault : Device → Option Fault
  | .terminal => some .noDevice
  | _ => none

/-- What is wrong with reading a device to its end. -/
def endFault (d : Device) : Option Fault :=
  if d.isEndless then some .outOfMemory else deviceFault d

/-- The contents of the file at a location; a device has none, and some have no end. -/
def readAt (t : Tree) (loc : Loc) : Except Fault Blob :=
  match t.blob? loc, t.device? loc with
  | some b, _ => .ok b
  | none, some d => match endFault d with
    | some f => .error f
    | none => .ok Blob.empty
  | none, none => .error .isADirectory

/-- Reads a file with its mode. -/
def readBlob (t : Tree) (cwd : Loc) (p : String) : Except Fault Blob := do
  let loc ← t.lookup cwd true p
  t.readAt loc

/-- The file at a path as a text. -/
def readText (t : Tree) (cwd : Loc) (p : String) : Except Fault String := do
  let b ← t.readBlob cwd p
  match String.fromUTF8? b.bytes with
  | some s => .ok s
  | none => .error .notText

/-! ## Writing -/

/-- What is wrong with making a name in a directory. -/
def sealFault (t : Tree) (dir : Loc) : Option Fault :=
  if t.node? dir = some .sealed then some .notFound else none

/-- Where writing to `p` goes: an existing file, or a name that is free. -/
def writeLoc (t : Tree) (cwd : Loc) (p : String) : Except Fault Loc := do
  let a ← t.resolveNew cwd p
  match a.spot with
  | .here _ => .error .isADirectory
  | .entry dir name =>
    if a.slash then .error .isADirectory
    else match t.node? (name :: dir) with
      | none => match t.sealFault dir with
        | some f => .error f
        | none => .ok (name :: dir)
      | some (.device d) => match deviceFault d with
        | some f => .error f
        | none => .ok (name :: dir)
      | some node => if node.isFolder then .error .isADirectory else .ok (name :: dir)

/-- The contents that writing at `loc` starts from: those of the file there, or none. -/
def blobAt (t : Tree) (loc : Loc) : Blob := (t.blob? loc).getD Blob.empty

/-- The tree with the file at `loc` there and empty; a device stays as it is. -/
def emptied (t : Tree) (loc : Loc) : Tree :=
  if (t.device? loc).isSome then t
  else t.setBlob loc { t.blobAt loc with bytes := ByteArray.empty }

/-- Creates the file at `p`, or empties it. -/
def create (t : Tree) (cwd : Loc) (p : String) : Except Fault (Loc × Tree) := do
  let loc ← t.writeLoc cwd p
  return (loc, t.emptied loc)

/-- Adds bytes at the end of the file at a location. -/
def extend (t : Tree) (loc : Loc) (bytes : ByteArray) : Except Fault Tree :=
  match t.device? loc with
  | some .full => if bytes.size = 0 then .ok t else .error .noSpace
  | some _ => .ok t
  | none =>
    let old := t.blobAt loc
    .ok (t.setBlob loc { old with bytes := old.bytes ++ bytes })

/-- Makes `bytes` the contents of the file at `p`. -/
def write (t : Tree) (cwd : Loc) (p : String) (bytes : ByteArray) : Except Fault Tree := do
  let (loc, t) ← t.create cwd p
  t.extend loc bytes

/-- Adds `bytes` at the end of the file at `p`, which is created if missing. -/
def append (t : Tree) (cwd : Loc) (p : String) (bytes : ByteArray) : Except Fault Tree := do
  let loc ← t.writeLoc cwd p
  t.extend loc bytes

/-- Waits until the contents of the file at `p` are stored, which a device does not do. -/
def sync (t : Tree) (cwd : Loc) (p : String) : Except Fault Unit := do
  let loc ← t.lookup cwd true p
  if (t.device? loc).isSome then .error .invalidArgument else return

/-- Makes a file a program. -/
def setRunnable (t : Tree) (cwd : Loc) (p : String) : Except Fault Tree := do
  let loc ← t.lookup cwd true p
  match t.blob? loc with
  | some b => return t.setBlob loc { b with runnable := true }
  | none => return t

/-! ## Creating, removing and renaming entries -/

/-- The free name that a new entry at `p` gets.  A slash after it is taken only for a directory. -/
def newLoc (t : Tree) (cwd : Loc) (p : String) (folder : Bool) : Except Fault Loc := do
  let a ← t.resolve cwd false p
  match a.spot with
  | .here _ => .error .alreadyExists
  | .entry dir name =>
    if (t.node? (name :: dir)).isSome then .error .alreadyExists
    else if a.slash && !folder then .error .notFound
    else match t.sealFault dir with
      | some f => .error f
      | none => .ok (name :: dir)

/-- Creates an empty file at `p`, which must not exist, not even as a link. -/
def createNew (t : Tree) (cwd : Loc) (p : String) : Except Fault (Loc × Tree) := do
  let loc ← t.newLoc cwd p false
  return (loc, t.put loc (.file Blob.empty))

/-- Makes a directory where nothing is. -/
def makeFolder (t : Tree) (cwd : Loc) (p : String) : Except Fault Tree := do
  let loc ← t.newLoc cwd p true
  return t.put loc .folder

/-- Creates a symbolic link with the text `target` at `p`. -/
def makeLink (t : Tree) (cwd : Loc) (p target : String) : Except Fault Tree := do
  checkText target
  let loc ← t.newLoc cwd p false
  return t.put loc (.link target)

/-- Gives the file at `target` the further name `p`. -/
def addName (t : Tree) (cwd : Loc) (p target : String) : Except Fault Tree := do
  let old ← t.lookup cwd false target
  let loc ← t.newLoc cwd p false
  match t.node? old with
  | some (.file b) =>
    let id := t.freshId
    return ((t.setShared id b).put old (.shared id)).put loc (.shared id)
  | some (.shared id) => return t.put loc (.shared id)
  | some (.link text) => return t.put loc (.link text)
  | some (.device _) => .error .otherDevice
  | _ => .error .notPermitted

/-- Removes a name that is no directory. -/
def removeFile (t : Tree) (cwd : Loc) (p : String) : Except Fault Tree := do
  let a ← t.resolve cwd false p
  match a.spot with
  | .here _ => .error .isADirectory
  | .entry dir name =>
    match t.node? (name :: dir) with
    | none => .error .notFound
    | some node =>
      if node.isFolder then .error .isADirectory
      else if a.slash then .error .notADirectory
      else .ok (t.erase (name :: dir))

/-- Removes an empty directory. -/
def removeFolder (t : Tree) (cwd : Loc) (p : String) : Except Fault Tree := do
  let a ← t.resolve cwd false p
  match a.spot with
  | .here _ =>
    match (Path.route p).steps.getLast? with
    | some "." => .error .invalidArgument
    | some _ => .error .notEmpty
    | none => .error .busy
  | .entry dir name =>
    match t.node? (name :: dir) with
    | none => .error .notFound
    | some .folder =>
      if t.isEmptyAt (name :: dir) then .ok (t.erase (name :: dir)) else .error .notEmpty
    | some .sealed => .error .busy
    | some _ => .error .notADirectory

/-- May what is at `old` take the name `new`?  Gives the fault if not. -/
def renameFault (t : Tree) (old new : Loc) : Option Fault :=
  let source := t.isFolderAt old
  match t.node? new with
  | none => none
  | some node =>
    if !node.isFolder then if source then some .notADirectory else none
    else if !source then some .isADirectory
    else if t.isEmptyAt new then none
    else some .notEmpty

/-- Gives the entry `p` the name `q`; a file or an empty directory of that name is replaced.
    Two names of one file stay as they are. -/
def rename (t : Tree) (cwd : Loc) (p q : String) : Except Fault Tree := do
  let a ← t.resolve cwd false p
  let b ← t.resolve cwd false q
  match a.spot, b.spot with
  | .entry dir name, .entry dir' name' =>
    let old := name :: dir
    let new := name' :: dir'
    match t.node? old with
    | none => .error .notFound
    | some node =>
      if !node.isFolder && (a.slash || b.slash) then .error .notADirectory
      else if isBelow old new then .error .invalidArgument
      else if isBelow new old then .error .notEmpty
      else if t.sameFile old new then .ok t
      else match t.renameFault old new with
        | some f => .error f
        | none => .ok (t.move old new)
  | _, _ => .error .busy

end Concolic.Tree
