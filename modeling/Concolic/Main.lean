import Concolic.Identifier
import Concolic.Instant
import Concolic.Program
import Std.Time

/-
  The command line.

  It reads the files below the current directory and the program's own directory into the tree of
  the machine, runs the program on it, and makes those files what the tree then says.  A file that
  names an interpreter in its first line counts as executable.
-/

namespace Concolic.Main

/-- The place that a path of the system names. -/
def locOf (path : String) : Loc := (Path.route path).steps.reverse

/-- The path of a location. -/
def pathOf (loc : Loc) : String := "/" ++ "/".intercalate loc.reverse

/-- The folders from the root to a location. -/
def addFolders (t : Tree) : Loc → Tree
  | [] => t
  | name :: dir => (addFolders t dir).put (name :: dir) .folder

/-- Adds what is below a directory to the tree. -/
partial def load (t : Tree) (loc : Loc) : IO Tree := do
  let here ← IO.FS.realPath (pathOf loc)
  let mut t := t
  for entry in ← here.readDir do
    let child := entry.fileName :: loc
    match (← entry.path.symlinkMetadata).type with
    | .dir => t ← load (t.put child .folder) child
    | .file =>
      let bytes ← IO.FS.readBinFile entry.path
      t := t.put child (.file ⟨bytes, (Image.interpreter? bytes).isSome⟩)
    | _ => pure ()
  return t

/-- Adds a directory, given by its absolute path, with all that is below it, if it is there. -/
def loadIfPresent (t : Tree) (path : String) : IO Tree := do
  if !Path.isAbsolute path then return t
  try load (addFolders t (locOf path)) (locOf path)
  catch _ => return t

/-- Removes an entry that is no longer in the tree. -/
def discard (loc : Loc) (node : Node) : IO Unit :=
  match node with
  | .folder => IO.FS.removeDir (pathOf loc)
  | _ => IO.FS.removeFile (pathOf loc)

/-- Makes an entry what the tree says. -/
def store (t : Tree) (loc : Loc) (node : Node) : IO Unit :=
  match node with
  | .folder => IO.FS.createDir (pathOf loc)
  | .file _ => writeContents
  | .shared _ => writeContents
  | _ => pure ()
where
  writeContents : IO Unit := IO.FS.writeBinFile (pathOf loc) (t.blobAt loc).bytes

/-- The entries of a tree below one of the roots, outer ones first. -/
def outerFirst (roots : List Loc) (t : Tree) : List (Loc × Node) :=
  (t.entries.filter fun e => roots.any fun root => root.isSuffixOf e.1).mergeSort fun a b =>
    a.1.length ≤ b.1.length

/-- Makes the files below the roots what the new tree says. -/
def save (roots : List Loc) (old new : Tree) : IO Unit := do
  for (loc, node) in (outerFirst roots old).reverse do
    if new.isFolderAt loc != old.isFolderAt loc || (new.node? loc).isNone then discard loc node
  for (loc, node) in outerFirst roots new do
    let isSame := old.isFolderAt loc == new.isFolderAt loc && (old.node? loc).isSome &&
      (old.blobAt loc).bytes == (new.blobAt loc).bytes
    if !isSame then store new loc node

/-- The number of this process. -/
def ownPid : IO UInt32 := do
  let line ← IO.FS.readFile "/proc/self/stat"
  let digits := line.toList.takeWhile Char.isDigit
  return UInt32.ofNat ((Text.ofDigits? 10 digits).getD 0)

/-- The numbers of the processes that are alive. -/
def alivePids : IO (List UInt32) := do
  let here ← IO.FS.realPath "/proc"
  let names := (← here.readDir).toList.map fun entry => entry.fileName.toList
  return names.filterMap fun name => (Text.unsigned? Text.limit32 name).map UInt32.ofNat

/-- The time now. -/
def present : IO Instant := do
  let now ← Std.Time.Timestamp.now
  return ⟨now.val.second.val, now.val.nano.val.toNat⟩

/-- What the program is told about its surroundings. -/
def environment : IO Environment := do
  let alive ← alivePids
  let now ← present
  let bytes ← IO.getRandomBytes 16
  let dir ← IO.FS.realPath "."
  return {
    host := ⟨locOf dir.toString, ← ownPid, alive.contains⟩
    home := ⟨(← IO.getEnv "HOME").getD "", ← IO.getEnv "CATG_HOME"⟩
    clock := ⟨fun _ => now.stamp?.getD ⟨1, 0, 0, 0, 0⟩, fun _ => Duration.ofSeconds 0⟩
    sessionId := Identifier.ofBytes bytes.toList
    now := now.text }

/-- Runs the program on the files of this machine. -/
def run (args : List String) : IO UInt32 := do
  let env ← environment
  let around ← loadIfPresent Machine.tree (pathOf env.host.cwd)
  let old ← loadIfPresent around env.home.configDir
  let result := Program.start env args old
  save [env.host.cwd, locOf env.home.configDir] old result.tree
  IO.print result.output.out
  IO.eprint result.output.err
  return UInt32.ofNat result.code

end Concolic.Main

def main (args : List String) : IO UInt32 := Concolic.Main.run args
