import Concolic.Tree.Operations

/-
  Operations made of several single ones.

  They can stop half way, so each gives the tree as it is then together with how it went.
-/

namespace Concolic.Tree

/-- A path and those of its directories, as texts, from the path outwards. -/
def ancestors : Nat → String → List String
  | 0, _ => []
  | fuel + 1, p =>
    p :: match Path.parent? p with
      | some up => ancestors fuel up
      | none => []

/-- Creates the first directory of the list, creating the rest first where a name is missing. -/
def makeFirst (t : Tree) (cwd : Loc) : List String → Tree × Except Fault Unit
  | [] => (t, .error .noTree)
  | p :: up =>
    if p = "" then (t, .ok ())
    else match t.makeFolder cwd p with
      | .ok t' => (t', .ok ())
      | .error f =>
        if f.kind = .notFound then
          match makeFirst t cwd up with
          | (t', .error f') => (t', .error f')
          | (t', .ok ()) =>
            match t'.makeFolder cwd p with
            | .ok t'' => (t'', .ok ())
            | .error f' => (t', if t'.isFolder cwd p then .ok () else .error f')
        else (t, if t.isFolder cwd p then .ok () else .error f)

/-- Creates the directory `p` and those above it that are missing; it may exist already. -/
def makeFolders (t : Tree) (cwd : Loc) (p : String) : Tree × Except Fault Unit :=
  t.makeFirst cwd (ancestors (p.length + 1) p)

/-- Removes the directory `p` and all that is in it.  Links inside it are removed, not gone
    through; a link in its place is removed itself. -/
def removeAll (t : Tree) (cwd : Loc) (p : String) : Tree × Except Fault Unit :=
  match t.lookup cwd false p with
  | .error f => (t, .error f)
  | .ok loc =>
    match t.node? loc with
    | some (.link _) =>
      match t.removeFile cwd p with
      | .ok t' => (t', .ok ())
      | .error f => (t, .error f)
    | some .folder =>
      let bare := t.clear loc
      match bare.removeFolder cwd p with
      | .ok t' => (t', .ok ())
      | .error f => (bare, if f.kind = .notFound then .ok () else .error f)
    | _ => (t, .error .notADirectory)

/-- Removes whatever is at `p`: a directory with all that is in it, any other entry by its name. -/
def removeEntry (t : Tree) (cwd : Loc) (p : String) : Tree × Except Fault Unit :=
  match t.lookup cwd false p with
  | .error f => (t, .error f)
  | .ok loc =>
    if t.isFolderAt loc then t.removeAll cwd p
    else match t.removeFile cwd p with
      | .ok t' => (t', .ok ())
      | .error f => (t, .error f)

/-- Where a copy is read, where it goes, and whether it can be run. -/
def copyEnds (t : Tree) (cwd : Loc) (src dst : String) : Except Fault (Loc × Loc × Bool) := do
  let srcLoc ← t.lookup cwd true src
  match t.blob? srcLoc with
  | none => .error .notRegular
  | some source => return (srcLoc, ← t.writeLoc cwd dst, source.runnable)

/-- The tree after the destination of a copy has been emptied. -/
def truncated (t : Tree) (dst : Loc) (runnable : Bool) : Tree :=
  if (t.device? dst).isSome then t else t.setBlob dst { bytes := ByteArray.empty, runnable }

/-- Copies one file's bytes into another and gives their number.  The destination is emptied before
    the source is read, so copying a file onto itself leaves nothing. -/
def refill (t : Tree) (src dst : Loc) (runnable : Bool) : Tree × Except Fault Nat :=
  let opened := t.truncated dst runnable
  let bytes := (opened.blobAt src).bytes
  match opened.extend dst bytes with
  | .error f => (opened, .error f)
  | .ok written => (written, .ok bytes.size)

/-- Copies the regular file `src` to `dst` and gives the number of bytes. -/
def copy (t : Tree) (cwd : Loc) (src dst : String) : Tree × Except Fault Nat :=
  match t.copyEnds cwd src dst with
  | .error f => (t, .error f)
  | .ok (srcLoc, dstLoc, runnable) => t.refill srcLoc dstLoc runnable

end Concolic.Tree
