import Concolic.Path
import Concolic.Fault
import Concolic.Tree.Basic

/-
  Walking a path through a tree.

  A walk follows the segments of a path text from directory to directory, through at most `maxLinks`
  symbolic links.
-/

namespace Concolic

/-- Where a walk ends. -/
inductive Spot where
  /-- At a directory itself. -/
  | here (dir : Loc)
  /-- At a name in a directory. -/
  | entry (dir : Loc) (name : String)
  deriving DecidableEq

/-- The location of a spot. -/
def Spot.loc : Spot → Loc
  | here dir => dir
  | entry dir name => name :: dir

/-- The end of a walk, and whether a slash asks for a directory there. -/
structure Arrival where
  spot : Spot
  slash : Bool
  deriving DecidableEq

namespace Tree

/-- The number of symbolic links that one walk may go through. -/
def maxLinks : Nat := 40

/-- The number of bytes of a name, at most. -/
def maxName : Nat := 255

/-- The number of bytes of a path text, at most. -/
def maxPath : Nat := 4095

/-- What is wrong with using `loc` as a directory. -/
def folderFault (t : Tree) (loc : Loc) : Fault :=
  match t.node? loc with
  | none => .notFound
  | some _ => .notADirectory

/-- Goes through the steps from `dir`.  A link on the way, or at the end if `follow` asks for it,
    is left to `jump`, which is given the directory and the steps to go on with. -/
def scan (t : Tree) (follow : Bool) (jump : Loc → List String → Bool → Except Fault Arrival)
    (slash : Bool) : Loc → List String → Except Fault Arrival
  | dir, [] => .ok ⟨.here dir, slash⟩
  | dir, name :: rest =>
    if !t.isFolderAt dir then .error (t.folderFault dir)
    else if name = "." then scan t follow jump slash dir rest
    else if name = ".." then scan t follow jump slash dir.tail rest
    else if name.utf8ByteSize > maxName then .error .nameTooLong
    else match t.node? (name :: dir) with
      | none => if rest = [] then .ok ⟨.entry dir name, slash⟩ else .error .notFound
      | some (.link target) =>
        if rest = [] ∧ follow = false then .ok ⟨.entry dir name, slash⟩
        else
          let r := Path.route target
          jump (if r.absolute then [] else dir) (r.steps ++ rest)
            (slash || (rest.isEmpty && r.slash))
      | some node =>
        if rest = [] then .ok ⟨.entry dir name, slash⟩
        else if node.isFolder then scan t follow jump slash (name :: dir) rest
        else .error .notADirectory

/-- A walk that may still go through `links` symbolic links.  One that is `creating` a file does
    not go through a link at the end of a link's own text that has a slash after it. -/
def walk (t : Tree) (creating : Bool) :
    (links : Nat) → (follow : Bool) → Loc → List String → Bool → Except Fault Arrival
  | 0, follow, dir, steps, slash => t.scan follow (fun _ _ _ => .error .linkLoop) slash dir steps
  | links + 1, follow, dir, steps, slash =>
    t.scan follow (fun d s b => walk t creating links (follow && !(creating && b)) d s b)
      slash dir steps

/-- The path text can be handed to the system. -/
def checkText (p : String) : Except Fault Unit :=
  if p.toList.contains '\x00' then .error .nulInPath
  else if p = "" then .error .notFound
  else if p.utf8ByteSize > maxPath then .error .nameTooLong
  else .ok ()

/-- Where the path `p`, taken from the directory `cwd`, ends.  A link at the end is gone through
    only if `follow` says so. -/
def resolve (t : Tree) (cwd : Loc) (follow : Bool) (p : String) : Except Fault Arrival := do
  checkText p
  let r := Path.route p
  t.walk false maxLinks follow (if r.absolute then [] else cwd) r.steps r.slash

/-- Where a file that is written at `p` goes.  A link at the end is gone through, except where a
    slash asks for a directory. -/
def resolveNew (t : Tree) (cwd : Loc) (p : String) : Except Fault Arrival := do
  checkText p
  let r := Path.route p
  t.walk true maxLinks (!r.slash) (if r.absolute then [] else cwd) r.steps r.slash

/-- The location of the entry that `p` names.  A slash at the end of `p` goes through a link and
    asks for a directory. -/
def lookup (t : Tree) (cwd : Loc) (follow : Bool) (p : String) : Except Fault Loc := do
  let a ← t.resolve cwd (follow || (Path.route p).slash) p
  match t.node? a.spot.loc with
  | none => .error .notFound
  | some node => if a.slash && !node.isFolder then .error .notADirectory else .ok a.spot.loc

/-! ## Questions about a path, links followed -/

/-- Whether a path leads to something. -/
def hasEntry (t : Tree) (cwd : Loc) (p : String) : Bool :=
  match t.lookup cwd true p with
  | .ok _ => true
  | .error _ => false

/-- Whether a path leads to a directory. -/
def isFolder (t : Tree) (cwd : Loc) (p : String) : Bool :=
  match t.lookup cwd true p with
  | .ok loc => t.isFolderAt loc
  | .error _ => false

/-- Whether a path leads to a regular file. -/
def isFile (t : Tree) (cwd : Loc) (p : String) : Bool :=
  match t.lookup cwd true p with
  | .ok loc => (t.blob? loc).isSome
  | .error _ => false

end Tree

end Concolic
