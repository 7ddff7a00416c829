import Concolic.Tree.Basic

/-
  Files as such, apart from their names.

  A process that has a file open works on the file, whatever happens to its name.
-/

namespace Concolic.Tree

/-- The number of the file at a location, and the tree in which it has that number. -/
def identify (t : Tree) (loc : Loc) : Option (Nat × Tree) :=
  match t.node? loc with
  | some (.shared id) => some (id, t)
  | some (.file b) =>
    let id := t.freshId
    some (id, (t.setShared id b).put loc (.shared id))
  | _ => none

/-- What the pool keeps under a number. -/
def contents (t : Tree) (id : Nat) : Blob := (t.pool.lookup id).getD Blob.empty

/-- How many names a shared file has. -/
def nameCount (t : Tree) (id : Nat) : Nat := t.entries.countP fun e => e.2 = .shared id

/-- The tree in which only files with several names have numbers. -/
def settle (t : Tree) : Tree :=
  let entries := t.entries.map fun e =>
    match e.2 with
    | .shared id => if t.nameCount id = 1 then (e.1, .file (t.contents id)) else e
    | _ => e
  { entries, pool := t.pool.filter fun e => 1 < t.nameCount e.1 }

end Concolic.Tree
