/-
  File trees: what a file system holds at one moment.

  A tree is a finite map from locations to nodes, read through `node?`.  A regular file with one
  name keeps its bytes in its node; names that share one file (hard links) hold its number, and the
  bytes lie in the pool.  Devices and sealed directories belong to the machine: a session finds them
  and makes none.
-/

namespace Concolic

/-- Where an entry is: its name first, the names of its directories after it. -/
abbrev Loc := List String

/-- The contents of a regular file, and whether it may be executed. -/
structure Blob where
  bytes : ByteArray
  runnable : Bool

instance : DecidableEq Blob := fun a b =>
  match ByteArray.instDecidableEq a.bytes b.bytes, instDecidableEqBool a.runnable b.runnable with
  | isTrue hbytes, isTrue hrunnable =>
      isTrue (by cases a; cases b; cases hbytes; cases hrunnable; rfl)
  | isFalse hbytes, _ => isFalse fun h => hbytes (congrArg Blob.bytes h)
  | _, isFalse hrunnable => isFalse fun h => hrunnable (congrArg Blob.runnable h)

/-- A file without bytes. -/
def Blob.empty : Blob := ⟨ByteArray.empty, false⟩

/-- The special files of a machine.  Named pipes (FIFOs) are not modelled: no tree has one. -/
inductive Device where
  /-- Reads as an empty file and takes any bytes. -/
  | null
  /-- Gives zero bytes without an end and takes no bytes. -/
  | full
  /-- Gives zero bytes without an end and takes any bytes. -/
  | zero
  /-- Whatever the process that opens it has open under a number. -/
  | descriptor (number : Nat)
  /-- The terminal of a process that has none. -/
  | terminal
  deriving DecidableEq

/-- The device never comes to an end. -/
def Device.isEndless : Device → Bool
  | full => true
  | zero => true
  | _ => false

/-- What stands at a location. -/
inductive Node where
  | folder
  /-- A regular file that has this name only. -/
  | file (blob : Blob)
  /-- One of the names of a regular file, whose contents the pool holds under `id`. -/
  | shared (id : Nat)
  /-- A symbolic link with its text. -/
  | link (target : String)
  | device (device : Device)
  /-- A directory kept by the machine itself, in which no name can be made. -/
  | sealed
  deriving DecidableEq

/-- Whether names can stand below a node. -/
def Node.isFolder : Node → Bool
  | folder => true
  | sealed => true
  | _ => false

/-- The entries by location, and the files that names share. -/
structure Tree where
  entries : List (Loc × Node)
  pool : List (Nat × Blob)
  deriving DecidableEq

namespace Tree

/-- A root directory and nothing in it. -/
def empty : Tree := ⟨[], []⟩

/-- The node at a location; the root directory is always there. -/
def node? (t : Tree) : Loc → Option Node
  | [] => some .folder
  | loc => t.entries.lookup loc

/-- A directory stands at the location. -/
def isFolderAt (t : Tree) (loc : Loc) : Bool := (t.node? loc).any Node.isFolder

/-- The device at a location. -/
def device? (t : Tree) (loc : Loc) : Option Device :=
  match t.node? loc with
  | some (.device d) => some d
  | _ => none

/-- The contents that a node gives access to, if it is a regular file. -/
def blobOf (t : Tree) : Node → Option Blob
  | .file b => some b
  | .shared id => some ((t.pool.lookup id).getD Blob.empty)
  | _ => none

/-- The contents of the regular file at a location. -/
def blob? (t : Tree) (loc : Loc) : Option Blob := (t.node? loc).bind t.blobOf

/-! ## Changing one entry -/

/-- The tree with `node` at `loc`, in place of what was there. -/
def put (t : Tree) (loc : Loc) (node : Node) : Tree :=
  { t with entries := (loc, node) :: t.entries.filter fun e => e.1 ≠ loc }

/-- Takes an entry away. -/
def erase (t : Tree) (loc : Loc) : Tree :=
  { t with entries := t.entries.filter fun e => e.1 ≠ loc }

/-- The tree with contents `b` in the pool under `id`. -/
def setShared (t : Tree) (id : Nat) (b : Blob) : Tree :=
  { t with pool := (id, b) :: t.pool.filter fun e => e.1 ≠ id }

/-- The tree with contents `b` in the regular file at `loc`, which is created if nothing is
    there.  All names of a shared file see the new contents. -/
def setBlob (t : Tree) (loc : Loc) (b : Blob) : Tree :=
  match t.node? loc with
  | some (.shared id) => t.setShared id b
  | _ => t.put loc (.file b)

/-! ## Directories -/

/-- `loc` lies inside `dir`, at any depth. -/
def isBelow (dir loc : Loc) : Bool := decide (dir <:+ loc) && decide (dir ≠ loc)

/-- The tree without anything inside `dir`. -/
def clear (t : Tree) (dir : Loc) : Tree :=
  { t with entries := t.entries.filter fun e => !isBelow dir e.1 }

/-- The names in a directory. -/
def names (t : Tree) (dir : Loc) : List String :=
  t.entries.filterMap fun e =>
    match e.1 with
    | name :: parent => if parent = dir then some name else none
    | [] => none

/-- Whether a directory has no names. -/
def isEmptyAt (t : Tree) (dir : Loc) : Bool := (t.names dir).isEmpty

/-- The location `loc` after what is at `old` has moved to `new`. -/
def relocate (old new loc : Loc) : Loc :=
  if old <:+ loc then loc.take (loc.length - old.length) ++ new else loc

/-- The tree with what is at `old`, and all that is inside it, moved to `new`. -/
def move (t : Tree) (old new : Loc) : Tree :=
  let cleared := (t.clear new).erase new
  { cleared with entries := cleared.entries.map fun e => (relocate old new e.1, e.2) }

/-- Two locations are names of one file. -/
def sameFile (t : Tree) (a b : Loc) : Bool :=
  if a = b then true
  else match t.node? a, t.node? b with
    | some (.shared i), some (.shared j) => i = j
    | _, _ => false

/-- A number under which the pool holds nothing and which no name uses. -/
def freshId (t : Tree) : Nat :=
  1 + (t.pool.map (·.1) ++ t.entries.filterMap fun e =>
    match e.2 with
    | .shared id => some id
    | _ => none).foldl max 0

/-! ## What `node?` shows after a change -/

theorem lookup_filter_ne {loc loc' : Loc} (es : List (Loc × Node)) (h : loc' ≠ loc) :
    (es.filter fun e => e.1 ≠ loc).lookup loc' = es.lookup loc' := by
  induction es with
  | nil => rfl
  | cons e es ih =>
    obtain ⟨k, v⟩ := e
    by_cases hk : k = loc
    · have hne : (loc' == k) = false := by simpa [hk] using h
      rw [List.lookup_cons, hne, List.filter_cons_of_neg (by simpa using hk)]
      exact ih
    · simp only [List.filter, ne_eq, hk, not_false_iff, decide_true, List.lookup_cons]
      split
      · rfl
      · exact ih

theorem lookup_filter_self {loc : Loc} (es : List (Loc × Node)) :
    (es.filter fun e => e.1 ≠ loc).lookup loc = none := by
  induction es with
  | nil => rfl
  | cons e es ih =>
    obtain ⟨k, v⟩ := e
    by_cases hk : k = loc
    · simpa [List.filter, hk] using ih
    · have : (loc == k) = false := by simpa using fun h => hk h.symm
      simp only [List.filter, ne_eq, hk, not_false_iff, decide_true, List.lookup_cons, this]
      exact ih

theorem node?_put_self (t : Tree) {loc : Loc} (h : loc ≠ []) (node : Node) :
    (t.put loc node).node? loc = some node := by
  cases loc with
  | nil => exact absurd rfl h
  | cons n d => simp [put, node?]

theorem node?_put_ne (t : Tree) {loc loc' : Loc} (h : loc' ≠ loc) (node : Node) :
    (t.put loc node).node? loc' = t.node? loc' := by
  cases loc' with
  | nil => rfl
  | cons n d =>
    have : (n :: d == loc) = false := by simpa using h
    simp only [put, node?, List.lookup_cons, this]
    exact lookup_filter_ne t.entries h

theorem node?_erase_self (t : Tree) {loc : Loc} (h : loc ≠ []) :
    (t.erase loc).node? loc = none := by
  cases loc with
  | nil => exact absurd rfl h
  | cons n d => exact lookup_filter_self t.entries

theorem node?_erase_ne (t : Tree) {loc loc' : Loc} (h : loc' ≠ loc) :
    (t.erase loc).node? loc' = t.node? loc' := by
  cases loc' with
  | nil => rfl
  | cons n d => exact lookup_filter_ne t.entries h

end Tree

end Concolic
