import Concolic.Proofs.Lock
import Concolic.Tree.Sharing

/-
  Processes that contend for one lock file.

  A process is the `Stage` that it has come to, `operate` is the one operation that it makes next,
  and a schedule is the list of the processes in the order of their operations.

  A lock file is empty between its creation and the writing of the owner's number, and whoever reads
  it then takes it for stale.  And a process that has found a lock stale removes whatever has its
  name by then.  A step is clean if it falls into neither gap.  As long as all steps are clean there
  is one holder at most, by the invariant `Exclusive`; and every step that is not clean can be
  followed by others after which two processes hold the lock.
-/

namespace Concolic.Lock

/-! ## Processes and their operations -/

/-- The live processes that contend for the lock file at a path. -/
structure Contest where
  cwd : Loc
  path : String
  live : List UInt32

/-- How far a process has come. -/
inductive Stage where
  /-- It neither holds the lock nor is it taking it. -/
  | idle
  /-- The lock file was there when it tried to create it. -/
  | reading
  /-- It has read the lock file. -/
  | judging (owner : Option UInt32)
  /-- It has found the lock stale, and is going to remove it. -/
  | stale
  /-- It has removed the stale lock, and is going to create it anew. -/
  | retrying
  /-- It has created the lock file, which it has open under a number. -/
  | writing (id : Nat)
  /-- It holds the lock. -/
  | holding
  deriving DecidableEq

namespace Stage

/-- It has created the lock file but has not written into it. -/
def isWriting : Stage → Bool
  | writing _ => true
  | _ => false

/-- The lock file is its own. -/
def owns : Stage → Bool
  | writing _ => true
  | holding => true
  | _ => false

/-- It is going to remove the lock file, which has no live owner to its knowledge. -/
def condemns (alive : UInt32 → Bool) : Stage → Bool
  | judging owner => !owner.any alive
  | stale => true
  | _ => false

theorem condemns_judging (alive : UInt32 → Bool) (owner : Option UInt32) :
    (judging owner).condemns alive = !owner.any alive := rfl

/-- It is not in the middle of taking the lock. -/
def isResting : Stage → Bool
  | idle => true
  | holding => true
  | _ => false

end Stage

namespace Contest

variable (c : Contest)

/-- A process as the lock sees it. -/
def host (pid : UInt32) : Host := ⟨c.cwd, pid, fun other => decide (other ∈ c.live)⟩

/-- Creates the lock file exclusively, and gives the number of the open file. -/
def openNew (t : Tree) : Except Fault (Nat × Tree) := do
  let (loc, t) ← t.createNew c.cwd c.path
  match t.identify loc with
  | some opened => .ok opened
  | none => .error .notFound

/-- Writes the process number into an open lock file, wherever that file is by now. -/
def writeOwner (pid : UInt32) (id : Nat) (t : Tree) : Tree :=
  t.setShared id
    { t.contents id with bytes := (t.contents id).bytes ++ (ownerText pid).toUTF8 }

/-- The next operation of a process. -/
def operate (pid : UInt32) (t : Tree) : Stage → Stage × Tree
  | .idle => match c.openNew t with
    | .ok (id, t') => (.writing id, t')
    | .error f => (if f.kind = .alreadyExists then .reading else .idle, t)
  | .reading => (.judging (readOwner (c.host pid) t c.path), t)
  | .judging owner => (if owner.any (c.host pid).isAlive then .idle else .stale, t)
  | .stale => (.retrying, discard (c.host pid) t c.path)
  | .retrying => match c.openNew t with
    | .ok (id, t') => (.writing id, t')
    | .error _ => (.idle, t)
  | .writing id => (.holding, writeOwner pid id t)
  | .holding => (.idle, release (c.host pid) ⟨c.path⟩ t)

end Contest

/-- All processes at one moment, and the tree that they share. -/
structure World where
  stage : UInt32 → Stage
  tree : Tree

namespace World

/-- Nobody has done anything. -/
def start (t : Tree) : World := ⟨fun _ => .idle, t⟩

/-- The world in which one process and the tree have changed. -/
def set (w : World) (pid : UInt32) (s : Stage) (t : Tree) : World :=
  ⟨fun q => if q = pid then s else w.stage q, t⟩

theorem stage_set_self (w : World) (pid : UInt32) (s : Stage) (t : Tree) :
    (w.set pid s t).stage pid = s := if_pos rfl

theorem stage_set_ne (w : World) {pid q : UInt32} (h : q ≠ pid) (s : Stage) (t : Tree) :
    (w.set pid s t).stage q = w.stage q := if_neg h

end World

namespace Contest

variable (c : Contest)

/-- One process makes its next operation. -/
def step (w : World) (pid : UInt32) : World :=
  let next := c.operate pid w.tree (w.stage pid)
  w.set pid next.1 next.2

/-- The processes of a schedule make one operation each, in this order. -/
def run (w : World) (schedule : List UInt32) : World := schedule.foldl c.step w

/-- The next operation of `pid` does not read a lock file that is still empty, and does not create
    one that somebody else is going to remove. -/
def CleanStep (w : World) (pid : UInt32) : Prop :=
  (w.stage pid = .reading → ∀ q ∈ c.live, (w.stage q).isWriting = false) ∧
    ((c.operate pid w.tree (w.stage pid)).1.isWriting = true →
      ∀ q ∈ c.live, (w.stage q).condemns (c.host q).isAlive = false)

/-- All steps of a schedule are clean. -/
def Clean (w : World) : List UInt32 → Prop
  | [] => True
  | pid :: rest => c.CleanStep w pid ∧ Clean (c.step w pid) rest

-- the processes are tried one after the other, not all the numbers that there are
instance (w : World) (pid : UInt32) : Decidable (c.CleanStep w pid) :=
  have := List.decidableBAll (fun q => (w.stage q).isWriting = false) c.live
  have := List.decidableBAll (fun q => (w.stage q).condemns (c.host q).isAlive = false) c.live
  inferInstanceAs (Decidable (_ ∧ _))

instance decidableClean (w : World) : (schedule : List UInt32) → Decidable (c.Clean w schedule)
  | [] => inferInstanceAs (Decidable True)
  | pid :: rest =>
    have := decidableClean (c.step w pid) rest
    inferInstanceAs (Decidable (_ ∧ _))

end Contest

/-! ## The lock file of a process -/

section LockFile

variable {c : Contest} {t t' : Tree} {id : Nat} {d : Loc} {name : String} {pid : UInt32}

/-- The path leads to a lock file that is open under a number. -/
structure AtPath (c : Contest) (t : Tree) (id : Nat) (d : Loc) (name : String) : Prop where
  names : t.Names c.cwd c.path d name
  slash : (Path.route c.path).slash = false
  unsealed : t.node? d ≠ some .sealed
  file : t.node? (name :: d) = some (.shared id)

theorem contents_setShared (t : Tree) (id : Nat) (b : Blob) :
    (t.setShared id b).contents id = b := by
  simp [Tree.setShared, Tree.contents]

theorem keeps_setShared (t : Tree) (id : Nat) (b : Blob) : Tree.Keeps t (t.setShared id b) :=
  fun loc _ hnode _ => (Tree.node?_setShared t id b loc).trans hnode

theorem AtPath.setShared (h : AtPath c t id d name) (j : Nat) (b : Blob) :
    AtPath c (t.setShared j b) id d name :=
  ⟨h.names.mono (keeps_setShared t j b), h.slash, by rw [Tree.node?_setShared]; exact h.unsealed,
    by rw [Tree.node?_setShared]; exact h.file⟩

/-- A lock file that has just been created, and the tree in which it is open. -/
def opened (t : Tree) (loc : Loc) : Nat × Tree :=
  let made := t.put loc (.file Blob.empty)
  (made.freshId, (made.setShared made.freshId Blob.empty).put loc (.shared made.freshId))

theorem identify_put (t : Tree) {loc : Loc} (h : loc ≠ []) :
    (t.put loc (.file Blob.empty)).identify loc = some (opened t loc) := by
  rw [Tree.identify, Tree.node?_put_self t h]
  rfl

theorem node?_opened_ne (t : Tree) {loc loc' : Loc} (h : loc' ≠ loc) :
    (opened t loc).2.node? loc' = t.node? loc' := by
  show (Tree.put _ loc _).node? loc' = _
  rw [Tree.node?_put_ne _ h, Tree.node?_setShared, Tree.node?_put_ne t h]

theorem node?_opened_self (t : Tree) {loc : Loc} (h : loc ≠ []) :
    (opened t loc).2.node? loc = some (.shared (opened t loc).1) :=
  Tree.node?_put_self _ h _

theorem contents_opened (t : Tree) (loc : Loc) :
    (opened t loc).2.contents (opened t loc).1 = Blob.empty :=
  contents_setShared _ _ _

theorem keeps_opened {loc : Loc} (h : t.node? loc = none) : Tree.Keeps t (opened t loc).2 := by
  intro loc' node hnode _
  have hne : loc' ≠ loc := by
    rintro rfl
    rw [h] at hnode
    cases hnode
  rw [node?_opened_ne t hne, hnode]

theorem openNew_of_free (hnames : t.Names c.cwd c.path d name)
    (hslash : (Path.route c.path).slash = false) (hd : t.node? d ≠ some .sealed)
    (hnode : t.node? (name :: d) = none) : c.openNew t = .ok (opened t (name :: d)) := by
  rw [Contest.openNew, hnames.createNew hslash hnode hd]
  simp only [bind, Except.bind, identify_put t (List.cons_ne_nil name d)]

theorem openNew_eq_ok {made : Nat × Tree} (h : c.openNew t = .ok made) :
    ∃ d name, t.Names c.cwd c.path d name ∧ (Path.route c.path).slash = false ∧
      t.node? d ≠ some .sealed ∧ t.node? (name :: d) = none ∧ made = opened t (name :: d) := by
  obtain ⟨_, hcreate, -⟩ := Tree.bind_eq_ok h
  obtain ⟨loc, hloc, -⟩ := Tree.bind_eq_ok hcreate
  obtain ⟨d, name, rfl, hnames, hnone, hd, hslash⟩ := Tree.names_of_newLoc hloc
  rw [Bool.not_false, Bool.and_true] at hslash
  rw [openNew_of_free hnames hslash hd hnone] at h
  exact ⟨d, name, hnames, hslash, hd, hnone, (Except.ok.inj h).symm⟩

theorem atPath_of_openNew {made : Nat × Tree} (h : c.openNew t = .ok made) :
    (∃ d name, AtPath c made.2 made.1 d name) ∧ made.2.contents made.1 = Blob.empty := by
  obtain ⟨d, name, hnames, hslash, hd, hnone, rfl⟩ := openNew_eq_ok h
  have hne : d ≠ name :: d := (List.cons_ne_self _ _).symm
  refine ⟨⟨d, name, hnames.mono (keeps_opened hnone), hslash, ?_, node?_opened_self t (by simp)⟩,
    contents_opened t (name :: d)⟩
  rwa [node?_opened_ne t hne]

theorem AtPath.openNew (h : AtPath c t id d name) : c.openNew t = .error .alreadyExists := by
  rw [Contest.openNew, Tree.createNew, Tree.newLoc, h.names.resolve false (fun hf => by cases hf)]
  simp only [bind, Except.bind, h.file, Option.isSome_some, if_true]

theorem AtPath.readOwner (h : AtPath c t id d name) (pid : UInt32) :
    readOwner (c.host pid) t c.path =
      (String.fromUTF8? (t.contents id).bytes).bind ownerOf? := by
  have hfind : t.lookup c.cwd true c.path = .ok (name :: d) :=
    h.names.lookup_some h.slash h.file (by simp) true
  have hread : t.readAt (name :: d) = .ok (t.contents id) := by
    rw [Tree.readAt, Tree.blob?, h.file]
    rfl
  have htext := Tree.readText_of_readAt hfind hread
  rw [Lock.readOwner, show t.readText (c.host pid).cwd c.path = _ from htext]
  cases String.fromUTF8? (t.contents id).bytes <;> rfl

theorem AtPath.discard (h : AtPath c t id d name) (pid : UInt32) :
    discard (c.host pid) t c.path = t.erase (name :: d) := by
  have hremove : t.removeFile (c.host pid).cwd c.path = .ok (t.erase (name :: d)) :=
    h.names.removeFile h.slash h.file rfl
  rw [Lock.discard, hremove]

theorem AtPath.openNew_discard (h : AtPath c t id d name) (pid : UInt32) :
    ∃ made, c.openNew (Lock.discard (c.host pid) t c.path) = .ok made := by
  have hne : d ≠ name :: d := (List.cons_ne_self _ _).symm
  have hkeeps : Tree.Keeps t (t.erase (name :: d)) := Tree.keeps_erase fun node hnode => by
    rw [h.file] at hnode
    cases hnode
    rfl
  rw [h.discard]
  refine ⟨_, openNew_of_free (h.names.mono hkeeps) h.slash ?_ (Tree.node?_erase_self t (by simp))⟩
  rw [Tree.node?_erase_ne t hne]
  exact h.unsealed

/-- The lock file of a process at its stage: it is at the path, empty until it is written. -/
def HasFile (c : Contest) (t : Tree) (pid : UInt32) : Stage → Prop
  | .writing id => (∃ d name, AtPath c t id d name) ∧ t.contents id = Blob.empty
  | .holding => ∃ id, (∃ d name, AtPath c t id d name) ∧
      (t.contents id).bytes = (ownerText pid).toUTF8
  | _ => False

theorem HasFile.openNew {s : Stage} (h : HasFile c t pid s) :
    c.openNew t = .error .alreadyExists := by
  cases s with
  | writing id =>
    obtain ⟨⟨d, name, hpath⟩, -⟩ := h
    exact hpath.openNew
  | holding =>
    obtain ⟨id, ⟨d, name, hpath⟩, -⟩ := h
    exact hpath.openNew
  | _ => exact h.elim

theorem HasFile.readOwner (h : HasFile c t pid .holding) (reader : UInt32) :
    Lock.readOwner (c.host reader) t c.path = some pid := by
  obtain ⟨id, ⟨d, name, hpath⟩, hbytes⟩ := h
  rw [hpath.readOwner reader, hbytes, fromUTF8?_toUTF8]
  exact ownerOf?_ownerText pid

/-- Whoever reads a lock file before it is written learns nothing. -/
theorem HasFile.readOwner_writing (h : HasFile c t pid (.writing id)) (reader : UInt32) :
    Lock.readOwner (c.host reader) t c.path = none := by
  obtain ⟨⟨d, name, hpath⟩, hempty⟩ := h
  rw [hpath.readOwner reader, hempty]
  decide +kernel

theorem HasFile.write (h : HasFile c t pid (.writing id)) :
    HasFile c (Contest.writeOwner pid id t) pid .holding := by
  obtain ⟨⟨d, name, hpath⟩, hempty⟩ := h
  refine ⟨id, ⟨d, name, hpath.setShared id _⟩, ?_⟩
  rw [Contest.writeOwner, contents_setShared, hempty]
  exact ByteArray.empty_append

end LockFile

/-! ## A process alone -/

/-- What a location shows, whether or not its file is open. -/
def look (t : Tree) (loc : Loc) : Option Node :=
  (t.node? loc).map fun node =>
    match t.blobOf node with
    | some b => .file b
    | none => node

namespace Contest

/-- The operations of a process that nobody disturbs, until it holds the lock or has given up. -/
def complete (c : Contest) (pid : UInt32) : (fuel : Nat) → Stage × Tree → Stage × Tree
  | 0, x => x
  | fuel + 1, x => if x.1.isResting then x else complete c pid fuel (c.operate pid x.2 x.1)

end Contest

section Alone

variable {c : Contest} {t t' : Tree} {pid : UInt32} {loc : Loc}

theorem le_foldl_max (ns : List Nat) : ∀ n ∈ ns, n ≤ ns.foldl max 0 := by
  intro n hn
  rw [List.foldl_max, Nat.zero_max]
  exact List.le_max?_getD_of_mem hn

theorem freshId_ne {id : Nat} (h : t.node? loc = some (.shared id)) : id ≠ t.freshId := by
  have hmem : Node.shared id ∈ t.entries.map Prod.snd := by
    cases loc with
    | nil => cases h
    | cons name d =>
      obtain ⟨l₁, l₂, hentries, -⟩ := List.lookup_eq_some_iff.mp h
      rw [hentries]
      simp
  obtain ⟨e, he, hid⟩ := List.mem_map.mp hmem
  have hlt : id < t.freshId := by
    rw [Tree.freshId, Nat.add_comm]
    exact Nat.lt_succ_of_le (le_foldl_max _ id
      (List.mem_append_right _ (List.mem_filterMap.mpr ⟨e, he, by rw [hid]⟩)))
  exact Nat.ne_of_lt hlt

theorem contents_setShared_ne (t : Tree) {id j : Nat} (h : j ≠ id) (b : Blob) :
    (t.setShared id b).contents j = t.contents j := by
  rw [Tree.contents, Tree.contents, Tree.lookup_setShared_ne t h]

/-- A location shows the same if its node is the same, and its contents where it is open. -/
theorem look_congr (h : t'.node? loc = t.node? loc)
    (hopen : ∀ id, t.node? loc = some (.shared id) → t'.contents id = t.contents id) :
    look t' loc = look t loc := by
  rw [look, look, h]
  cases hnode : t.node? loc with
  | none => rfl
  | some node =>
    cases node with
    | shared id => exact congrArg (fun b => some (Node.file b)) (hopen id hnode)
    | _ => rfl

/-- Creating the lock file and writing into it, one after the other, is `create`. -/
theorem create_of_openNew {made : Nat × Tree} (h : c.openNew t = .ok made) (pid : UInt32) :
    ∃ t', create (c.host pid) t c.path = (t', .ok ()) ∧
      ∀ loc, look (Contest.writeOwner pid made.1 made.2) loc = look t' loc := by
  obtain ⟨d, name, hnames, hslash, hd, hnone, rfl⟩ := openNew_eq_ok h
  have hne : name :: d ≠ [] := List.cons_ne_nil name d
  refine ⟨(t.put (name :: d) (.file Blob.empty)).put (name :: d)
    (.file ⟨(ownerText pid).toUTF8, false⟩), ?_, fun loc => ?_⟩
  · rw [create, show t.createNew (c.host pid).cwd c.path = _ from hnames.createNew hslash hnone hd]
    dsimp only
    rw [Tree.extend_put_empty t hne]
    rfl
  · by_cases hloc : loc = name :: d
    · subst hloc
      have hcontents : (Contest.writeOwner pid (opened t (name :: d)).1
          (opened t (name :: d)).2).contents
          (opened t (name :: d)).1 = ⟨(ownerText pid).toUTF8, false⟩ := by
        rw [Contest.writeOwner, contents_setShared, contents_opened]
        exact congrArg (Blob.mk · false) ByteArray.empty_append
      rw [look, look, Contest.writeOwner, Tree.node?_setShared, node?_opened_self t hne,
        Tree.node?_put_self _ hne]
      exact congrArg (fun b => some (Node.file b)) hcontents
    · let made := t.put (name :: d) (.file Blob.empty)
      have hopened : (Contest.writeOwner pid (opened t (name :: d)).1
          (opened t (name :: d)).2).node? loc =
          t.node? loc := by
        rw [Contest.writeOwner, Tree.node?_setShared, node?_opened_ne t hloc]
      have hput : (made.put (name :: d) (.file ⟨(ownerText pid).toUTF8, false⟩)).node? loc =
          t.node? loc := by
        rw [Tree.node?_put_ne _ hloc, Tree.node?_put_ne t hloc]
      refine (look_congr hopened fun id hid => ?_).trans (look_congr hput fun _ _ => rfl).symm
      have hfresh : id ≠ made.freshId := freshId_ne (by rw [Tree.node?_put_ne t hloc, hid])
      exact (contents_setShared_ne _ hfresh _).trans (contents_setShared_ne made hfresh _)

theorem create_of_openNew_error {f : Fault} (h : c.openNew t = .error f) (pid : UInt32) :
    create (c.host pid) t c.path = (t, .error f) := by
  cases hloc : t.newLoc c.cwd c.path false with
  | error f' =>
    rw [Contest.openNew, Tree.createNew, hloc] at h
    cases h
    exact create_of_no_newLoc hloc
  | ok loc =>
    obtain ⟨d, name, rfl, hnames, hnone, hd, hslash⟩ := Tree.names_of_newLoc hloc
    rw [Bool.not_false, Bool.and_true] at hslash
    rw [openNew_of_free hnames hslash hd hnone] at h
    cases h

theorem isSome_liveOwner (h : Host) (t : Tree) (path : String) :
    (liveOwner h t path).isSome = (readOwner h t path).any h.isAlive := by
  unfold liveOwner
  cases readOwner h t path with
  | none => rfl
  | some owner => cases halive : h.isAlive owner <;> simp [halive]

/-- How a process ends that has tried to take the lock. -/
def EndsAs (c : Contest) (alone : Stage × Tree) (taken : Tree × Except Failure Lock) : Prop :=
  (∀ loc, look alone.2 loc = look taken.1 loc) ∧
    (alone.1 = .holding ∧ taken.2 = .ok ⟨c.path⟩ ∨ alone.1 = .idle ∧ ∃ e, taken.2 = .error e)

/-- **A process that nobody disturbs** takes the lock as `acquire` does. -/
theorem acquire_alone {workDir : String} (hpath : c.path = pathFor workDir)
    (hprepare : prepare (c.host pid) t' c.path = (t, .ok ())) :
    EndsAs c (c.complete pid 5 (c.operate pid t .idle)) (acquire (c.host pid) workDir t') := by
  rw [acquire_of_prepared (hpath ▸ hprepare), ← hpath, seize]
  cases hopen : c.openNew t with
  | ok made =>
    obtain ⟨held, hcreate, hlook⟩ := create_of_openNew hopen pid
    simp only [Contest.operate, hopen, Contest.complete, Stage.isResting, hcreate,
      if_true, if_false, Bool.false_eq_true]
    exact ⟨hlook, .inl ⟨rfl, rfl⟩⟩
  | error f =>
    have hcreate := create_of_openNew_error hopen pid
    by_cases hkind : f.kind = .alreadyExists
    · simp only [Contest.operate, hopen, Contest.complete, Stage.isResting, hcreate, hkind, if_true,
        if_false, Bool.false_eq_true, ne_eq, not_true_eq_false]
      have hlive := isSome_liveOwner (c.host pid) t c.path
      cases howner : liveOwner (c.host pid) t c.path with
      | some owner =>
        rw [howner] at hlive
        simp only [← hlive, Option.isSome_some, if_true]
        exact ⟨fun _ => rfl, .inr ⟨rfl, _, rfl⟩⟩
      | none =>
        rw [howner] at hlive
        simp only [← hlive, Option.isSome_none, if_false, Bool.false_eq_true]
        cases hagain : c.openNew (discard (c.host pid) t c.path) with
        | ok made =>
          obtain ⟨held, hcreate', hlook⟩ := create_of_openNew hagain pid
          simp only [hcreate', if_false, Bool.false_eq_true]
          exact ⟨hlook, .inl ⟨rfl, rfl⟩⟩
        | error f' =>
          have hcreate' := create_of_openNew_error hagain pid
          simp only [hcreate', if_true]
          exact ⟨fun _ => rfl, .inr ⟨rfl, _, rfl⟩⟩
    · simp only [Contest.operate, hopen, Contest.complete, Stage.isResting, hcreate, hkind, if_true,
        if_false, ne_eq, not_false_eq_true]
      exact ⟨fun _ => rfl, .inr ⟨rfl, _, rfl⟩⟩

end Alone

/-! ## Clean schedules -/

section Exclusive

variable {c : Contest} {w : World} {pid p q owner : UInt32} {s : Stage} {made : Nat × Tree}

/-- Only live processes have done anything. -/
def OnlyLive (c : Contest) (w : World) : Prop := ∀ q, w.stage q ≠ .idle → q ∈ c.live

/-- Nobody owns the lock file, or one process does, and finds it at the path, and nobody is going to
    remove it. -/
inductive Exclusive (c : Contest) (w : World) : Prop where
  | free : (∀ q, (w.stage q).owns = false) → Exclusive c w
  | owned (owner : UInt32) : (∀ q, q ≠ owner → (w.stage q).owns = false) →
      HasFile c w.tree owner (w.stage owner) →
      (∀ q, (w.stage q).condemns (c.host q).isAlive = false) → Exclusive c w

theorem HasFile.owns {t : Tree} (h : HasFile c t pid s) : s.owns = true := by
  cases s with
  | writing id => rfl
  | holding => rfl
  | _ => exact h.elim

theorem isAlive_of_mem (h : q ∈ c.live) (pid : UInt32) : (c.host pid).isAlive q = true := by
  simp [Host.isAlive, Contest.host, h]

theorem OnlyLive.set (h : OnlyLive c w) (hpid : pid ∈ c.live) (s : Stage) (t : Tree) :
    OnlyLive c (w.set pid s t) := by
  intro q hq
  by_cases heq : q = pid
  · exact heq ▸ hpid
  · rw [World.stage_set_ne w heq] at hq
    exact h q hq

/-- What is asked of live processes is true of all: the others are idle. -/
theorem OnlyLive.not_condemns (h : OnlyLive c w)
    (hlive : ∀ q ∈ c.live, (w.stage q).condemns (c.host q).isAlive = false) (q : UInt32) :
    (w.stage q).condemns (c.host q).isAlive = false := by
  by_cases hq : w.stage q = .idle
  · rw [hq]
    rfl
  · exact hlive q (h q hq)

theorem free_set (h : ∀ q, q ≠ pid → (w.stage q).owns = false) (hs : s.owns = false)
    (t : Tree) : Exclusive c (w.set pid s t) := by
  refine .free fun q => ?_
  by_cases heq : q = pid
  · rw [heq, World.stage_set_self, hs]
  · rw [World.stage_set_ne w heq, h q heq]

theorem owned_set (h : ∀ q, q ≠ pid → (w.stage q).owns = false) {t : Tree}
    (hfile : HasFile c t pid s) (hspared : ∀ q, (w.stage q).condemns (c.host q).isAlive = false) :
    Exclusive c (w.set pid s t) := by
  refine .owned pid (fun q hq => ?_) ?_ fun q => ?_
  · rw [World.stage_set_ne w hq, h q hq]
  · rw [World.stage_set_self]
    exact hfile
  · by_cases heq : q = pid
    · rw [heq, World.stage_set_self]
      cases s with
      | writing id => rfl
      | holding => rfl
      | _ => exact hfile.elim
    · rw [World.stage_set_ne w heq, hspared q]

theorem owned_other (hothers : ∀ q, q ≠ owner → (w.stage q).owns = false)
    (hfile : HasFile c w.tree owner (w.stage owner))
    (hspared : ∀ q, (w.stage q).condemns (c.host q).isAlive = false) (hne : pid ≠ owner)
    (hs : s.owns = false) (hcondemns : s.condemns (c.host pid).isAlive = false) :
    Exclusive c (w.set pid s w.tree) := by
  refine .owned owner (fun q hq => ?_) ?_ fun q => ?_
  · by_cases heq : q = pid
    · rw [heq, World.stage_set_self, hs]
    · rw [World.stage_set_ne w heq, hothers q hq]
  · rw [World.stage_set_ne w hne.symm]
    exact hfile
  · by_cases heq : q = pid
    · rw [heq, World.stage_set_self, hcondemns]
    · rw [World.stage_set_ne w heq, hspared q]

theorem operate_create (t : Tree) (pid : UInt32) (hs : s = .idle ∨ s = .retrying) :
    (∃ made, c.openNew t = .ok made ∧ c.operate pid t s = (.writing made.1, made.2)) ∨
      ∃ f s', c.openNew t = .error f ∧ c.operate pid t s = (s', t) ∧
        (s' = .idle ∨ s' = .reading) := by
  cases hopen : c.openNew t with
  | ok made =>
    refine .inl ⟨made, rfl, ?_⟩
    rcases hs with rfl | rfl <;> simp only [Contest.operate, hopen]
  | error f =>
    refine .inr ⟨f, ?_⟩
    rcases hs with rfl | rfl
    · refine ⟨_, rfl, by simp only [Contest.operate, hopen]; rfl, ?_⟩
      split
      · exact .inr rfl
      · exact .inl rfl
    · exact ⟨.idle, rfl, by simp only [Contest.operate, hopen], .inl rfl⟩

theorem step_eq {t : Tree} (h : c.operate pid w.tree (w.stage pid) = (s, t)) :
    c.step w pid = w.set pid s t := by
  rw [Contest.step, h]

theorem Exclusive.create (h : Exclusive c w) (honly : OnlyLive c w) (hclean : c.CleanStep w pid)
    (hs : w.stage pid = .idle ∨ w.stage pid = .retrying) : Exclusive c (c.step w pid) := by
  rcases operate_create w.tree pid hs with ⟨made, hopen, hop⟩ | ⟨f, s', hopen, hop, hs'⟩
  · rw [step_eq hop]
    have hspared := honly.not_condemns (hclean.2 (by rw [hop]; rfl))
    cases h with
    | free hfree => exact owned_set (fun q _ => hfree q) (atPath_of_openNew hopen) hspared
    | owned owner _ hfile _ =>
      rw [hfile.openNew] at hopen
      cases hopen
  · rw [step_eq hop]
    have hnot : s'.owns = false := by rcases hs' with rfl | rfl <;> rfl
    have hcondemns : s'.condemns (c.host pid).isAlive =
        false := by rcases hs' with rfl | rfl <;> rfl
    cases h with
    | free hfree => exact free_set (fun q _ => hfree q) hnot w.tree
    | owned owner hothers hfile hspared =>
      refine owned_other hothers hfile hspared ?_ hnot hcondemns
      rintro rfl
      have howns := hfile.owns
      rcases hs with hs | hs <;> (rw [hs] at howns; cases howns)

theorem HasFile.stage_ne (hfile : HasFile c w.tree owner (w.stage owner))
    (h : (w.stage pid).owns = false) : pid ≠ owner := by
  rintro rfl
  rw [hfile.owns] at h
  cases h

theorem eq_owner (hothers : ∀ q, q ≠ owner → (w.stage q).owns = false)
    (h : (w.stage pid).owns = true) : pid = owner := by
  refine Classical.byContradiction fun hne => ?_
  rw [hothers pid hne] at h
  cases h

theorem HasFile.reader_spares (hfile : HasFile c w.tree owner (w.stage owner))
    (honly : OnlyLive c w) (hclean : c.CleanStep w pid) (hs : w.stage pid = .reading) :
    (Lock.readOwner (c.host pid) w.tree c.path).any (c.host pid).isAlive = true := by
  have hlive : owner ∈ c.live := honly owner fun hidle => by
    rw [hidle] at hfile
    exact hfile.elim
  have hwritten := hclean.1 hs owner hlive
  cases hstage : w.stage owner with
  | holding =>
    rw [hstage] at hfile
    rw [hfile.readOwner pid]
    exact isAlive_of_mem hlive pid
  | writing id =>
    rw [hstage] at hwritten
    cases hwritten
  | _ =>
    rw [hstage] at hfile
    exact hfile.elim

/-- **One clean step** keeps the lock exclusive. -/
theorem Exclusive.step (h : Exclusive c w) (honly : OnlyLive c w) (hclean : c.CleanStep w pid) :
    Exclusive c (c.step w pid) := by
  cases hs : w.stage pid with
  | idle => exact h.create honly hclean (.inl hs)
  | retrying => exact h.create honly hclean (.inr hs)
  | reading =>
    have hop : c.operate pid w.tree (w.stage pid) =
        (.judging (readOwner (c.host pid) w.tree c.path), w.tree) := by simp only [hs,
          Contest.operate]
    rw [step_eq hop]
    cases h with
    | free hfree => exact free_set (fun q _ => hfree q) rfl w.tree
    | owned owner hothers hfile hspared =>
      have hsees := hfile.reader_spares honly hclean hs
      exact owned_other hothers hfile hspared (hfile.stage_ne (by rw [hs]; rfl)) rfl
        (by rw [Stage.condemns_judging, hsees]; rfl)
  | judging seen =>
    have hop : c.operate pid w.tree (w.stage pid) =
        (if seen.any (c.host pid).isAlive then .idle else .stale, w.tree) := by
      simp only [hs, Contest.operate]
    rw [step_eq hop]
    cases h with
    | free hfree => exact free_set (fun q _ => hfree q) (by split <;> rfl) w.tree
    | owned owner hothers hfile hspared =>
      have hsees : seen.any (c.host pid).isAlive = true := by
        have := hspared pid
        rw [hs, Stage.condemns_judging] at this
        simpa using this
      rw [if_pos hsees]
      exact owned_other hothers hfile hspared (hfile.stage_ne (by rw [hs]; rfl)) rfl rfl
  | stale =>
    have hop : c.operate pid w.tree (w.stage pid) =
        (.retrying, discard (c.host pid) w.tree c.path) := by simp only [hs, Contest.operate]
    rw [step_eq hop]
    cases h with
    | free hfree => exact free_set (fun q _ => hfree q) rfl _
    | owned owner _ _ hspared =>
      have := hspared pid
      rw [hs] at this
      cases this
  | writing id =>
    have hop : c.operate pid w.tree (w.stage pid) =
        (.holding, Contest.writeOwner pid id w.tree) := by simp only [hs, Contest.operate]
    rw [step_eq hop]
    cases h with
    | free hfree =>
      have := hfree pid
      rw [hs] at this
      cases this
    | owned owner hothers hfile hspared =>
      obtain rfl : pid = owner := eq_owner hothers (by rw [hs]; rfl)
      rw [hs] at hfile
      exact owned_set hothers hfile.write hspared
  | holding =>
    have hop : c.operate pid w.tree (w.stage pid) =
        (.idle, release (c.host pid) ⟨c.path⟩ w.tree) := by simp only [hs, Contest.operate]
    rw [step_eq hop]
    refine free_set (fun q hq => ?_) rfl _
    cases h with
    | free hfree => exact hfree q
    | owned owner hothers _ _ =>
      obtain rfl : pid = owner := eq_owner hothers (by rw [hs]; rfl)
      exact hothers q hq

/-- **A clean schedule** keeps the lock exclusive. -/
theorem Exclusive.run (h : Exclusive c w) (honly : OnlyLive c w) {schedule : List UInt32}
    (hlive : ∀ p ∈ schedule, p ∈ c.live) (hclean : c.Clean w schedule) :
    Exclusive c (c.run w schedule) ∧ OnlyLive c (c.run w schedule) := by
  induction schedule generalizing w with
  | nil => exact ⟨h, honly⟩
  | cons p rest ih =>
    exact ih (h.step honly hclean.1) (honly.set (hlive p (by simp)) _ _)
      (fun q hq => hlive q (List.mem_cons_of_mem p hq)) hclean.2

theorem Exclusive.hasFile (h : Exclusive c w) (howns : (w.stage pid).owns = true) :
    HasFile c w.tree pid (w.stage pid) := by
  cases h with
  | free hfree =>
    rw [hfree pid] at howns
    cases howns
  | owned owner hothers hfile _ =>
    rw [eq_owner hothers howns]
    exact hfile

theorem Exclusive.holder_unique (h : Exclusive c w) (hp : w.stage p = .holding)
    (hq : w.stage q = .holding) : p = q := by
  cases h with
  | free hfree =>
    have := hfree p
    rw [hp] at this
    cases this
  | owned owner hothers _ _ =>
    have hpo : p = owner := eq_owner hothers (by rw [hp]; rfl)
    have hqo : q = owner := eq_owner hothers (by rw [hq]; rfl)
    exact hpo.trans hqo.symm

/-! ## Steps that are not clean -/

/-- A process that has found the lock stale takes it from whoever holds it by then. -/
theorem stale_takes (hne : p ≠ q) (hp : w.stage p = .holding)
    (hfile : HasFile c w.tree p .holding) (hq : w.stage q = .stale) :
    (c.run w [q, q, q]).stage p = .holding ∧ (c.run w [q, q, q]).stage q = .holding := by
  obtain ⟨id, ⟨d, name, hpath⟩, -⟩ := hfile
  obtain ⟨made, hopen⟩ := hpath.openNew_discard q
  let w₁ := w.set q .retrying (discard (c.host q) w.tree c.path)
  let w₂ := w₁.set q (.writing made.1) made.2
  let w₃ := w₂.set q .holding (Contest.writeOwner q made.1 made.2)
  have h₁ : c.step w q = w₁ := step_eq (by simp only [hq, Contest.operate])
  have h₂ : c.step w₁ q = w₂ := by
    refine step_eq ?_
    rw [World.stage_set_self]
    show c.operate q (discard (c.host q) w.tree c.path) .retrying = _
    simp only [Contest.operate, hopen]
  have h₃ : c.step w₂ q = w₃ := by
    refine step_eq ?_
    rw [World.stage_set_self]
    rfl
  have hrun : c.run w [q, q, q] = w₃ := by
    show c.step (c.step (c.step w q) q) q = w₃
    rw [h₁, h₂, h₃]
  rw [hrun]
  refine ⟨?_, World.stage_set_self w₂ q _ _⟩
  rw [World.stage_set_ne w₂ hne, World.stage_set_ne w₁ hne, World.stage_set_ne w hne, hp]

theorem condemns_takes (hne : p ≠ q) (hp : w.stage p = .holding)
    (hfile : HasFile c w.tree p .holding) (hq : (w.stage q).condemns (c.host q).isAlive = true) :
    ∃ n, (c.run w (List.replicate n q)).stage p = .holding ∧
      (c.run w (List.replicate n q)).stage q = .holding := by
  cases hs : w.stage q with
  | stale => exact ⟨3, stale_takes hne hp hfile hs⟩
  | judging seen =>
    have hdead : seen.any (c.host q).isAlive = false := by
      rw [hs, Stage.condemns_judging] at hq
      simpa using hq
    have hstep : c.step w q = w.set q .stale w.tree :=
      step_eq (by simp only [hs, Contest.operate, hdead, Bool.false_eq_true, if_false])
    refine ⟨4, ?_⟩
    show (c.run (c.step w q) [q, q, q]).stage p = .holding ∧
      (c.run (c.step w q) [q, q, q]).stage q = .holding
    rw [hstep]
    exact stale_takes hne (by rw [World.stage_set_ne w hne, hp]) hfile
      (World.stage_set_self w q _ _)
  | _ =>
    rw [hs] at hq
    cases hq

/-- Two processes hold the lock. -/
def TwoHolders (w : World) : Prop := ∃ p q, p ≠ q ∧ w.stage p = .holding ∧ w.stage q = .holding

/-- After reading a lock file that is still empty, two processes can come to hold the lock. -/
theorem twoHolders_of_read {id : Nat} (hp : w.stage p = .reading)
    (hq : w.stage q = .writing id) (hfile : HasFile c w.tree q (.writing id)) :
    ∃ n, TwoHolders (c.run w (p :: q :: List.replicate n p)) := by
  have hne : q ≠ p := by
    rintro rfl
    rw [hp] at hq
    cases hq
  let w₁ := w.set p (.judging none) w.tree
  let w₂ := w₁.set q .holding (Contest.writeOwner q id w.tree)
  have h₁ : c.step w p = w₁ := by
    refine step_eq ?_
    simp only [hp, Contest.operate, hfile.readOwner_writing p]
  have h₂ : c.step w₁ q = w₂ := by
    refine step_eq ?_
    rw [World.stage_set_ne w hne, hq]
    rfl
  have hcondemns : (w₂.stage p).condemns (c.host p).isAlive = true := by
    rw [World.stage_set_ne w₁ hne.symm, World.stage_set_self]
    rfl
  obtain ⟨n, hholds⟩ := condemns_takes hne (World.stage_set_self w₁ q _ _) hfile.write hcondemns
  refine ⟨n, q, p, hne, ?_⟩
  show (c.run (c.step (c.step w p) q) (List.replicate n p)).stage q = .holding ∧
    (c.run (c.step (c.step w p) q) (List.replicate n p)).stage p = .holding
  rw [h₁, h₂]
  exact hholds

theorem exists_of_isWriting (h : s.isWriting = true) : ∃ id, s = .writing id := by
  cases s with
  | writing id => exact ⟨id, rfl⟩
  | _ => cases h

theorem creates_of_isWriting {t : Tree}
    (h : (c.operate p t s).1.isWriting = true) : s = .idle ∨ s = .retrying := by
  cases s with
  | idle => exact .inl rfl
  | retrying => exact .inr rfl
  | judging seen =>
    simp only [Contest.operate] at h
    split at h <;> cases h
  | _ => cases h

/-- After creating a lock file that another process is going to remove, two processes can come to
    hold the lock. -/
theorem twoHolders_of_create (hp : (c.operate p w.tree (w.stage p)).1.isWriting = true)
    (hq : (w.stage q).condemns (c.host q).isAlive = true) :
    ∃ n, TwoHolders (c.run w (p :: p :: List.replicate n q)) := by
  have hs := creates_of_isWriting hp
  have hne : p ≠ q := by
    rintro rfl
    rcases hs with hs | hs <;> (rw [hs] at hq; cases hq)
  rcases operate_create w.tree p hs with ⟨made, hopen, hop⟩ | ⟨f, s', hopen, hop, hs'⟩
  · let w₁ := w.set p (.writing made.1) made.2
    let w₂ := w₁.set p .holding (Contest.writeOwner p made.1 made.2)
    have hfile : HasFile c made.2 p (.writing made.1) := atPath_of_openNew hopen
    have h₁ : c.step w p = w₁ := step_eq hop
    have h₂ : c.step w₁ p = w₂ := by
      refine step_eq ?_
      rw [World.stage_set_self]
      rfl
    have hcondemns : (w₂.stage q).condemns (c.host q).isAlive = true := by
      rw [World.stage_set_ne w₁ hne.symm, World.stage_set_ne w hne.symm, hq]
    obtain ⟨n, hholds⟩ := condemns_takes hne (World.stage_set_self w₁ p _ _) hfile.write hcondemns
    refine ⟨n, p, q, hne, ?_⟩
    show (c.run (c.step (c.step w p) p) (List.replicate n q)).stage p = .holding ∧
      (c.run (c.step (c.step w p) p) (List.replicate n q)).stage q = .holding
    rw [h₁, h₂]
    exact hholds
  · rw [hop] at hp
    rcases hs' with rfl | rfl <;> cases hp

/-- **Every step that is not clean opens the way to two holders.** -/
theorem Exclusive.twoHolders (h : Exclusive c w) (hpid : pid ∈ c.live)
    (hunclean : ¬ c.CleanStep w pid) :
    ∃ rest, (∀ q ∈ rest, q ∈ c.live) ∧ TwoHolders (c.run w (pid :: rest)) := by
  rcases Classical.not_and_iff_not_or_not.mp hunclean with hread | hcreate
  · obtain ⟨hs, q, hq, hwriting⟩ : w.stage pid = .reading ∧
        ∃ q ∈ c.live, (w.stage q).isWriting = true := by simpa using hread
    obtain ⟨id, hid⟩ := exists_of_isWriting hwriting
    have hfile := h.hasFile (show (w.stage q).owns = true by rw [hid]; rfl)
    rw [hid] at hfile
    obtain ⟨n, htwo⟩ := twoHolders_of_read hs hid hfile
    refine ⟨q :: List.replicate n pid, fun r hr => ?_, htwo⟩
    rcases List.mem_cons.mp hr with rfl | hr
    · exact hq
    · rw [List.eq_of_mem_replicate hr]
      exact hpid
  · obtain ⟨hs, q, hq, hcondemns⟩ : (c.operate pid w.tree (w.stage pid)).1.isWriting = true ∧
        ∃ q ∈ c.live, (w.stage q).condemns (c.host q).isAlive = true := by simpa using hcreate
    obtain ⟨n, htwo⟩ := twoHolders_of_create hs hcondemns
    refine ⟨pid :: List.replicate n q, fun r hr => ?_, htwo⟩
    rcases List.mem_cons.mp hr with rfl | hr
    · exact hpid
    · rw [List.eq_of_mem_replicate hr]
      exact hq

/-! ## Whole schedules -/

theorem Contest.Clean.take (n : Nat) {schedule : List UInt32} (h : c.Clean w schedule) :
    c.Clean w (schedule.take n) := by
  induction schedule generalizing w n with
  | nil => simpa using h
  | cons p rest ih =>
    cases n with
    | zero => trivial
    | succ n => exact ⟨h.1, ih n h.2⟩

theorem exclusive_start (c : Contest) (t : Tree) :
    Exclusive c (World.start t) ∧ OnlyLive c (World.start t) :=
  ⟨.free fun _ => rfl, fun _ hq => absurd rfl hq⟩

end Exclusive

/-- **When the lock excludes.**  Whatever stands at the path at first, two live processes never hold
    the lock at a moment of a clean schedule; and whenever a step follows that is not clean, they
    can come to hold it both. -/
theorem clean_schedule_excludes (c : Contest) (t : Tree) (schedule : List UInt32)
    (hlive : ∀ p ∈ schedule, p ∈ c.live) (hclean : c.Clean (World.start t) schedule) :
    (∀ n, ¬ TwoHolders (c.run (World.start t) (schedule.take n))) ∧
      ∀ p ∈ c.live, ¬ c.CleanStep (c.run (World.start t) schedule) p →
        ∃ rest, (∀ q ∈ rest, q ∈ c.live) ∧
          TwoHolders (c.run (World.start t) (schedule ++ p :: rest)) := by
  obtain ⟨hstart, honly⟩ := exclusive_start c t
  constructor
  · rintro n ⟨p, q, hne, hp, hq⟩
    have hlive' : ∀ p ∈ schedule.take n, p ∈ c.live := fun p hmem =>
      hlive p (List.mem_of_mem_take hmem)
    obtain ⟨hexclusive, -⟩ := hstart.run honly hlive' (hclean.take n)
    exact hne (hexclusive.holder_unique hp hq)
  · intro p hpid hunclean
    obtain ⟨hexclusive, -⟩ := hstart.run honly hlive hclean
    obtain ⟨rest, hrest, htwo⟩ := hexclusive.twoHolders hpid hunclean
    refine ⟨rest, hrest, ?_⟩
    rw [Contest.run, List.foldl_append]
    exact htwo

/-- Two processes that find a lock file with the number of a third one, which is dead. -/
def staleContest : Contest := ⟨[], "w.lock", [1, 2]⟩

/-- The lock of a process that is gone. -/
def staleTree : Tree := Tree.empty.put ["w.lock"] (.file ⟨"99999999".toUTF8, false⟩)

/-- The first process takes over the stale lock, the second one is refused; then the second one
    finds the lock file again, and before it reads it the first one gives the lock back and creates
    the file anew. -/
def refusedSchedule : List UInt32 := [1, 1, 1, 1, 1, 1, 2, 2, 2, 2, 1, 1]

theorem refusedSchedule_excludes :
    staleContest.Clean (World.start staleTree) refusedSchedule ∧
      (∀ n, ¬ TwoHolders (staleContest.run (World.start staleTree) (refusedSchedule.take n))) ∧
      ∃ rest, TwoHolders (staleContest.run (World.start staleTree)
        (refusedSchedule ++ 2 :: rest)) := by
  have hclean : staleContest.Clean (World.start staleTree) refusedSchedule := by decide +kernel
  have hunclean : ¬ staleContest.CleanStep
      (staleContest.run (World.start staleTree) refusedSchedule) 2 := by decide +kernel
  obtain ⟨hexcludes, hopens⟩ := clean_schedule_excludes staleContest staleTree refusedSchedule
    (by simp [refusedSchedule, staleContest]) hclean
  obtain ⟨rest, -, htwo⟩ := hopens 2 (by decide) hunclean
  exact ⟨hclean, hexcludes, rest, htwo⟩

/-- **The lock does not exclude.**  The second process finds the lock stale, the first one takes it
    over, and the second one removes it and takes it as well. -/
theorem stale_lock_taken_twice :
    let w := staleContest.run (World.start staleTree) [2, 2, 2, 1, 1, 1, 1, 1, 1, 2, 2, 2]
    w.stage 1 = .holding ∧ w.stage 2 = .holding := by
  decide +kernel

end Concolic.Lock
