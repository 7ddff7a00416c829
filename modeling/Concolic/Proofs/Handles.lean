import Concolic.Proofs.Acquire

/-
  The locks of one process.

  A lock is known by a path text only, and many texts lead to one place, so what keeps two locks
  apart is the entry that their paths name (`Owns`).  In a tree without links that entry stays the
  same, whatever the process does with its other locks.
-/

namespace Concolic.Lock

open Concolic.Tree (Adds Keeps Names)

variable {h : Host} {t t' made : Tree} {workDir : String} {name name' : String} {d d' : Loc}
  {lock other : Lock}

/-- What a process does with its locks: it takes the one of a directory, or gives back the one with
    the given index. -/
inductive Act where
  | acquire (workDir : String)
  | drop (index : Nat)

/-- A process: the tree that it works on, and the locks that it holds, the last one first. -/
structure Process where
  tree : Tree
  live : List Lock

namespace Process

/-- One act.  A lock that is refused is not held, and there is nothing to give back at an index that
    no lock has. -/
def act (h : Host) (p : Process) : Act → Process
  | .acquire workDir =>
    match Lock.acquire h workDir p.tree with
    | (tree, .ok lock) => ⟨tree, lock :: p.live⟩
    | (tree, .error _) => ⟨tree, p.live⟩
  | .drop index =>
    match p.live[index]? with
    | some lock => ⟨lock.release h p.tree, p.live.eraseIdx index⟩
    | none => p

/-- One act after another. -/
def run (h : Host) (p : Process) (acts : List Act) : Process := acts.foldl (act h) p

section Acts

variable {h : Host} {p : Process} {workDir : String} {t : Tree} {lock : Lock} {index : Nat}

theorem act_acquired (hacquire : Lock.acquire h workDir p.tree = (t, .ok lock)) :
    p.act h (.acquire workDir) = ⟨t, lock :: p.live⟩ := by
  unfold act
  simp only [hacquire]

theorem act_refused {cause : Failure} (hacquire : Lock.acquire h workDir p.tree =
    (t, .error cause)) : p.act h (.acquire workDir) = ⟨t, p.live⟩ := by
  unfold act
  simp only [hacquire]

theorem act_dropped (hlock : p.live[index]? = some lock) :
    p.act h (.drop index) = ⟨lock.release h p.tree, p.live.eraseIdx index⟩ := by
  unfold act
  simp only [hlock]

theorem act_missing (hlock : p.live[index]? = none) : p.act h (.drop index) = p := by
  unfold act
  simp only [hlock]

end Acts

end Process

/-! ## The file of a lock -/

/-- The file of the lock is the entry `name` in `d`: its path leads there, and the entry is a
    regular file that holds the number of the process and nothing else. -/
structure Owns (h : Host) (t : Tree) (lock : Lock) (d : Loc) (name : String) : Prop where
  names : Names t h.cwd lock.path d name
  slash : (Path.route lock.path).slash = false
  file : t.node? (name :: d) = some (.file (ownerBlob h.pid))

theorem Owns.unique (ho : Owns h t lock d name) (ho' : Owns h t lock d' name') :
    d = d' ∧ name = name' := ho.names.unique ho'.names

theorem Owns.mono (ho : Owns h t lock d name) (hkeeps : Keeps t t')
    (hsame : t'.node? (name :: d) = t.node? (name :: d)) : Owns h t' lock d name :=
  ⟨ho.names.mono hkeeps, ho.slash, hsame.trans ho.file⟩

/-- Two locks have one file. -/
def Shares (h : Host) (t : Tree) (lock other : Lock) : Prop :=
  ∃ d name, Owns h t lock d name ∧ Owns h t other d name

/-- **The state of a process that only works with locks.** -/
structure Sound (h : Host) (p : Process) : Prop where
  linkFree : p.tree.LinkFree
  owns : ∀ lock ∈ p.live, ∃ d name, Owns h p.tree lock d name
  apart : p.live.Pairwise fun lock other => ¬ Shares h p.tree lock other

theorem sound_start (hfree : t.LinkFree) : Sound h ⟨t, []⟩ :=
  ⟨hfree, fun _ hlock => absurd hlock List.not_mem_nil, List.Pairwise.nil⟩

/-! ## One act -/

/-- What a step of a process leaves: no links, all ways, and the files of the locks
    that it keeps. -/
structure Spares (h : Host) (t t' : Tree) (live : List Lock) : Prop where
  linkFree : t'.LinkFree
  keeps : Keeps t t'
  files : ∀ lock ∈ live, ∀ d name, Owns h t lock d name →
    t'.node? (name :: d) = t.node? (name :: d)

theorem Spares.owns {live : List Lock} (hs : Spares h t t' live) (hmem : lock ∈ live)
    (ho : Owns h t lock d name) : Owns h t' lock d name :=
  ho.mono hs.keeps (hs.files lock hmem d name ho)

theorem Spares.sound {live : List Lock} {p : Process} (hsound : Sound h p)
    (hsub : live.Sublist p.live) (hs : Spares h p.tree t' live) : Sound h ⟨t', live⟩ := by
  refine ⟨hs.linkFree, fun lock hmem => ?_, ?_⟩
  · obtain ⟨d, name, ho⟩ := hsound.owns lock (hsub.subset hmem)
    exact ⟨d, name, hs.owns hmem ho⟩
  · refine (hsound.apart.sublist hsub).imp_of_mem fun {a b} ha hb hapart => ?_
    rintro ⟨d, name, hoa, hob⟩
    obtain ⟨da, na, hoa'⟩ := hsound.owns a (hsub.subset ha)
    obtain ⟨db, nb, hob'⟩ := hsound.owns b (hsub.subset hb)
    obtain ⟨rfl, rfl⟩ := (hs.owns ha hoa').unique hoa
    obtain ⟨rfl, rfl⟩ := (hs.owns hb hob').unique hob
    exact hapart ⟨_, _, hoa', hob'⟩

theorem Owns.ne_unowned (ho : Owns h t lock d name) (hadds : Adds t made)
    (hnames : Names made h.cwd (pathFor workDir) d' name')
    (hstale : liveOwner h made (pathFor workDir) = none) : name :: d ≠ name' :: d' := by
  intro heq
  have hfile := hadds.within _ _ ho.file
  rw [heq] at hfile
  rw [liveOwner_of_file hnames (slash_pathFor workDir) hfile (isAlive_self h)] at hstale
  cases hstale

theorem spares_refused {cause : Failure} {kept : Tree} (live : List Lock) (hfree : t.LinkFree)
    (hacquire : Lock.acquire h workDir t = (kept, .error cause)) : Spares h t kept live := by
  have hadds := adds_prepare h t (pathFor workDir)
  rcases refused_cases hacquire with
    hkept | ⟨-, made, d, name, node, hprepare, hnames, hnode, hfolder, hstale, hkept, -⟩
  · rw [hkept]
    exact ⟨hfree.adds hadds, hadds.keeps, fun lock _ d name ho => by
      rw [ho.file, hadds.within _ _ ho.file]⟩
  · rw [hkept]
    rw [hprepare] at hadds
    have hmade := hfree.adds hadds
    refine ⟨hmade.within (Tree.within_erase made _),
      hadds.keeps.trans (Tree.keeps_erase fun old hold => hmade.not_isRoad hold ?_),
      fun lock _ d' name' ho => ?_⟩
    · rw [hnode] at hold
      cases hold
      exact hfolder
    · rw [Tree.node?_erase_ne made (ho.ne_unowned hadds hnames hstale), ho.file,
        hadds.within _ _ ho.file]

/-- A lock that is taken costs no other lock its file, and has one of its own. -/
theorem spares_taken {held : Tree} (live : List Lock) (hfree : t.LinkFree)
    (htakes : Takes h workDir t held d name) :
    Spares h t held live ∧ ∀ lock d' name', Owns h t lock d' name' → name' :: d' ≠ name :: d := by
  have hadds := adds_prepare h t (pathFor workDir)
  have hmade := hfree.adds hadds
  have hne : ∀ lock d' name', Owns h t lock d' name' → name' :: d' ≠ name :: d := by
    intro lock d' name' ho heq
    have hthere := hadds.within _ _ ho.file
    rw [heq] at hthere
    exact ho.ne_unowned hadds htakes.before (htakes.unowned _ hthere).2 heq
  refine ⟨⟨fun loc target hnode => ?_, fun loc node hnode hroad => ?_,
    fun lock _ d' name' ho => ?_⟩, hne⟩
  · by_cases heq : loc = name :: d
    · subst heq
      rw [htakes.file] at hnode
      cases hnode
    · rw [htakes.elsewhere loc heq] at hnode
      exact hmade loc target hnode
  · have hthere := hadds.within _ _ hnode
    have heq : loc ≠ name :: d := by
      rintro rfl
      rw [hmade.not_isRoad hthere (htakes.unowned _ hthere).1] at hroad
      cases hroad
    rw [htakes.elsewhere loc heq, hthere]
  · rw [htakes.elsewhere _ (hne lock d' name' ho), ho.file, hadds.within _ _ ho.file]

theorem spares_dropped {p : Process} {index : Nat} (hsound : Sound h p)
    (hlock : p.live[index]? = some lock) (ho : Owns h p.tree lock d name) :
    lock.release h p.tree = p.tree.erase (name :: d) ∧
      Spares h p.tree (p.tree.erase (name :: d)) (p.live.eraseIdx index) := by
  refine ⟨release_of_file ho.names ho.slash ho.file,
    hsound.linkFree.within (Tree.within_erase _ _),
    Tree.keeps_erase fun old hold => hsound.linkFree.not_isRoad hold ?_,
    fun other hmem d' name' ho' => Tree.node?_erase_ne _ fun heq => ?_⟩
  · rw [ho.file] at hold
    cases hold
    rfl
  · -- another lock with that file would stand at another index
    obtain ⟨rfl, rfl⟩ := List.cons.inj heq
    obtain ⟨i, hi, hother⟩ := List.mem_eraseIdx_iff_getElem?.mp hmem
    have hindex := List.pairwise_iff_getElem.mp hsound.apart
    obtain ⟨hlt, rfl⟩ := List.getElem?_eq_some_iff.mp hlock
    obtain ⟨hlt', rfl⟩ := List.getElem?_eq_some_iff.mp hother
    rcases Nat.lt_or_gt_of_ne hi with hbelow | habove
    · exact hindex i index hlt' hlt hbelow ⟨_, _, ho', ho⟩
    · exact hindex index i hlt hlt' habove ⟨_, _, ho, ho'⟩

theorem sound_acquired {p : Process} (hsound : Sound h p)
    (hacquire : Lock.acquire h workDir p.tree = (t', .ok lock)) : Sound h ⟨t', lock :: p.live⟩ := by
  obtain ⟨d, name, htakes⟩ := acquire_eq_ok hacquire
  obtain ⟨hspares, hne⟩ := spares_taken p.live hsound.linkFree htakes
  have hkept := hspares.sound hsound (List.Sublist.refl _)
  have hpath := path_of_acquire hacquire
  have hown : Owns h t' lock d name :=
    ⟨hpath ▸ htakes.names, hpath ▸ slash_pathFor workDir, htakes.file⟩
  refine ⟨hkept.linkFree, fun other hmem => ?_,
    List.pairwise_cons.mpr ⟨fun other hmem => ?_, hkept.apart⟩⟩
  · rcases List.mem_cons.mp hmem with rfl | hmem
    · exact ⟨d, name, hown⟩
    · exact hkept.owns other hmem
  · rintro ⟨d', name', ho, ho'⟩
    obtain ⟨rfl, rfl⟩ := hown.unique ho
    obtain ⟨d'', name'', hold⟩ := hsound.owns other hmem
    obtain ⟨rfl, rfl⟩ := (hspares.owns hmem hold).unique ho'
    exact hne other _ _ hold rfl

/-- **One act** keeps the state sound. -/
theorem sound_act {p : Process} (hsound : Sound h p) (a : Act) : Sound h (p.act h a) := by
  cases a with
  | acquire workDir =>
    cases hacquire : Lock.acquire h workDir p.tree with
    | mk t' r =>
      cases r with
      | ok lock =>
        rw [Process.act_acquired hacquire]
        exact sound_acquired hsound hacquire
      | error cause =>
        rw [Process.act_refused hacquire]
        exact (spares_refused p.live hsound.linkFree hacquire).sound hsound (List.Sublist.refl _)
  | drop index =>
    cases hlock : p.live[index]? with
    | none =>
      rw [Process.act_missing hlock]
      exact hsound
    | some lock =>
      obtain ⟨d, name, ho⟩ := hsound.owns lock (List.mem_of_getElem? hlock)
      obtain ⟨hrelease, hspares⟩ := spares_dropped hsound hlock ho
      rw [Process.act_dropped hlock, hrelease]
      exact hspares.sound hsound (List.eraseIdx_sublist _ _)

theorem sound_run {p : Process} (hsound : Sound h p) (acts : List Act) :
    Sound h (p.run h acts) := by
  induction acts generalizing p with
  | nil => exact hsound
  | cons a acts ih => exact ih (sound_act hsound a)

/-! ## Ownership -/

/-- What holds of the locks of a process at any moment, and of what it does next. -/
structure OwnsSolely (h : Host) (p : Process) : Prop where
  /-- Every lock has its file, with the number of the process in it. -/
  owns : ∀ lock ∈ p.live, ∃ d name, Owns h p.tree lock d name
  /-- No two of them have the same. -/
  apart : ∀ (i j : Nat) (lock other : Lock), i ≠ j → p.live[i]? = some lock →
    p.live[j]? = some other →
    ¬ Shares h p.tree lock other
  /-- A path that leads to the file of a lock, however it is written, is refused, and all that
      changes are directories on the way to it. -/
  refuses : ∀ workDir made d name, ∀ lock ∈ p.live, Owns h p.tree lock d name →
    prepare h p.tree (pathFor workDir) = (made, .ok ()) →
    made.Names h.cwd (pathFor workDir) d name →
    Lock.acquire h workDir p.tree = (made, .error (.workspaceLocked workDir h.pid)) ∧
      Adds p.tree made
  /-- A lock that is given back leaves no file. -/
  drops : ∀ (i : Nat) (lock : Lock) (d : Loc) (name : String), p.live[i]? = some lock →
    Owns h p.tree lock d name →
    (p.act h (.drop i)).tree.node? (name :: d) = none

theorem Sound.ownsSolely {p : Process} (hsound : Sound h p) : OwnsSolely h p := by
  refine ⟨hsound.owns, fun i j lock other hij hi hj => ?_,
    fun workDir made d name lock hmem ho hprepare hnames => ?_, fun i lock d name hlock ho => ?_⟩
  · have hindex := List.pairwise_iff_getElem.mp hsound.apart
    obtain ⟨hlt, rfl⟩ := List.getElem?_eq_some_iff.mp hi
    obtain ⟨hlt', rfl⟩ := List.getElem?_eq_some_iff.mp hj
    rcases Nat.lt_or_gt_of_ne hij with hbelow | habove
    · exact hindex i j hlt hlt' hbelow
    · exact fun ⟨d, name, ho, ho'⟩ => hindex j i hlt' hlt habove ⟨d, name, ho', ho⟩
  · have hadds := adds_prepare h p.tree (pathFor workDir)
    rw [hprepare] at hadds
    exact ⟨acquire_of_owned hprepare hnames (hadds.within _ _ ho.file) (isAlive_self h), hadds⟩
  · rw [Process.act_dropped hlock, (spares_dropped hsound hlock ho).1]
    exact Tree.node?_erase_self _ (List.cons_ne_nil name d)

/-- **A process owns its locks solely**, after any acts from a tree without links. -/
theorem process_owns_solely (h : Host) (t : Tree) (hfree : t.LinkFree) (acts : List Act) :
    OwnsSolely h (Process.run h ⟨t, []⟩ acts) :=
  (sound_run (sound_start hfree) acts).ownsSolely

/-- A stale lock file, and another that is one of two names of a file. -/
def crowdedTree : Tree :=
  ⟨[(["w.lock"], .file ⟨"99".toUTF8, false⟩), (["v.lock"], .shared 1), (["u"], .shared 1)],
    [(1, ⟨"7".toUTF8, false⟩)]⟩

/-- A process that takes over the stale lock, tries to take it again by another path, makes a
    directory on the way to a second one, and gives the first one back. -/
def busyActs : List Act := [.acquire "w", .acquire "a/../w/", .acquire "b/c", .drop 1]

theorem busyActs_own_solely : crowdedTree.LinkFree ∧
    (Process.run ⟨[], 7, fun _ => false⟩ ⟨crowdedTree, []⟩ busyActs).live = [⟨"b/c.lock"⟩] ∧
    (Process.run ⟨[], 7, fun _ => false⟩ ⟨crowdedTree, []⟩ busyActs).tree.isFolderAt ["a"] = true ∧
    OwnsSolely ⟨[], 7, fun _ => false⟩
      (Process.run ⟨[], 7, fun _ => false⟩ ⟨crowdedTree, []⟩ busyActs) := by
  have hfree : crowdedTree.LinkFree := by
    intro loc target hnode
    cases loc with
    | nil => cases hnode
    | cons name up =>
      obtain ⟨before, after, hentries, -⟩ := List.lookup_eq_some_iff.mp
        (show crowdedTree.entries.lookup (name :: up) = some (.link target) from hnode)
      have hmem : (name :: up, Node.link target) ∈ crowdedTree.entries := by rw [hentries]; simp
      simp [crowdedTree] at hmem
  exact ⟨hfree, by decide +kernel, by decide +kernel, process_owns_solely _ _ hfree _⟩

end Concolic.Lock
