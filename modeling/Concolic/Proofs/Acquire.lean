import Concolic.Proofs.Lock
import Concolic.Proofs.Tree.Frame

/-
  Taking a lock, in terms of the tree: which entry it takes and what it leaves as it is.  The
  directories that the lock file goes into are made in any case, so both are told from the tree in
  which they are there.
-/

namespace Concolic

namespace Tree

variable {t : Tree} {d e : Loc}

theorem Leads.isFolderAt_start {ss : List String} {n : Nat} (h : Leads t d ss e n)
    (he : t.isFolderAt e = true) : t.isFolderAt d = true := by
  cases h with
  | nil => exact he
  | stay hd => exact hd
  | up hd => exact hd
  | into hd => exact hd
  | through hd => exact hd

end Tree

namespace Lock

open Concolic.Tree (Adds Keeps Names)

variable {h : Host} {t t' held kept : Tree} {path workDir name : String} {d : Loc} {lock : Lock}

/-! ## The directory of the lock file -/

theorem slash_pathFor (workDir : String) : (Path.route (pathFor workDir)).slash = false := by
  obtain ⟨dir, stem, hpath, hplain⟩ := pathFor_eq_join workDir
  rw [hpath, Path.route_join dir hplain]

theorem adds_prepare (h : Host) (t : Tree) (path : String) : Adds t (prepare h t path).1 := by
  unfold prepare
  split
  · exact .refl t
  · rename_i dir _
    split
    · exact .refl t
    · have hadds := Tree.adds_makeFolders t h.cwd dir
      split <;> rename_i heq <;> rw [heq] at hadds <;> exact hadds

section Named

variable (hnames : Names t h.cwd path d name)
include hnames

theorem prepare_of_names : prepare h t path = (t, .ok ()) := by
  unfold prepare
  split
  · rfl
  · rename_i dir hparent
    split
    · rfl
    · rename_i hne
      obtain ⟨habs, rest, hsteps, hrest⟩ := Path.route_parent hparent
      obtain ⟨init, hinit, n, hn, hlead⟩ := hnames.way
      -- the steps of the parent are a beginning of those before the name
      obtain ⟨mid, last, rfl⟩ : ∃ mid last, rest = mid ++ [last] := by
        rcases List.eq_nil_or_concat rest with rfl | ⟨mid, last, rfl⟩
        · rcases hrest with ⟨step, hstep, -⟩ | ⟨hempty, -⟩
          · cases hstep
          · exact absurd hempty hne
        · exact ⟨mid, last, List.concat_eq_append⟩
      rw [hsteps, ← List.append_assoc] at hinit
      obtain ⟨rfl, -⟩ := List.append_inj' hinit rfl
      obtain ⟨e, n₁, n₂, h₁, h₂, hsum⟩ := hlead.split
      have hstart : Tree.start h.cwd dir = Tree.start h.cwd path := by
        rw [Tree.start, Tree.start, habs]
      have hreach : t.Reaches h.cwd dir e :=
        ⟨Tree.checkText_of_prefix hnames.text (Path.isPrefix_of_parent? hparent) hne,
          h₂.isFolderAt_start hnames.folder, n₁, by omega, hstart ▸ h₁⟩
      rw [hreach.makeFolders]

/-! ## The lock file -/

theorem create_of_free
    (hslash : (Path.route path).slash = false) (hnone : t.node? (name :: d) = none)
    (hd : t.node? d ≠ some .sealed) :
    create h t path = ((t.put (name :: d) (.file Blob.empty)).put (name :: d)
      (.file ⟨(ownerText h.pid).toUTF8, false⟩), .ok ()) := by
  rw [create, hnames.createNew hslash hnone hd]
  dsimp only
  rw [Tree.extend_put_empty t (List.cons_ne_nil name d)]

theorem create_of_taken {node : Node}
    (hnode : t.node? (name :: d) = some node) : create h t path = (t, .error .alreadyExists) := by
  refine create_of_no_newLoc ?_
  rw [Tree.newLoc, hnames.resolve false (fun hf => by cases hf)]
  simp only [bind, Except.bind, hnode, Option.isSome_some, if_true]

/-- The bytes of a lock file that a process owns. -/
def ownerBlob (pid : UInt32) : Blob := ⟨(ownerText pid).toUTF8, false⟩

theorem readOwner_of_file {b : Blob} {pid : UInt32}
    (hslash : (Path.route path).slash = false) (hnode : t.node? (name :: d) = some (.file b))
    (hbytes : b.bytes = (ownerText pid).toUTF8) : readOwner h t path = some pid := by
  have hfind := hnames.lookup_some hslash hnode (by simp) true
  have hread : t.readAt (name :: d) = .ok b := by
    rw [Tree.readAt, Tree.blob?, hnode]
    rfl
  have htext := Tree.readText_of_readAt hfind hread
  rw [hbytes, fromUTF8?_toUTF8] at htext
  rw [readOwner, htext]
  exact ownerOf?_ownerText pid

theorem liveOwner_of_file {pid : UInt32} (hslash : (Path.route path).slash = false)
    (hnode : t.node? (name :: d) = some (.file (ownerBlob pid))) (halive : h.isAlive pid = true) :
    liveOwner h t path = some pid := by
  rw [liveOwner, readOwner_of_file hnames hslash hnode rfl]
  exact if_pos halive

end Named

theorem isAlive_self (h : Host) : h.isAlive h.pid = true := by simp [Host.isAlive]

/-! ## Outcomes that are known beforehand -/

/-- **A free name is taken.** -/
theorem acquire_of_free (hnames : Names t h.cwd (pathFor workDir) d name)
    (hnone : t.node? (name :: d) = none) (hd : t.node? d ≠ some .sealed) :
    ∃ held, acquire h workDir t = (held, .ok ⟨pathFor workDir⟩) :=
  ⟨_, acquire_of_create (prepare_of_names hnames)
    (create_of_free hnames (slash_pathFor workDir) hnone hd)⟩

/-- **A lock with a live owner is respected**, and nothing is changed. -/
theorem acquire_of_owned {pid : UInt32} (hprepare : prepare h t (pathFor workDir) = (t', .ok ()))
    (hnames : Names t' h.cwd (pathFor workDir) d name)
    (hnode : t'.node? (name :: d) = some (.file (ownerBlob pid))) (halive : h.isAlive pid = true) :
    acquire h workDir t = (t', .error (.workspaceLocked workDir pid)) := by
  have hkind : ¬ Fault.alreadyExists.kind ≠ .alreadyExists := by decide
  rw [acquire_of_prepared hprepare, seize, create_of_taken hnames hnode]
  simp only [if_neg hkind, liveOwner_of_file hnames (slash_pathFor workDir) hnode halive]

theorem release_of_file {b : Blob} (hnames : Names t h.cwd lock.path d name)
    (hslash : (Path.route lock.path).slash = false) (hnode : t.node? (name :: d) = some (.file b)) :
    lock.release h t = t.erase (name :: d) := by
  rw [release, discard, hnames.removeFile hslash hnode rfl]

/-! ## What taking a lock does -/

/-- The lock file that a successful `acquire` takes is the entry `name` in `d`.  It was free, or not
    a directory and without a live owner; nothing else changes once its directory is there. -/
structure Takes (h : Host) (workDir : String) (t held : Tree) (d : Loc) (name : String) : Prop where
  prepares : (prepare h t (pathFor workDir)).2 = .ok ()
  before : Names (prepare h t (pathFor workDir)).1 h.cwd (pathFor workDir) d name
  unowned : ∀ node, (prepare h t (pathFor workDir)).1.node? (name :: d) = some node →
    node.isFolder = false ∧ liveOwner h (prepare h t (pathFor workDir)).1 (pathFor workDir) = none
  names : Names held h.cwd (pathFor workDir) d name
  file : held.node? (name :: d) = some (.file (ownerBlob h.pid))
  unsealed : held.node? d ≠ some .sealed
  elsewhere : ∀ loc, loc ≠ name :: d →
    held.node? loc = (prepare h t (pathFor workDir)).1.node? loc
  pool : held.pool = t.pool

theorem created (hcreate : create h t path = (t', .ok ())) :
    ∃ d name, Names t h.cwd path d name ∧ t.node? (name :: d) = none ∧
      t'.node? (name :: d) = some (.file (ownerBlob h.pid)) ∧ t'.node? d ≠ some .sealed ∧
      Names t' h.cwd path d name ∧ (∀ loc, loc ≠ name :: d → t'.node? loc = t.node? loc) ∧
      t'.pool = t.pool := by
  obtain ⟨d, name, hnames, hnone, hseal, rfl⟩ := create_eq_ok hcreate
  have helse : ∀ loc, loc ≠ name :: d →
      ((t.put (name :: d) (.file Blob.empty)).put (name :: d)
        (.file ⟨(ownerText h.pid).toUTF8, false⟩)).node? loc = t.node? loc := fun loc hloc => by
    rw [Tree.node?_put_ne _ hloc, Tree.node?_put_ne t hloc]
  have hdir : d ≠ name :: d := (List.cons_ne_self _ _).symm
  have hkeeps : Keeps t ((t.put (name :: d) (.file Blob.empty)).put (name :: d)
      (.file ⟨(ownerText h.pid).toUTF8, false⟩)) := by
    intro loc node hnode _
    rw [helse loc (by rintro rfl; rw [hnone] at hnode; cases hnode), hnode]
  exact ⟨d, name, hnames, hnone, Tree.node?_put_self _ (by simp) _, by rwa [helse d hdir],
    hnames.mono hkeeps, helse, rfl⟩

theorem acquire_eq_ok (hacquire : acquire h workDir t = (held, .ok lock)) :
    ∃ d name, Takes h workDir t held d name := by
  have hpool := (adds_prepare h t (pathFor workDir)).pool
  obtain ⟨made, hprepare, hseizes⟩ := seizes_of_acquire hacquire
  rw [hprepare] at hpool
  cases hseizes with
  | free hcreate =>
    obtain ⟨d, name, hnames, hnone, hfile, hseal, hnames', helse, hpool'⟩ := created hcreate
    refine ⟨d, name, by rw [hprepare], by rwa [hprepare], fun node hnode => ?_, hnames', hfile,
      hseal, fun loc hloc => by rw [hprepare, helse loc hloc], hpool'.trans hpool⟩
    rw [hprepare, hnone] at hnode
    cases hnode
  | stale hcreate hstale hagain =>
    obtain ⟨d, name, hnames, hnone, hfile, hseal, hnames', helse, hpool'⟩ := created hagain
    rcases discard_cases h made (pathFor workDir) with
      hsame | ⟨d', name', old, hnamed, hold, hfolder, herase⟩
    · -- what could not be removed cannot be created either
      rw [hsame, hcreate] at hagain
      cases hagain
    · have hbefore : Names made h.cwd (pathFor workDir) d name :=
        hnames.mono (by rw [herase]; exact (Tree.within_erase made _).keeps)
      obtain ⟨rfl, rfl⟩ := hbefore.unique hnamed
      refine ⟨d, name, by rw [hprepare], by rwa [hprepare], fun node hnode => ?_, hnames', hfile,
        hseal, fun loc hloc => ?_, ?_⟩
      · rw [hprepare] at hnode ⊢
        rw [hold] at hnode
        cases hnode
        exact ⟨hfolder, hstale⟩
      · rw [hprepare, helse loc hloc, herase, Tree.node?_erase_ne made hloc]
      · rw [hpool', herase]
        exact hpool

/-- **What a lock that is not taken leaves**: all that was there, unless the last attempt has
    removed what has no live owner. -/
theorem refused_cases {cause : Failure} (hacquire : acquire h workDir t = (kept, .error cause)) :
    kept = (prepare h t (pathFor workDir)).1 ∨
      (∃ f, cause = .io f) ∧ ∃ made d name node, prepare h t (pathFor workDir) = (made, .ok ()) ∧
        Names made h.cwd (pathFor workDir) d name ∧ made.node? (name :: d) = some node ∧
        node.isFolder = false ∧ liveOwner h made (pathFor workDir) = none ∧
        kept = made.erase (name :: d) ∧ ∃ f, (create h kept (pathFor workDir)).2 = .error f := by
  rcases hprepare : prepare h t (pathFor workDir) with ⟨made, r⟩
  cases r with
  | error e =>
    rw [acquire_of_unprepared hprepare] at hacquire
    cases hacquire
    exact .inl rfl
  | ok =>
    rw [acquire_of_prepared hprepare] at hacquire
    cases seizes hacquire with
    | blocked _ _ => exact .inl rfl
    | owned _ _ _ => exact .inl rfl
    | lost hstale hagain =>
      rcases discard_cases h made (pathFor workDir) with
        hsame | ⟨d, name, node, hnames, hnode, hfolder, herase⟩
      · exact .inl hsame
      · exact .inr ⟨⟨_, rfl⟩, made, d, name, node, rfl, hnames, hnode, hfolder, hstale, herase, _,
          congrArg Prod.snd hagain⟩

end Lock

end Concolic
