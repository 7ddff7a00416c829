import Concolic.Proofs.Archive
import Concolic.Proofs.Survival
import Concolic.Proofs.Upkeep

/-
  A lock is held as long as the run.

  The lock file is there at every event and every invocation, as long as its path does not go
  through the working directory (`Apart`).  Taking a lock may remove what is in its way and has no
  live owner, but it never loses a file: what is removed and not replaced is a link or a device
  (`Leaves`).
-/

namespace Concolic

namespace Lock

open Concolic.Tree (Keeps Names)

variable {h : Host} {t t' kept : Tree} {lock : Lock} {workDir stem name : String} {d place : Loc}

/-! ## Holding a lock -/

/-- The lock has its file, in a directory in which files can be made. -/
structure Holds (h : Host) (t : Tree) (lock : Lock) (d : Loc) (name : String) : Prop where
  owns : Owns h t lock d name
  dir : t.node? d = some .folder

theorem Holds.mono (hh : Holds h t lock d name) (hkeeps : Keeps t t')
    (hsame : t'.node? (name :: d) = t.node? (name :: d)) : Holds h t' lock d name :=
  ⟨hh.owns.mono hkeeps hsame, hkeeps _ _ hh.dir rfl⟩

theorem Takes.holds (htakes : Takes h workDir t t' d name) (hpath : lock.path = pathFor workDir) :
    Holds h t' lock d name := by
  refine ⟨⟨hpath ▸ htakes.names, hpath ▸ slash_pathFor workDir, htakes.file⟩, ?_⟩
  obtain ⟨node, hnode, hfolder⟩ := Tree.isFolderAt_iff.mp htakes.names.folder
  cases node with
  | folder => exact hnode
  | «sealed» => exact absurd hnode htakes.unsealed
  | _ => cases hfolder

/-- **A lock that is given back is free**: its file is gone, and the next one who
    wants it gets it. -/
theorem Holds.release (hh : Holds h t lock d name) (hpath : lock.path = pathFor workDir) :
    (lock.release h t).node? (name :: d) = none ∧
      ∃ held, acquire h workDir (lock.release h t) = (held, .ok lock) := by
  have hne : d ≠ name :: d := (List.cons_ne_self _ _).symm
  have hkeeps : Keeps t (t.erase (name :: d)) := Tree.keeps_erase fun old hold => by
    rw [hh.owns.file] at hold
    cases hold
    rfl
  have hnone := Tree.node?_erase_self t (List.cons_ne_nil name d)
  have hdir : (t.erase (name :: d)).node? d ≠ some .sealed := by
    rw [Tree.node?_erase_ne t hne, hh.dir]
    simp
  rw [release_of_file hh.owns.names hh.owns.slash hh.owns.file]
  obtain ⟨held, hacquire⟩ := acquire_of_free (hpath ▸ hh.owns.names.mono hkeeps) hnone hdir
  refine ⟨hnone, held, ?_⟩
  rw [hacquire, ← hpath]

theorem Apart.outside_dir (ha : Apart h workDir t place d name) : ¬ place <:+ d :=
  fun hin => ha.outside (hin.trans (List.suffix_cons name d))

theorem Apart.mono (ha : Apart h workDir t place d name) (hsame : Tree.SameOutside place t t') :
    Apart h workDir t' place d name :=
  ⟨ha.names.mono hsame.keeps_without_both, ha.outside⟩

/-- A lock that is apart from the working directory is held in every tree that has the same ways
    outside of it. -/
theorem Holds.elsewhere (hh : Holds h t lock d name) (hpath : lock.path = pathFor workDir)
    (ha : Apart h workDir t place d name) (hkeeps : Keeps (t.without place) t')
    (hfile : t'.node? (name :: d) = some (.file (ownerBlob h.pid))) : Holds h t' lock d name := by
  refine ⟨⟨hpath ▸ ha.names.mono hkeeps, hh.owns.slash, hfile⟩, hkeeps _ _ ?_ rfl⟩
  rw [Tree.node?_without t ha.outside_dir, hh.dir]

/-! ## A lock that is not taken -/

/-- All that was in `t` is in `kept`, except perhaps a link or a device where the path of the lock
    leads. -/
structure Leaves (h : Host) (workDir : String) (t kept : Tree) : Prop where
  entries : ∀ loc node, t.node? loc = some node → kept.node? loc = some node ∨
    (((∃ target, node = .link target) ∨ ∃ device, node = .device device) ∧
      ∃ d name, loc = name :: d ∧
        Names (prepare h t (pathFor workDir)).1 h.cwd (pathFor workDir) d name)
  pool : kept.pool = t.pool

/-- What a last attempt to take the lock removed was no file, or the attempt would
    have succeeded. -/
theorem not_file_of_failed {made : Tree} {path : String} {node : Node} {f : Fault}
    (hform : made.WellFormed) (hnames : Names made h.cwd path d name)
    (hslash : (Path.route path).slash = false) (hnode : made.node? (name :: d) = some node)
    (hfolder : node.isFolder = false) (hcreate : (create h (made.erase (name :: d)) path).2 =
      .error f) :
    (∃ target, node = .link target) ∨ ∃ device, node = .device device := by
  refine Classical.byContradiction fun hfile => ?_
  rw [not_or] at hfile
  have hroad : node.isRoad = false := by
    cases node with
    | link target => exact absurd ⟨target, rfl⟩ hfile.1
    | folder => cases hfolder
    | «sealed» => cases hfolder
    | _ => rfl
  have hkeeps : Keeps made (made.erase (name :: d)) := Tree.keeps_erase fun old hold => by
    rw [hnode] at hold
    cases hold
    exact hroad
  have hne : d ≠ name :: d := (List.cons_ne_self _ _).symm
  have hdir : (made.erase (name :: d)).node? d ≠ some .sealed := by
    rw [Tree.node?_erase_ne made hne]
    intro hsealed
    rcases hform.guarded hsealed hnode with rfl | hdevice
    · cases hfolder
    · exact hfile.2 hdevice
  rw [create_of_free (hnames.mono hkeeps) hslash
    (Tree.node?_erase_self made (List.cons_ne_nil name d))
    hdir] at hcreate
  cases hcreate

/-- **A lock that is not taken** leaves all files and directories as they were. -/
theorem leaves_of_refused {cause : Failure} (hform : t.WellFormed)
    (hacquire : acquire h workDir t = (kept, .error cause)) : Leaves h workDir t kept := by
  have hadds := adds_prepare h t (pathFor workDir)
  rcases refused_cases hacquire with hkept |
    ⟨-, made, d, name, node, hprepare, hnames, hnode, hfolder, -, hkept, f, hcreate⟩
  · rw [hkept]
    exact ⟨fun loc node hnode => .inl (hadds.within loc node hnode), hadds.pool⟩
  · rw [hkept] at hcreate ⊢
    have hmade := wellFormed_prepare hform h (pathFor workDir)
    rw [hprepare] at hadds hmade
    refine ⟨fun loc old hold => ?_, hadds.pool⟩
    by_cases heq : loc = name :: d
    · subst heq
      have hthere := hadds.within _ _ hold
      rw [hnode] at hthere
      cases hthere
      exact .inr ⟨not_file_of_failed hmade hnames (slash_pathFor workDir) hnode hfolder hcreate,
        d, name, rfl, by rwa [hprepare]⟩
    · exact .inl (by rw [Tree.node?_erase_ne made heq]; exact hadds.within _ _ hold)

/-- Nothing is removed, and only directories are added, where the lock has a live owner. -/
theorem adds_of_locked {dir : String} {pid : UInt32}
    (hacquire : acquire h workDir t = (kept, .error (.workspaceLocked dir pid))) :
    Tree.Adds t kept := by
  rcases refused_cases hacquire with hkept | ⟨⟨f, hf⟩, -⟩
  · rw [hkept]
    exact adds_prepare h t (pathFor workDir)
  · cases hf

end Lock

namespace Run

open Concolic.Tree (ChangesInside Keeps SameOutside)
open Concolic.Lock (Apart Holds Leaves Owns)

variable {σ : Type}

/-! ## The observer and the working directory -/

/-- An observer that relies on `P` keeps the directories and links there are, and does not touch
    what is at `loc`. -/
structure Aloof (s : Setup σ) (loc : Loc) (P : Tree → σ → Prop) : Prop where
  relies : ∀ e w t, P t w → P (s.observer.notify e w t).2 (s.observer.notify e w t).1
  wellFormed : ∀ e w t, P t w → t.WellFormed → (s.observer.notify e w t).2.WellFormed
  keeps : ∀ e w t, P t w → Keeps t (s.observer.notify e w t).2
  spares : ∀ e w t, P t w → (s.observer.notify e w t).2.node? loc = t.node? loc

/-- What is in the working directory at `place` is the executor's alone, and what the observer
    relies on is outside. -/
structure Separate (s : Setup σ) (P : Tree → σ → Prop) (place : Loc) : Prop where
  executor : StaysInside s place
  relies : ∀ w t t', SameOutside place t t' → P t w → P t' w
  observer : ∀ e w t loc, P t w → place <:+ loc →
    (s.observer.notify e w t).2.node? loc = t.node? loc

/-- The file of the lock is there at every moment of the run, and gone when the run has returned, so
    that the next one gets the lock. -/
structure HeldThroughout (s : Setup σ) (ended : Ended σ) (lock : Lock) (d : Loc) (name : String) :
    Prop where
  moments : ∀ m ∈ ended.trace, Owns s.host m.tree lock d name
  gone : ended.tree.node? (name :: d) = none
  free : ∃ held, Lock.acquire s.host s.session.workDir ended.tree = (held, .ok lock)

section Holding

variable {s : Setup σ} {P : Tree → σ → Prop} {lock : Lock} {d place : Loc} {name stem : String}
  {t seen fresh : Tree} {w : σ}

theorem heldThroughout_endedBy (haloof : Aloof s (name :: d) P)
    (hpath : lock.path = Lock.pathFor s.session.workDir) (hheld : Holds s.host t lock d name)
    (hrelies : P t w) (result : Except Failure Report) {past : List Moment}
    (hpast : ∀ m ∈ past, Owns s.host m.tree lock d name) (e : Event) :
    HeldThroughout s (endedBy s lock result past e t w) lock d name := by
  have hlast := hheld.mono (haloof.keeps e w t hrelies) (haloof.spares e w t hrelies)
  obtain ⟨hgone, hfree⟩ := hlast.release hpath
  refine ⟨fun m hm => ?_, hgone, hfree⟩
  rcases List.mem_append.mp hm with hm | hm
  · exact hpast m hm
  · rw [List.mem_singleton.mp hm]
    exact hlast.owns

theorem owns_prologue (hheld : Holds s.host seen lock d name) :
    ∀ m ∈ prologue s seen, Owns s.host m.tree lock d name := by
  intro m hm
  rw [List.mem_singleton.mp hm]
  exact hheld.owns

/-- What the loop begins with: a directory that the path leads to, with nothing in it. -/
theorem minded_of_reset {x : Stand σ} (hform : seen.WellFormed)
    (hstem : Path.fileName? s.session.workDir = some stem)
    (hplace : seen.place? s.host.cwd s.session.workDir = some place)
    (ha : Apart s.host s.session.workDir seen place d name)
    (hreset : s.workspace.reset s.host.cwd seen = (x.tree, .ok ())) : Minded s x place x.tree := by
  have hfresh := Workspace.wellFormed_reset hform s.workspace s.host.cwd
  rw [hreset] at hfresh
  obtain ⟨q, hup⟩ := ha.beside hstem
  obtain ⟨hreach, hbare⟩ : x.tree.Reaches s.host.cwd s.workspace.root place ∧ x.tree.Bare place :=
    Workspace.reset_at_place hform hstem hplace hup hreset
  have hplain := hfresh.plain_of_bare hreach.folder hbare
  exact ⟨hreach, hplain, Tree.guarded_self hplain⟩

/-- What a run has got to when its working directory is made anew: it ends with one more event, or
    its loop begins at `x`, with the path of the directory leading to `place`.  Either way it holds
    the lock, and `Q` is as it was. -/
inductive Reset (s : Setup σ) (asked : Bool) (w : σ) (t : Tree) (lock : Lock)
    (d : Loc) (name : String)
    (Q : Tree → σ → Prop) (seen : Tree) (w' : σ) : Prop where
  | fails (fresh : Tree) (cause : Failure) :
      s.workspace.reset s.host.cwd seen = (fresh, .error cause) →
      run s asked w t = endedBy s lock (.error cause) (prologue s seen) (.aborted 0 cause.message)
        fresh w' →
      Holds s.host fresh lock d name → Q fresh w' → Reset s asked w t lock d name Q seen w'
  | succeeds (x : Stand σ) (place : Loc) :
      seen.place? s.host.cwd s.session.workDir = some place → Begins s asked w t lock seen x →
      Minded s x place x.tree → Apart s.host s.session.workDir x.tree place d name →
      Holds s.host x.tree lock d name → Q x.tree x.watch → Reset s asked w t lock d name Q seen w'

/-- **The reset of a run** keeps the lock and all that does not depend on what is in the working
    directory. -/
theorem run_resets {held : Tree} {w' : σ} {Q : Tree → σ → Prop}
    (hacquire : Lock.acquire s.host s.session.workDir t = (held, .ok lock))
    (hstart : s.observer.notify (sessionEvent s) w held = (w', seen))
    (hstem : Path.fileName? s.session.workDir = some stem) (hform : seen.WellFormed)
    (hheld : Holds s.host seen lock d name)
    (hapart : ∀ place, seen.place? s.host.cwd s.session.workDir = some place →
      Apart s.host s.session.workDir seen place d name)
    (hframe : ∀ place, seen.place? s.host.cwd s.session.workDir = some place →
      ∀ fresh, SameOutside place seen fresh → Q seen w' → Q fresh w')
    (hQ : Q seen w') (asked : Bool) : Reset s asked w t lock d name Q seen w' := by
  have hpath := Lock.path_of_acquire hacquire
  cases hreset : s.workspace.reset s.host.cwd seen with
  | mk fresh r =>
    -- a reset that fails ends the run
    have hends : ∀ cause, r = .error cause → Holds s.host fresh lock d name → Q fresh w' →
        Reset s asked w t lock d name Q seen w' := by
      rintro cause rfl hfresh hQ'
      have hseen : (s.observer.notify (sessionEvent s) w held).2 = seen := congrArg Prod.snd hstart
      refine .fails fresh cause hreset ?_ hfresh hQ'
      rw [run_unreset_eq asked hacquire (hseen ▸ hreset), hstart]
    rw [Setup.workspace] at hreset
    cases hplace : seen.place? s.host.cwd s.session.workDir with
    | none =>
      obtain ⟨cause, hfails⟩ := hheld.owns.reset_unplaced hpath hstem hplace
      rw [hfails] at hreset
      obtain ⟨rfl, rfl⟩ := Prod.mk.inj hreset
      exact hends cause rfl hheld hQ
    | some place =>
      have ha := hapart place hplace
      have hsame := ha.sameOutside_reset hform hstem hplace
      rw [hreset] at hsame
      have hfresh : Holds s.host fresh lock d name :=
        hheld.elsewhere hpath ha hsame.keeps_without ((hsame _ ha.outside).trans hheld.owns.file)
      have hQ' := hframe place hplace fresh hsame hQ
      cases r with
      | error cause => exact hends cause rfl hfresh hQ'
      | ok =>
        exact .succeeds ⟨fresh, w', asked⟩ place hplace ⟨⟨held, hacquire, hstart⟩, hreset, rfl⟩
          (minded_of_reset hform hstem hplace ha hreset) (ha.mono hsame) hfresh hQ'

theorem holds_of_minded {x : Stand σ} {u : Tree}
    (hpath : lock.path = Lock.pathFor s.session.workDir) (hheld : Holds s.host x.tree lock d name)
    (ha : Apart s.host s.session.workDir x.tree place d name) (hmind : Minded s x place u)
    (hfile : u.node? (name :: d) = some (.file (Lock.ownerBlob s.host.pid))) :
    Holds s.host u lock d name :=
  hheld.elsewhere hpath ha hmind.guarded.keeps hfile

theorem upkeep_holding {x : Stand σ} (haloof : Aloof s (name :: d) P) (hsep : Separate s P place)
    (hout : ¬ place <:+ name :: d) (hminded : Minded s x place x.tree)
    (hheld : Holds s.host x.tree lock d name) (hrelies : P x.tree x.watch) :
    Upkeep s x place fun t w =>
      t.node? (name :: d) = some (.file (Lock.ownerBlob s.host.pid)) ∧ P t w := by
  refine ⟨hminded, ⟨hheld.owns.file, hrelies⟩, hsep.executor, ?_, ?_⟩
  · rintro t t' w hchange ⟨hfile, hP⟩
    exact ⟨(hchange.outside _ hout).trans hfile, hsep.relies w _ _ hchange.outside hP⟩
  · rintro e w t - hmind ⟨hfile, hP⟩
    exact ⟨hmind.elsewhere (haloof.keeps e w t hP) fun loc hin => hsep.observer e w t loc hP hin,
      (haloof.spares e w t hP).trans hfile, haloof.relies e w t hP⟩

/-- **A run that gets past its reset** holds the lock throughout. -/
theorem heldThroughout_of_begins {asked : Bool} {x : Stand σ} {w₀ : σ}
    (hpath : lock.path = Lock.pathFor s.session.workDir)
    (hbegin : Begins s asked w₀ t lock seen x) (haloof : Aloof s (name :: d) P)
    (hsep : Separate s P place) (hminded : Minded s x place x.tree)
    (hseen : Holds s.host seen lock d name) (hheld : Holds s.host x.tree lock d name)
    (ha : Apart s.host s.session.workDir x.tree place d name) (hrelies : P x.tree x.watch) :
    HeldThroughout s (run s asked w₀ t) lock d name := by
  have hup := upkeep_holding haloof hsep ha.outside hminded hheld hrelies
  have hpast : ∀ n, ∀ m ∈ prologue s seen ++ moments s x n, Owns s.host m.tree lock d name := by
    intro n m hm
    rcases List.mem_append.mp hm with hm | hm
    · exact owns_prologue hseen m hm
    · obtain ⟨hmind, _, hfile, -⟩ := hup.moments hm
      exact (holds_of_minded hpath hheld ha hmind hfile).owns
  have hfinishes := run_finishes hbegin
  generalize run s asked w₀ t = ended at hfinishes
  cases hfinishes with
  | completed n outcome =>
    obtain ⟨hmind, hfile, hP⟩ := hup.stand n
    exact heldThroughout_endedBy haloof hpath
      (holds_of_minded hpath hheld ha hmind hfile) hP _ (hpast n) _
  | stopped n =>
    obtain ⟨hmind, hfile, hP⟩ := hup.stand n
    exact heldThroughout_endedBy haloof hpath
      (holds_of_minded hpath hheld ha hmind hfile) hP _ (hpast n) _
  | failed n cause =>
    obtain ⟨hmind, hfile, hP⟩ := hup.replied n
    refine heldThroughout_endedBy haloof hpath (holds_of_minded hpath hheld ha hmind hfile) hP _
      (fun m hm => ?_) _
    rcases List.mem_append.mp hm with hm | hm
    · exact hpast n m hm
    · obtain ⟨hmind', _, hfile', -⟩ := hup.opening hm
      exact (holds_of_minded hpath hheld ha hmind' hfile').owns

end Holding

/-! ## The run -/

/-- The tree once the observer has learned that the session starts. -/
def startedTree (s : Setup σ) (w : σ) (held : Tree) : Tree :=
  (s.observer.notify (sessionEvent s) w held).2

/-- **The lock is held exactly as long as the run.**  A run that gets it has its file at every event
    and every invocation, and the file is gone when it returns, whichever way that is; a run that
    does not get it does nothing, and leaves all files and directories as they were. -/
theorem run_holds_lock (s : Setup σ) (asked : Bool) (w : σ) (t : Tree) (P : Tree → σ → Prop)
    (hform : t.WellFormed) (hdown : Path.IsDescent s.session.workDir) :
    (∀ held lock, Lock.acquire s.host s.session.workDir t = (held, .ok lock) →
      ∃ d name, Owns s.host held lock d name ∧
        (P held w → Aloof s (name :: d) P →
          (∀ place, (startedTree s w held).place? s.host.cwd s.session.workDir = some place →
            Separate s P place) →
          ((startedTree s w held).LinkFree ∨
            ∀ place, (startedTree s w held).place? s.host.cwd s.session.workDir = some place →
              Apart s.host s.session.workDir (startedTree s w held) place d name) →
          HeldThroughout s (run s asked w t) lock d name)) ∧
    ∀ kept cause, Lock.acquire s.host s.session.workDir t = (kept, .error cause) →
      run s asked w t = ⟨.error cause, kept, w, []⟩ ∧ Leaves s.host s.session.workDir t kept ∧
        ∀ dir pid, cause = .workspaceLocked dir pid → Tree.Adds t kept := by
  constructor
  · intro held lock hacquire
    obtain ⟨d, name, htakes⟩ := Lock.acquire_eq_ok hacquire
    have hpath := Lock.path_of_acquire hacquire
    have hheld := htakes.holds hpath
    refine ⟨d, name, hheld.owns, fun hP haloof hsep hways => ?_⟩
    have hform' := Lock.wellFormed_acquire hform hacquire
    obtain ⟨stem, hstem⟩ := hdown.fileName?
    -- the observer learns that the session starts
    have hseen : Holds s.host (startedTree s w held) lock d name :=
      hheld.mono (haloof.keeps _ w held hP) (haloof.spares _ w held hP)
    have hformed : (startedTree s w held).WellFormed := haloof.wellFormed _ w held hP hform'
    have hP' : P (startedTree s w held) (s.observer.notify (sessionEvent s) w held).1 :=
      haloof.relies _ w held hP
    have hapart : ∀ place, (startedTree s w held).place? s.host.cwd s.session.workDir = some place →
        Apart s.host s.session.workDir (startedTree s w held) place d name := by
      rcases hways with hfree | hapart
      · exact fun place hplace =>
          Lock.apart_of_descent (hpath ▸ hseen.owns.names) hfree hdown hplace
      · exact hapart
    cases run_resets hacquire rfl hstem hformed hseen hapart
      (fun place hplace fresh hsame => (hsep place hplace).relies _ _ _ hsame) hP' asked with
    | fails fresh cause _ hrun hfresh hPfresh =>
      rw [hrun]
      exact heldThroughout_endedBy haloof hpath hfresh hPfresh _ (owns_prologue hseen) _
    | succeeds x place hplace hbegin hminded ha hfresh hPfresh =>
      exact heldThroughout_of_begins hpath hbegin haloof (hsep place hplace) hminded hseen hfresh ha
        hPfresh
  · intro kept cause hacquire
    refine ⟨run_refused asked w hacquire, Lock.leaves_of_refused hform hacquire, ?_⟩
    rintro dir pid rfl
    exact Lock.adds_of_locked hacquire

section Script

variable {d place : Loc} {t : Tree} {workDir : String} {budget : UInt32}
  {script : Nat → List (String × Option ByteArray)}

theorem changesInside_edit (d : Loc) (t : Tree) (change : String × Option ByteArray) :
    ChangesInside d t (edit d t change) := by
  have hin : d <:+ change.1 :: d := List.suffix_cons _ _
  rw [edit]
  split
  · exact Tree.changesInside_put_file hin (List.cons_ne_nil _ _) _
  · exact Tree.changesInside_put_file hin (List.cons_ne_nil _ _) _
  · exact ⟨fun other hout => Tree.node?_erase_ne t (by rintro rfl; exact hout hin),
      fun loc node hnode _ => Tree.within_erase t _ loc node hnode⟩
  · exact .refl d t

theorem changesInside_edits (d : Loc) (changes : List (String × Option ByteArray)) (t : Tree) :
    ChangesInside d t (changes.foldl (edit d) t) := by
  induction changes generalizing t with
  | nil => exact .refl d t
  | cons change changes ih => exact (changesInside_edit d t change).trans (ih _)

theorem edits_eq_self (hd : t.node? d ≠ some .folder) (changes : List (String × Option ByteArray)) :
    changes.foldl (edit d) t = t := by
  induction changes with
  | nil => rfl
  | cons change changes ih =>
    have hfirst : edit d t change = t := by
      rw [edit]
      split
      iterate 3
        · exact absurd ‹_› hd
      · rfl
    rw [List.foldl_cons, hfirst, ih]

theorem staysInside_scriptedSession (place : Loc) :
    StaysInside (scriptedSession workDir budget script) place := by
  intro n t honly
  cases hfind : t.lookup loneHost.cwd true workDir with
  | error f =>
    simp only [scriptedSession, hfind]
    exact .refl place t
  | ok d =>
    rw [tree_invoke_scriptedSession budget script n hfind]
    by_cases hd : t.node? d = some .folder
    · obtain rfl := honly d (Tree.reaches_of_lookup hfind rfl (by rw [Tree.isFolderAt, hd]; rfl))
      exact changesInside_edits d (script n) t
    · rw [edits_eq_self hd]
      exact .refl place t

theorem wellFormed_edit (hform : t.WellFormed) (d : Loc) (change : String × Option ByteArray) :
    (edit d t change).WellFormed := by
  rw [edit]
  split
  · rename_i hd hnode _
    exact hform.put_new (by rw [Tree.isFolderAt, hd]; rfl) (by rw [hd]; simp) hnode _
  · rename_i hd hnode _
    exact hform.put_file hnode _
  · rename_i hd hnode _
    refine hform.erase fun inner => ?_
    cases hinner : t.node? (inner :: change.1 :: d) with
    | none => rfl
    | some node =>
      have hfolder := hform.placed hinner
      rw [Tree.isFolderAt, hnode] at hfolder
      cases hfolder
  · exact hform

theorem keeps_edit (d : Loc) (t : Tree) (change : String × Option ByteArray) :
    Keeps t (edit d t change) := by
  rw [edit]
  split
  · rename_i hnode _
    exact Tree.keeps_put _ fun old hold => by
      rw [hnode] at hold
      cases hold
  · rename_i hnode _
    exact Tree.keeps_put _ fun old hold => by
      rw [hnode] at hold
      cases hold
      rfl
  · rename_i hnode _
    exact Tree.keeps_erase fun old hold => by
      rw [hnode] at hold
      cases hold
      rfl
  · exact .refl t

end Script

/-- A session that writes a log beside its working directory, and whose third invocation hangs. -/
def loggedSession : Setup Unit :=
  { scriptedSession "s/w" 4 mixedScript with
    observer := ⟨fun _ _ t => ((), edit [] t ("log", some "x".toUTF8))⟩
    executor := ⟨"explore", fun n t =>
      { (scriptedSession "s/w" 4 mixedScript).executor.invoke n t with
        exit := if n = 3 then .error (.executorHung (Duration.ofSeconds 5)) else .ok (some 0) }⟩ }

theorem aloof_loggedSession : Aloof loggedSession ["w.lock", "s"] fun _ _ => True :=
  ⟨fun _ _ _ _ => trivial, fun _ _ _ _ hform => wellFormed_edit hform [] _,
    fun _ _ t _ => keeps_edit [] t _, fun _ _ _ _ => node?_edit_ne _ (by decide)⟩

theorem separate_loggedSession : Separate loggedSession (fun _ _ => True) ["w", "s"] := by
  have hscripted : StaysInside (scriptedSession "s/w" 4 mixedScript) ["w", "s"] :=
    staysInside_scriptedSession _
  refine ⟨fun n t honly => hscripted n t honly, fun _ _ _ _ _ => trivial, fun _ _ t loc _ hin => ?_⟩
  refine node?_edit_ne _ ?_
  rintro rfl
  exact absurd hin (by decide)

theorem loggedSession_holds_lock : ∃ held lock d name,
    Lock.acquire loneHost "s/w" Lock.usedTree = (held, .ok lock) ∧
      (run loggedSession false () Lock.usedTree).trace.length = 10 ∧
      HeldThroughout loggedSession (run loggedSession false () Lock.usedTree) lock d name := by
  have hacquire : Lock.acquire loneHost "s/w" Lock.usedTree = _ := Lock.acquire_of_toOption
    (show (Lock.acquire loneHost "s/w" Lock.usedTree).2.toOption = some ⟨"s/w.lock"⟩ by
      decide +kernel)
  obtain ⟨d, name, howns, hholds⟩ := (run_holds_lock loggedSession false () Lock.usedTree
    (fun _ _ => True) Lock.wellFormed_usedTree
      ⟨⟨"w", by decide, by decide⟩, by decide⟩).1 _ _ hacquire
  -- where the lock file and the working directory are
  have hloc : (Lock.acquire loneHost "s/w" Lock.usedTree).1.place? [] "s/w.lock" =
      some ["w.lock", "s"] := by decide +kernel
  have hthere := Tree.place?_of_names howns.names (by intro target; rw [howns.file]; simp)
  obtain ⟨rfl, rfl⟩ := List.cons.inj (Option.some.inj (hthere.symm.trans hloc))
  have hplace : (startedTree loggedSession () (Lock.acquire loneHost "s/w" Lock.usedTree).1).place?
      []
      "s/w" = some ["w", "s"] := by decide +kernel
  -- neither the lock nor the log is a link
  obtain ⟨d, name, htakes⟩ := Lock.acquire_eq_ok hacquire
  have hfree := (Lock.spares_taken [] Lock.linkFree_usedTree htakes).1.linkFree
  have hstarted : (startedTree loggedSession ()
      (Lock.acquire loneHost "s/w" Lock.usedTree).1).LinkFree := fun loc target hnode =>
    hfree loc target ((changesInside_edit [] _ ("log", some "x".toUTF8)).aliases loc _ hnode rfl)
  refine ⟨_, _, _, _, hacquire, by decide +kernel, hholds trivial aloof_loggedSession
    (fun place hplace' => ?_) (.inl hstarted)⟩
  obtain rfl : ["w", "s"] = place := Option.some.inj (hplace.symm.trans hplace')
  exact separate_loggedSession

/-- The directory `w`, and a link to the directory above it that goes through it. -/
def loopedTree : Tree := (Tree.empty.put ["w"] .folder).put ["x"] (.link "w/..")

/-- **A lock that is not given back**: its path goes through the working directory, and the reset
    has removed that and cannot make it again.  The next run cannot even prepare to
    take the lock. -/
theorem loopedTree_keeps_lock :
    Path.IsDescent "x/w" ∧ loopedTree.WellFormed ∧
      StaysInside (scriptedSession "x/w" 1 fun _ => []) ["w"] ∧
      (Lock.acquire loneHost "x/w" loopedTree).2.toOption = some ⟨"x/w.lock"⟩ ∧
      (run (scriptedSession "x/w" 1 fun _ => []) false () loopedTree).result.toOption.isNone =
      true ∧ (run (scriptedSession "x/w" 1 fun _ => []) false () loopedTree).tree.node? ["w.lock"] =
        some (.file (Lock.ownerBlob 7)) ∧
      (Lock.acquire loneHost "x/w"
        (run (scriptedSession "x/w" 1 fun _ => []) false () loopedTree).tree).2.toOption = none :=
  ⟨⟨⟨"w", by decide, by decide⟩, by decide⟩,
    (Tree.wellFormed_empty.put_new rfl (by decide) rfl _).put_new rfl (by decide) rfl _,
    staysInside_scriptedSession _, by decide +kernel, by decide +kernel, by decide +kernel,
    by decide +kernel⟩

end Run

end Concolic
