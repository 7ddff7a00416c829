import Mathlib.Data.List.Induction
import Concolic.Proofs.Site
import Concolic.Proofs.Steps

/-
  Sessions that have nothing in common do not interfere.

  Two runs share a tree and take their steps in any order.  What they have in common are the
  directories above, which are only ever made, and a run that needs one does not tell who has made
  it.  The proof follows one of the runs and compares it with itself alone.
-/

namespace Concolic

/-- The executor reads and writes in the place only, and makes no links. -/
structure Executor.KeepsTo (x : Executor) (place : Loc) : Prop where
  writes : ∀ n t, t.Workable place → Tree.Works place t (x.invoke n t).tree
  reads : ∀ n t t', t.Workable place → t'.Workable place → Tree.SameContents place t t' →
    (x.invoke n t).exit = (x.invoke n t').exit ∧ (x.invoke n t).cancels = (x.invoke n t').cancels ∧
      Tree.SameContents place (x.invoke n t).tree (x.invoke n t').tree

/-! ## One step of a run, on both trees -/

namespace Run

open Concolic.Tree (Agree Grows Paved SameContents Stays Works goal)

variable {σ : Type} {s : Setup σ} {u v : Tree}

/-- The way is there, the lock is the session's, and no file in the working directory has a second
    name. -/
structure Working (s : Setup σ) (a : Site) (lock : Lock) (v : Tree) : Prop where
  lock : lock.path = Lock.pathFor s.session.workDir
  paved : Paved a.dir v
  plain : v.Plain a.work

/-- What holds of the tree of a run alone, by the phase that it is in. -/
def Standing (s : Setup σ) (a : Site) (v : Tree) : Phase → Prop
  | .ready => v.WellFormed ∧ v.isFolderAt (Tree.start s.host.cwd s.session.workDir) = true
  | .holding lock => lock.path = Lock.pathFor s.session.workDir ∧ v.WellFormed ∧ Paved a.dir v
  | .opening k => Working s a k.lock v
  | .archived k _ => Working s a k.lock v
  | .saved k _ _ => Working s a k.lock v
  | .replied k _ _ _ _ => Working s a k.lock v
  | .closing lock _ => lock.path = Lock.pathFor s.session.workDir ∧ Paved a.dir v
  | .finished _ => True

/-- The run at `x` on the shared tree is where the run alone is at `y`. -/
structure Follows (s : Setup σ) (a : Site) (y x : Phase × Tree) : Prop where
  phase : x.1 = y.1
  shadows : a.Shadows y.2 x.2
  standing : Standing s a y.2 y.1

/-- A step from this phase keeps the runs together, and touches what the session may touch. -/
structure Moves (s : Setup σ) (a : Site) (asked : Bool) (phase : Phase) (v u : Tree) : Prop where
  follows : Follows s a (step s asked (phase, v)) (step s asked (phase, u))
  touches : a.Touches u (step s asked (phase, u)).2

section Moves

variable {a : Site}

theorem moves_of_steps {asked : Bool} {phase next : Phase} {u' v' : Tree}
    (hv : step s asked (phase, v) = (next, v')) (hu : step s asked (phase, u) = (next, u'))
    (hshadows : a.Shadows v' u') (hstanding : Standing s a v' next) (htouches : a.Touches u u') :
    Moves s a asked phase v u := by
  refine ⟨?_, ?_⟩
  · rw [hv, hu]
    exact ⟨rfl, hshadows, hstanding⟩
  · rw [hu]
    exact htouches

variable (hs : a.Found s.host.cwd s.session.workDir)

include hs

theorem stays_root : Stays a.Territory s.host.cwd s.workspace.root := by
  refine ⟨hs.no_up, fun loc hloc => .inl ?_⟩
  rw [← hs.work]
  exact hloc

theorem stays_lock : Stays a.Territory s.host.cwd (Lock.pathFor s.session.workDir) := by
  refine ⟨hs.lock_no_up, fun loc hloc => ?_⟩
  obtain ⟨name, hlock⟩ := hs.stands.lock
  rw [hs.lock, hlock] at hloc
  rcases List.suffix_cons_iff.mp hloc with rfl | hway
  · exact .inr (.inr hlock.symm)
  · exact .inl (hway.trans hs.stands.dir_suffix)

theorem accords_work : s.workspace.Accords s.host.cwd a.Territory
    (s.workspace.Clear s.host.cwd) := by
  refine Workspace.accords_clear (stays_root hs) fun loc hin => .inr (.inl ?_)
  rw [← hs.work]
  exact hin

variable (h : a.Shadows v u)

include h

/-- **Preparing the directory of the lock** makes no difference between the trees. -/
theorem shadows_prepare (hform : v.WellFormed)
    (hstart : v.isFolderAt (Tree.start s.host.cwd s.session.workDir) = true) {path : String}
    (hpath : path = Lock.pathFor s.session.workDir) :
    (Lock.prepare s.host u path).2 = (Lock.prepare s.host v path).2 ∧
      a.Shadows (Lock.prepare s.host v path).1 (Lock.prepare s.host u path).1 ∧
      Grows a.dir u (Lock.prepare s.host u path).1 ∧
      ((Lock.prepare s.host v path).2 = .ok () → Paved a.dir (Lock.prepare s.host v path).1) := by
  obtain ⟨dir, hdir, hgoal⟩ := hs.houses
  rw [← hs.start] at hstart
  rw [← hpath] at hdir hstart
  have hway : goal s.host.cwd dir <:+ a.dir := hgoal ▸ List.suffix_refl (goal s.host.cwd dir)
  obtain ⟨hend, hsprouts⟩ :=
    Lock.sprouts_prepare hdir h.way h.alone h.shared (hform.rooted _) hway hstart
  have hgrows := Lock.grows_prepare hdir h.alone hway
  have hgrows' := Lock.grows_prepare hdir h.shared hway
  have hadds := Lock.adds_prepare s.host v path
  have hadds' := Lock.adds_prepare s.host u path
  refine ⟨hend, ⟨fun loc hloc => ?_, hsprouts, ?_, h.alone.adds hadds,
    h.shared.adds hadds'⟩, hgrows',
    fun hok => ?_⟩
  · rw [hs.stands.node?_of_grows hgrows' hloc, hs.stands.node?_of_grows hgrows hloc, h.own loc hloc]
  · rw [hadds.pool, hadds'.pool, h.pool]
  · rw [← hgoal]
    exact (Lock.wellFormed_prepare hform _ _).paved
      (Lock.folder_of_prepared hdir hform h.alone hstart hok)

theorem shadows_seize (hpaved : Paved a.dir v) {path : String}
    (hpath : path = Lock.pathFor s.session.workDir) :
    (Lock.seize s.host s.session.workDir path u).2 =
    (Lock.seize s.host s.session.workDir path v).2 ∧
      a.Shadows (Lock.seize s.host s.session.workDir path v).1
        (Lock.seize s.host s.session.workDir path u).1 ∧
      Works a.lock u (Lock.seize s.host s.session.workDir path u).1 ∧
      Paved a.dir (Lock.seize s.host s.session.workDir path v).1 := by
  have hstays := stays_lock hs
  rw [← hpath] at hstays
  have hworks : ∀ {t : Tree}, t.LinkFree →
      Works a.lock t (Lock.seize s.host s.session.workDir path t).1 := by
    intro t ht
    rw [← hs.lock, ← hpath]
    exact Lock.works_seize ht hstays.no_up s.session.workDir
  obtain ⟨hsame, hagree⟩ :=
    Lock.agree_seize (h.agree hs.stands hpaved) h.shared hstays s.session.workDir
  have hworks' := hworks h.shared
  have halone := hworks h.alone
  have hpool : (Lock.seize s.host s.session.workDir path u).1.pool =
      (Lock.seize s.host s.session.workDir path v).1.pool := by
    rw [hworks'.pool, halone.pool, h.pool]
  refine ⟨hsame, Site.shadows_of_agree hagree hs.stands hpool (halone.linkFree h.alone)
    (hworks'.linkFree h.shared), hworks', ?_⟩
  obtain ⟨name, hlock⟩ := hs.stands.lock
  rw [hlock] at halone
  exact hpaved.works halone

/-- **Acquiring the lock** ends alike on both trees. -/
theorem shadows_acquire (hform : v.WellFormed)
    (hstart : v.isFolderAt (Tree.start s.host.cwd s.session.workDir) = true) :
    (Lock.acquire s.host s.session.workDir u).2 = (Lock.acquire s.host s.session.workDir v).2 ∧
      a.Shadows (Lock.acquire s.host s.session.workDir v).1
        (Lock.acquire s.host s.session.workDir u).1 ∧
      a.Touches u (Lock.acquire s.host s.session.workDir u).1 ∧
      ∀ lock, (Lock.acquire s.host s.session.workDir v).2 = .ok lock →
        Paved a.dir (Lock.acquire s.host s.session.workDir v).1 := by
  have hprepare := shadows_prepare hs h hform hstart rfl
  have hpool := (Lock.adds_prepare s.host u (Lock.pathFor s.session.workDir)).pool
  cases hv : Lock.prepare s.host v (Lock.pathFor s.session.workDir) with
  | mk v₁ r =>
  cases hu : Lock.prepare s.host u (Lock.pathFor s.session.workDir) with
  | mk u₁ r' =>
  rw [hv, hu] at hprepare
  rw [hu] at hpool
  obtain ⟨rfl, hprepared, hgrows, hpaved⟩ := hprepare
  cases r' with
  | error cause =>
    rw [Lock.acquire_of_unprepared hv, Lock.acquire_of_unprepared hu]
    refine ⟨rfl, hprepared, ?_, fun lock hlock => ?_⟩
    · exact Site.touches_of_grows_works hs.stands hgrows hpool (.refl _ _)
    · cases hlock
  | ok =>
    rw [Lock.acquire_of_prepared hv, Lock.acquire_of_prepared hu]
    obtain ⟨hsame, hseized, hworks, hpaved'⟩ := shadows_seize hs hprepared (hpaved rfl) rfl
    exact ⟨hsame, hseized, Site.touches_of_grows_works hs.stands hgrows hpool hworks,
      fun _ _ => hpaved'⟩

theorem moves_ready (asked : Bool) (hform : v.WellFormed)
    (hstart : v.isFolderAt (Tree.start s.host.cwd s.session.workDir) = true) :
    Moves s a asked .ready v u := by
  have hacquire := shadows_acquire hs h hform hstart
  cases hv : Lock.acquire s.host s.session.workDir v with
  | mk held r =>
  cases hu : Lock.acquire s.host s.session.workDir u with
  | mk held' r' =>
  rw [hv, hu] at hacquire
  obtain ⟨rfl, hshadows, htouches, hpaved⟩ := hacquire
  cases r' with
  | error cause =>
    exact moves_of_steps (step_ready_refused asked hv)
      (step_ready_refused asked hu) hshadows trivial
      htouches
  | ok lock =>
    exact moves_of_steps (step_ready_taken asked hv) (step_ready_taken asked hu) hshadows
      ⟨Lock.path_of_acquire hv, Lock.wellFormed_acquire hform hv, hpaved lock rfl⟩ htouches

/-! ### The working directory -/

theorem moves_closing (asked : Bool) {lock : Lock} (result : Except Failure Report)
    (hlock : lock.path = Lock.pathFor s.session.workDir) (hpaved : Paved a.dir v) :
    Moves s a asked (.closing lock result) v u := by
  have hstays := stays_lock hs
  rw [← hlock] at hstays
  have hworks : ∀ {t : Tree}, t.LinkFree → Works a.lock t (lock.release s.host t) := by
    intro t ht
    rw [← hs.lock, ← hlock]
    exact Lock.works_discard ht hstays.no_up
  have hagree : Agree a.Territory (lock.release s.host u) (lock.release s.host v) :=
    Lock.agree_discard (h.agree hs.stands hpaved) h.shared hstays
  have hpool : (lock.release s.host u).pool = (lock.release s.host v).pool := by
    rw [(hworks h.shared).pool, (hworks h.alone).pool, h.pool]
  have hshadows := Site.shadows_of_agree hagree hs.stands hpool ((hworks h.alone).linkFree h.alone)
    ((hworks h.shared).linkFree h.shared)
  exact moves_of_steps (step_closing asked lock result v)
    (step_closing asked lock result u) hshadows
    trivial (Site.touches_of_works_lock (hworks h.shared))

omit hs h in
theorem standing_advance {lock : Lock} (hworking : Working s a lock v) (left i : Nat)
    (cancelled : Bool)
    (done : List Iteration) : Standing s a v (advance s lock left i cancelled done) := by
  cases left with
  | zero => exact ⟨hworking.lock, hworking.paved⟩
  | succ left =>
    rw [advance]
    split
    · exact ⟨hworking.lock, hworking.paved⟩
    · exact hworking

omit hs h in
theorem standing_conclude {k : Turn} (hworking : Working s a k.lock v) (inputs : InputSnapshot)
    (history : Copy) (exit : Option Int32) (cancels : Bool) (signal : Signal) :
    Standing s a v (k.conclude s inputs history exit cancels signal) := by
  rw [Turn.conclude]
  split
  · exact standing_advance hworking _ _ _ _
  · exact ⟨hworking.lock, hworking.paved⟩

/-- **Making the working directory anew** ends alike on both trees. -/
theorem shadows_reset (hpaved : Paved a.dir v) :
    (s.workspace.reset s.host.cwd u).2 = (s.workspace.reset s.host.cwd v).2 ∧
      a.Shadows (s.workspace.reset s.host.cwd v).1 (s.workspace.reset s.host.cwd u).1 ∧
      a.Touches u (s.workspace.reset s.host.cwd u).1 ∧
      Paved a.dir (s.workspace.reset s.host.cwd v).1 := by
  have hstays := stays_root hs
  have hwork : goal s.host.cwd s.workspace.root = a.work := hs.work
  obtain ⟨hsame, hagree⟩ := Workspace.agree_reset (h.agree hs.stands hpaved) h.shared hstays
  -- it is removed and made again, with the directories above
  have hremove : ∀ {t : Tree}, t.LinkFree →
      Works a.work t (t.removeAll s.host.cwd s.workspace.root).1 := by
    intro t ht
    rw [← hwork]
    exact ht.works_removeAll hstays.no_up
  have hmake : ∀ {t : Tree}, t.LinkFree →
      Grows a.work (t.removeAll s.host.cwd s.workspace.root).1
        (s.workspace.reset s.host.cwd t).1 := by
    intro t ht
    rw [Workspace.fst_reset]
    exact ((hremove ht).linkFree ht).grows_makeFolders hstays.no_up (hwork ▸ List.suffix_refl _)
  have hpool : ∀ (t : Tree), (s.workspace.reset s.host.cwd t).1.pool =
      (t.removeAll s.host.cwd s.workspace.root).1.pool := by
    intro t
    rw [Workspace.fst_reset]
    exact (Tree.adds_makeFolders _ _ _).pool
  have htouches : ∀ {t : Tree}, t.LinkFree → a.Touches t (s.workspace.reset s.host.cwd t).1 :=
    fun ht => Site.touches_of_works_grows (hremove ht) (hmake ht) (hpool _)
  have hboth : (s.workspace.reset s.host.cwd u).1.pool =
      (s.workspace.reset s.host.cwd v).1.pool := by
    rw [(htouches h.shared).pool, (htouches h.alone).pool, h.pool]
  refine ⟨hsame, Site.shadows_of_agree hagree hs.stands hboth ((htouches h.alone).linkFree h.alone)
    ((htouches h.shared).linkFree h.shared), htouches h.shared, ?_⟩
  obtain ⟨name, hname⟩ := hs.stands.work
  have hremoved := hremove h.alone
  rw [hname] at hremoved
  exact (hpaved.works hremoved).grows (hmake h.alone)

theorem moves_holding (asked : Bool) (hdown : Path.IsDescent s.session.workDir) {lock : Lock}
    (hlock : lock.path = Lock.pathFor s.session.workDir) (hform : v.WellFormed)
    (hpaved : Paved a.dir v) : Moves s a asked (.holding lock) v u := by
  have hreset := shadows_reset hs h hpaved
  have hfresh := Workspace.wellFormed_reset hform s.workspace s.host.cwd
  cases hv : s.workspace.reset s.host.cwd v with
  | mk fresh r =>
  cases hu : s.workspace.reset s.host.cwd u with
  | mk fresh' r' =>
  rw [hv, hu] at hreset
  rw [hv] at hfresh
  obtain ⟨rfl, hshadows, htouches, hpaved'⟩ := hreset
  cases r' with
  | error cause =>
    exact moves_of_steps (step_holding_failed asked lock hv)
      (step_holding_failed asked lock hu) hshadows
      ⟨hlock, hpaved'⟩ htouches
  | ok =>
    -- the directory is empty, or holds what the machine keeps there
    have hplain : fresh.Plain a.work := by
      obtain ⟨d, hreach, hbare⟩ := Workspace.reset_bare hform hdown hv
      obtain rfl := hshadows.alone.goal_of_lookup hs.no_up hreach.lookup
      rw [← hs.work]
      exact hfresh.plain_of_bare hreach.folder hbare
    exact moves_of_steps (step_holding_reset asked lock hv)
      (step_holding_reset asked lock hu) hshadows
      (standing_advance ⟨hlock, hpaved', hplain⟩ _ _ _ _) htouches

/-! ### An iteration -/

omit h in
theorem Working.works {lock : Lock} {v' : Tree} (hworking : Working s a lock v)
    (hworks : Works a.work v v') : Working s a lock v' := by
  obtain ⟨name, hname⟩ := hs.stands.work
  have hplain := hworking.plain.step hworks.inside
  rw [hname] at hworks
  exact ⟨hworking.lock, hworking.paved.works hworks, hplain⟩

theorem clear_shared {lock : Lock} (hworking : Working s a lock v) :
    s.workspace.Clear s.host.cwd v ∧ s.workspace.Clear s.host.cwd u := by
  obtain ⟨halone, hshared⟩ := h.workable hworking.plain hworking.paved
  have hplain := halone.plain
  have hplain' := hshared.plain
  rw [← hs.work] at hplain hplain'
  exact ⟨⟨h.alone, hs.no_up, hplain⟩, h.shared, hs.no_up, hplain'⟩

theorem moves_opening (asked : Bool) {k : Turn} (hworking : Working s a k.lock v) :
    Moves s a asked (.opening k) v u := by
  obtain ⟨halone, hshared⟩ := clear_shared hs h hworking
  have hv := halone.works_snapshotInputs (UInt32.ofNat k.number)
  have hu := hshared.works_snapshotInputs (UInt32.ofNat k.number)
  have hwork : goal s.host.cwd s.workspace.root = a.work := hs.work
  rw [hwork] at hv hu
  obtain ⟨hsame, hagree⟩ := (accords_work hs).snapshotInputs hshared halone
    (h.agree hs.stands hworking.paved) (UInt32.ofNat k.number)
  have hshadows := Site.shadows_of_agree hagree hs.stands (by rw [hu.pool, hv.pool, h.pool])
    (hv.linkFree h.alone) (hu.linkFree h.shared)
  have hstep := step_opening (s := s) asked k u
  rw [hsame] at hstep
  exact moves_of_steps (step_opening asked k v) hstep hshadows (Working.works hs hworking hv)
    (Site.touches_of_works_work hu)

theorem moves_archived (asked : Bool) {k : Turn} (inputs : InputSnapshot)
    (hworking : Working s a k.lock v) : Moves s a asked (.archived k inputs) v u := by
  obtain ⟨halone, hshared⟩ := clear_shared hs h hworking
  have hv := halone.works_snapshotHistory
  have hu := hshared.works_snapshotHistory
  have hwork : goal s.host.cwd s.workspace.root = a.work := hs.work
  rw [hwork] at hv hu
  obtain ⟨hsame, hagree⟩ := (accords_work hs).snapshotHistory hshared halone
    (h.agree hs.stands hworking.paved)
  have hshadows := Site.shadows_of_agree hagree hs.stands (by rw [hu.pool, hv.pool, h.pool])
    (hv.linkFree h.alone) (hu.linkFree h.shared)
  have hstep := step_archived (s := s) asked k inputs u
  rw [hsame] at hstep
  exact moves_of_steps (step_archived asked k inputs v) hstep hshadows
    (Working.works hs hworking hv)
    (Site.touches_of_works_work hu)

/-- The executor finds the same in its working directory, so it does the same there. -/
theorem moves_saved (asked : Bool) (hkeeps : s.executor.KeepsTo a.work) {k : Turn}
    (inputs : InputSnapshot) (history : Copy) (hworking : Working s a k.lock v) :
    Moves s a asked (.saved k inputs history) v u := by
  obtain ⟨halone, hshared⟩ := h.workable hworking.plain hworking.paved
  have hv := hkeeps.writes k.number v halone
  have hu := hkeeps.writes k.number u hshared
  obtain ⟨hexit, hcancels, hcontents⟩ := hkeeps.reads k.number v u halone hshared h.sameContents
  have hagree := (h.agree hs.stands hworking.paved).works hu hv fun loc hin =>
    (hcontents.nodes loc hin).symm
  have hshadows := Site.shadows_of_agree hagree hs.stands (by rw [hu.pool, hv.pool, h.pool])
    (hv.linkFree h.alone) (hu.linkFree h.shared)
  have hworking' := Working.works hs hworking hv
  cases hend : (s.executor.invoke k.number v).exit with
  | error cause =>
    rw [hend] at hexit
    exact moves_of_steps (step_saved_failed asked inputs history hend)
      (step_saved_failed asked inputs history hexit.symm) hshadows ⟨hworking'.lock, hworking'.paved⟩
      (Site.touches_of_works_work hu)
  | ok exit =>
    rw [hend] at hexit
    have hstep := step_saved_replied asked inputs history hexit.symm
    rw [← hcancels] at hstep
    exact moves_of_steps (step_saved_replied asked inputs history hend) hstep hshadows hworking'
      (Site.touches_of_works_work hu)

theorem moves_replied (asked : Bool) {k : Turn} (inputs : InputSnapshot) (history : Copy)
    (exit : Option Int32) (cancels : Bool) (hworking : Working s a k.lock v) :
    Moves s a asked (.replied k inputs history exit cancels) v u := by
  obtain ⟨halone, hshared⟩ := clear_shared hs h hworking
  have hsame := (accords_work hs).signal hshared halone (h.agree hs.stands hworking.paved)
  have hstep := step_replied (s := s) asked k inputs history exit cancels u
  rw [hsame] at hstep
  exact moves_of_steps (step_replied asked k inputs history exit cancels v) hstep h
    (standing_conclude hworking _ _ _ _ _) (Site.touches_refl a u)

/-- **One step**, whatever the phase. -/
theorem moves_step (asked : Bool) (hdown : Path.IsDescent s.session.workDir)
    (hkeeps : s.executor.KeepsTo a.work) (phase : Phase) (hstanding : Standing s a v phase) :
    Moves s a asked phase v u := by
  cases phase with
  | ready => exact moves_ready hs h asked hstanding.1 hstanding.2
  | holding lock => exact moves_holding hs h asked hdown hstanding.1 hstanding.2.1 hstanding.2.2
  | opening k => exact moves_opening hs h asked hstanding
  | archived k inputs => exact moves_archived hs h asked inputs hstanding
  | saved k inputs history => exact moves_saved hs h asked hkeeps inputs history hstanding
  | replied k inputs history exit cancels =>
    exact moves_replied hs h asked inputs history exit cancels hstanding
  | closing lock result => exact moves_closing hs h asked result hstanding.1 hstanding.2
  | finished result => exact ⟨⟨rfl, h, trivial⟩, Site.touches_refl a u⟩

end Moves

/-! ## Schedules -/

/-- Where the session is. -/
def Setup.site (s : Setup σ) : Site := .of s.host.cwd s.session.workDir

/-- The session's path goes down from a directory that is there, nobody but the executor writes, and
    the executor keeps to the working directory. -/
structure Setup.KeepsToItself (s : Setup σ) (t : Tree) : Prop where
  descends : Path.IsDescent s.session.workDir
  cwd : t.isFolderAt s.host.cwd = true
  watches : s.observer.OnlyWatches
  keeps : s.executor.KeepsTo s.site.work

variable {t : Tree} {y : Phase × Tree} {phase : Phase} {asked : Bool}

theorem Setup.KeepsToItself.found (h : s.KeepsToItself t) :
    s.site.Found s.host.cwd s.session.workDir :=
  h.descends.found s.host.cwd

theorem Setup.KeepsToItself.follows (h : s.KeepsToItself t) (hform : t.WellFormed)
    (hfree : t.LinkFree) : Follows s s.site (.ready, t) (.ready, t) := by
  refine ⟨rfl, Site.shadows_refl _ hfree, hform, ?_⟩
  show t.isFolderAt (Tree.start s.host.cwd s.session.workDir) = true
  rw [Tree.start]
  split
  · rfl
  · exact h.cwd

theorem Setup.KeepsToItself.moves (h : s.KeepsToItself t) (asked : Bool)
    (hf : Follows s s.site y (phase, u)) : Moves s s.site asked y.1 y.2 u :=
  moves_step h.found hf.shadows asked h.descends h.keeps y.1 hf.standing

theorem Follows.step (hf : Follows s s.site y (phase, u)) (h : s.KeepsToItself t) (asked : Bool) :
    Follows s s.site (step s asked y) (step s asked (phase, u)) := by
  have hphase : phase = y.1 := hf.phase
  rw [hphase]
  exact (h.moves asked hf).follows

theorem Follows.touches (hf : Follows s s.site y (phase, u)) (h : s.KeepsToItself t)
    (asked : Bool) : s.site.Touches u (Run.step s asked (phase, u)).2 := by
  have hphase : phase = y.1 := hf.phase
  rw [hphase]
  exact (h.moves asked hf).touches

/-- A step of the other run touches nothing of it. -/
theorem Follows.other {b : Site} {u' : Tree} (hf : Follows s s.site y (phase, u))
    (h : s.KeepsToItself t)
    (hapart : s.site.Apart b) (htouches : b.Touches u u') : Follows s s.site y (phase, u') :=
  ⟨hf.phase, hf.shadows.touched h.found.stands hapart htouches, hf.standing⟩

variable {σ₁ σ₂ : Type} {s₁ : Setup σ₁} {s₂ : Setup σ₂}

/-- **Along every schedule** each run is where it would be alone, after as many steps of its own. -/
theorem interleave_follows (hform : t.WellFormed) (hfree : t.LinkFree) (h₁ : s₁.KeepsToItself t)
    (h₂ : s₂.KeepsToItself t) (hapart : s₁.site.Apart s₂.site) (asked₁ asked₂ : Bool)
    (schedule : List Side) :
    Follows s₁ s₁.site ((step s₁ asked₁)^[schedule.count .first] (.ready, t))
        ((interleave s₁ s₂ asked₁ asked₂ t schedule).first,
          (interleave s₁ s₂ asked₁ asked₂ t schedule).tree) ∧
      Follows s₂ s₂.site ((step s₂ asked₂)^[schedule.count .second] (.ready, t))
        ((interleave s₁ s₂ asked₁ asked₂ t schedule).second,
          (interleave s₁ s₂ asked₁ asked₂ t schedule).tree) := by
  induction schedule using List.reverseRecOn with
  | nil => exact ⟨h₁.follows hform hfree, h₂.follows hform hfree⟩
  | append_singleton schedule side ih =>
    obtain ⟨hf₁, hf₂⟩ := ih
    have hnext : interleave s₁ s₂ asked₁ asked₂ t (schedule ++ [side]) =
        (interleave s₁ s₂ asked₁ asked₂ t schedule).act s₁ s₂ asked₁ asked₂ side := by
      rw [interleave, interleave, List.foldl_concat]
    rw [hnext, List.count_append, List.count_append]
    cases side with
    | first =>
      rw [List.count_singleton_self, Function.iterate_succ_apply',
        show [Side.first].count Side.second = 0 from rfl]
      exact ⟨hf₁.step h₁ asked₁, hf₂.other h₂ hapart.symm (hf₁.touches h₁ asked₁)⟩
    | second =>
      rw [List.count_singleton_self, Function.iterate_succ_apply',
        show [Side.second].count Side.first = 0 from rfl]
      exact ⟨hf₁.other h₁ hapart (hf₂.touches h₂ asked₂), hf₂.step h₂ asked₂⟩

/-! ## The end of a run -/

/-- If a run that stands at `phase` on `shared` is over, it has come to the end of a run alone on
    `t`: it gives the same report but for what the clock tells, and the working directory has the
    same contents. -/
def EndsAsAlone (s : Setup σ) (asked : Bool) (w : σ) (t : Tree) (phase : Phase) (shared : Tree) :
    Prop :=
  ∀ result, phase = .finished result → ∀ clock : Clock,
    SameEnd (Report.Alike Eq) result (run { s with clock } asked w t).result ∧
      SameContents s.site.work (run { s with clock } asked w t).tree shared

theorem steps_at_end (h : s.observer.OnlyWatches) (w : σ) {n : Nat} {result : Except Failure Report}
    (hover : ((step s asked)^[n] (.ready, t)).1 = .finished result) :
    (step s asked)^[n] (.ready, t) = (.finished (run s asked w t).result,
      (run s asked w t).tree) := by
  obtain ⟨m, hm⟩ := run_eq_steps h asked w t
  rcases Nat.le_total m n with hle | hle
  · rw [← Nat.sub_add_cancel hle, Function.iterate_add_apply, hm, steps_finished]
  · cases hstate : (step s asked)^[n] (.ready, t) with
    | mk phase v =>
      rw [hstate] at hover
      obtain rfl : phase = .finished result := hover
      rw [← Nat.sub_add_cancel hle, Function.iterate_add_apply, hstate, steps_finished] at hm
      exact hm

theorem sameEnd_refl {ε α : Type} (r : Except ε α) : SameEnd Eq r r := by
  cases r with
  | error cause => exact .fails cause
  | ok value => exact .gives rfl

theorem run_clock (h : s.observer.OnlyWatches) (clock : Clock) (asked : Bool) (w : σ) (t : Tree) :
    Ended.Alike Eq (run s asked w t) (run { s with clock } asked w t) := by
  have halike : s.Alike Eq { s with clock } :=
    ⟨rfl, rfl, rfl, fun _ _ => ⟨rfl, sameEnd_refl _, rfl⟩, h, h⟩
  exact run_alike halike asked w w t

theorem Follows.endsAsAlone {n : Nat} (h : s.observer.OnlyWatches) (w : σ)
    (hf : Follows s s.site ((Run.step s asked)^[n] (.ready, t)) (phase, u)) :
    EndsAsAlone s asked w t phase u := by
  intro result hover clock
  have hphase : phase = ((Run.step s asked)^[n] (.ready, t)).1 := hf.phase
  have hend := steps_at_end h w (hphase.symm.trans hover)
  have hclock := run_clock h clock asked w t
  have hcontents := hf.shadows.sameContents
  rw [hend] at hphase hcontents
  dsimp only at hphase hcontents
  rw [hover, Phase.finished.injEq] at hphase
  rw [hphase, ← hclock.tree]
  exact ⟨hclock.result, hcontents⟩

theorem finished_of_follows (h : s.observer.OnlyWatches) (asked : Bool) (w : σ) (t : Tree) :
    ∃ m, ∀ {n : Nat}, m ≤ n → ∀ {phase : Phase} {u : Tree},
      Follows s s.site ((step s asked)^[n] (.ready, t)) (phase, u) →
        ∃ result, phase = .finished result := by
  obtain ⟨m, hm⟩ := run_eq_steps h asked w t
  refine ⟨m, fun {n} hle {phase u} hf => ⟨(run s asked w t).result, ?_⟩⟩
  have hphase : phase = ((step s asked)^[n] (.ready, t)).1 := hf.phase
  rw [hphase, ← Nat.sub_add_cancel hle, Function.iterate_add_apply, hm, steps_finished]

/-- **Independent sessions do not interfere.**  Two sessions whose working directories and lock
    files are apart are run on one tree without links, and take their steps in whatever order.  Each
    of them, once it is over, gives the report and leaves the working directory of a run alone, and
    each is over once it has taken enough steps. -/
theorem independent_sessions_do_not_interfere (s₁ : Setup σ₁) (s₂ : Setup σ₂) (asked₁ asked₂ : Bool)
    (w₁ : σ₁) (w₂ : σ₂) (t : Tree) (hform : t.WellFormed) (hfree : t.LinkFree)
    (h₁ : s₁.KeepsToItself t) (h₂ : s₂.KeepsToItself t) (hapart : s₁.site.Apart s₂.site) :
    (∀ schedule,
      let x := interleave s₁ s₂ asked₁ asked₂ t schedule
      EndsAsAlone s₁ asked₁ w₁ t x.first x.tree ∧ EndsAsAlone s₂ asked₂ w₂ t x.second x.tree) ∧
    ∃ m, ∀ schedule,
      let x := interleave s₁ s₂ asked₁ asked₂ t schedule
      (m ≤ schedule.count .first → ∃ result, x.first = .finished result) ∧
        (m ≤ schedule.count .second → ∃ result, x.second = .finished result) := by
  have hfollows := interleave_follows hform hfree h₁ h₂ hapart asked₁ asked₂
  refine ⟨fun schedule => ?_, ?_⟩
  · obtain ⟨hf₁, hf₂⟩ := hfollows schedule
    exact ⟨hf₁.endsAsAlone h₁.watches w₁, hf₂.endsAsAlone h₂.watches w₂⟩
  · obtain ⟨m₁, hm₁⟩ := finished_of_follows h₁.watches asked₁ w₁ t
    obtain ⟨m₂, hm₂⟩ := finished_of_follows h₂.watches asked₂ w₂ t
    refine ⟨max m₁ m₂, fun schedule => ⟨fun hle => ?_, fun hle => ?_⟩⟩
    · exact hm₁ ((Nat.le_max_left _ _).trans hle) (hfollows schedule).1
    · exact hm₂ ((Nat.le_max_right _ _).trans hle) (hfollows schedule).2

/-- A session in `s`, of at most three invocations, of which the first writes a history and all
    others remove it. -/
def siblingSession (name : String) : Setup Unit where
  host := ⟨[], 7, fun _ => false⟩
  session := ⟨name, "Main", "classes", "s/" ++ name, 3⟩
  executor := ⟨"explore", fun n t =>
    { tree := if n = 1 then t.put ["history", name, "s"] (.file Blob.empty)
        else t.erase ["history", name, "s"]
      exit := .ok (some 1)
      output := Console.empty
      cancels := false }⟩
  observer := Observer.silent
  clock := ⟨fun _ => ⟨1, 0, 0, 0, 0⟩, fun _ => Duration.ofSeconds 0⟩

theorem keepsTo_siblingSession (name : String) :
    (siblingSession name).executor.KeepsTo [name, "s"] := by
  have hin : [name, "s"] <:+ ["history", name, "s"] := List.suffix_cons _ _
  have hwrites : ∀ n (t : Tree), Works [name, "s"] t
      ((siblingSession name).executor.invoke n t).tree := by
    intro n t
    show Works _ t (if n = 1 then t.put ["history", name, "s"] _
        else t.erase ["history", name, "s"])
    split
    · exact (Tree.works_put t _ rfl).mono hin
    · exact (Tree.works_erase t _).mono hin
  refine ⟨fun n t _ => hwrites n t, fun n t t' ht _ hsame => ⟨rfl, rfl, ?_⟩⟩
  refine (ht.plain.step (hwrites n t).inside).sameContents fun loc hloc => ?_
  show (if n = 1 then t.put ["history", name, "s"] _
      else t.erase ["history", name, "s"]).node? loc =
    (if n = 1 then t'.put ["history", name, "s"] _ else t'.erase ["history", name, "s"]).node? loc
  have hnode := hsame.nodes loc hloc
  by_cases heq : loc = ["history", name, "s"]
  · subst heq
    split
    · rw [Tree.node?_put_self t (by simp), Tree.node?_put_self t' (by simp)]
    · rw [Tree.node?_erase_self t (by simp), Tree.node?_erase_self t' (by simp)]
  · split
    · rw [Tree.node?_put_ne t heq, Tree.node?_put_ne t' heq, hnode]
    · rw [Tree.node?_erase_ne t heq, Tree.node?_erase_ne t' heq, hnode]

theorem site_siblingSessions : (siblingSession "a").site = ⟨["a", "s"], ["a.lock", "s"]⟩ ∧
    (siblingSession "b").site = ⟨["b", "s"], ["b.lock", "s"]⟩ :=
  ⟨by decide +kernel, by decide +kernel⟩

theorem siblingSessions_do_not_interfere :
    (siblingSession "a").site.Apart (siblingSession "b").site ∧
    (∀ schedule,
      let x := interleave (siblingSession "a") (siblingSession "b") false false Tree.empty schedule
      EndsAsAlone (siblingSession "a") false () Tree.empty x.first x.tree ∧
        EndsAsAlone (siblingSession "b") false () Tree.empty x.second x.tree) ∧
    ∃ m, ∀ schedule,
      let x := interleave (siblingSession "a") (siblingSession "b") false false Tree.empty schedule
      (m ≤ schedule.count .first → ∃ result, x.first = .finished result) ∧
        (m ≤ schedule.count .second → ∃ result, x.second = .finished result) := by
  have hfree : Tree.empty.LinkFree := by
    intro loc target hlink
    cases loc <;> cases hlink
  have hkeeps : ∀ {name : String}, (siblingSession name).site.work = [name, "s"] →
      Path.IsDescent ("s/" ++ name) → (siblingSession name).KeepsToItself Tree.empty := by
    intro name hwork hdown
    refine ⟨hdown, rfl, Observer.onlyWatches_silent, ?_⟩
    rw [hwork]
    exact keepsTo_siblingSession name
  have hdown : Path.IsDescent "s/a" ∧ Path.IsDescent "s/b" :=
    ⟨⟨⟨"a", by decide +kernel, by decide⟩, by decide +kernel⟩,
      ⟨"b", by decide +kernel, by decide⟩, by decide +kernel⟩
  have hapart : (siblingSession "a").site.Apart (siblingSession "b").site := by
    rw [site_siblingSessions.1, site_siblingSessions.2]
    exact ⟨by decide, by decide, by decide, by decide⟩
  refine ⟨hapart, ?_⟩
  exact independent_sessions_do_not_interfere (siblingSession "a")
    (siblingSession "b") false false () ()
    Tree.empty Tree.wellFormed_empty hfree
    (hkeeps (by rw [site_siblingSessions.1]) hdown.1)
    (hkeeps (by rw [site_siblingSessions.2]) hdown.2) hapart

end Run

end Concolic
