import Concolic.Proofs.CleanStart
import Concolic.Proofs.Hearing
import Concolic.Proofs.Jotting
import Concolic.Proofs.Journal
import Concolic.Proofs.Lodging

/-
  Observers never influence a run.

  A run that is observed is compared with the same run that is not.  The two go through different
  trees, of which the following stays true (`Twins`, `Paired`): they agree on the working directory
  and on the directory that it is in, and in the tree of the observed run the recorder still finds
  its own files.
-/

namespace Concolic.Run

open Concolic.StateDir (Clear Jots Unshared)
open Concolic.Tree (Agree Around ChangesInside FreeBetween Heads IsName Lodged Paved SameContents
  Unfollowed descend goal)

variable {σ τ : Type}

/-! ## The executor -/

/-- A tree in which the path of the working directory leads to `place`, as long as there is a
    directory: the directories above are there, and nothing in it is a link or shares its file with
    another name. -/
structure Setup.Hosts (s : Setup σ) (place : Loc) (t : Tree) : Prop where
  plain : t.Plain place
  paved : Paved place.tail t
  leads : ∀ e, t.Reaches s.host.cwd s.session.workDir e ↔ e = place ∧ t.isFolderAt place = true

/-- The executor reads and writes in the working directory only, and makes no links. -/
structure Setup.Secluded (s : Setup σ) (place : Loc) : Prop where
  writes : ∀ n t, s.Hosts place t → ChangesInside place t (s.executor.invoke n t).tree
  reads : ∀ n t t', s.Hosts place t → s.Hosts place t' → SameContents place t t' →
    (s.executor.invoke n t).exit = (s.executor.invoke n t').exit ∧
      (s.executor.invoke n t).cancels = (s.executor.invoke n t').cancels ∧
      SameContents place (s.executor.invoke n t).tree (s.executor.invoke n t').tree

/-! ## Trees of two runs -/

/-- Where the working directory and the state directory are. -/
structure Scene where
  stem : String
  up : String
  dots : List String
  dir : Loc
  recorder : Recorder
  files : Loc

/-- The working directory. -/
def Scene.place (c : Scene) : Loc := c.stem :: c.dir

/-- The scene is that of the session. -/
structure Scene.Fits (c : Scene) (s : Setup σ) : Prop where
  stem : Path.fileName? s.session.workDir = some c.stem
  ends : Path.Ends s.session.workDir c.up c.stem c.dots
  isName : IsName c.stem
  clear : Clear c.place c.files

/-- `u` and `v` have the same working directory, in the same place; in `v` the recorder finds its
    files. -/
structure Twins (s : Setup σ) (c : Scene) (u v : Tree) : Prop where
  agree : Agree (Around c.dir c.place) u v
  left : Lodged s.host.cwd s.session.workDir c.up c.dir c.place u
  right : Lodged s.host.cwd s.session.workDir c.up c.dir c.place v
  charted : c.recorder.dir.Charted c.recorder.cwd c.files c.place v
  unshared : Unshared c.place c.files v

/-- Besides, nothing in the working directory is a link or shares its file with another name. -/
structure Paired (s : Setup σ) (c : Scene) (u v : Tree) : Prop extends Twins s c u v where
  tended : s.workspace.Tended s.host.cwd c.up c.dir c.place u
  tended' : s.workspace.Tended s.host.cwd c.up c.dir c.place v

section Steps

variable {s : Setup σ} {c : Scene} {u u' v v' : Tree}

theorem Twins.sameContents (h : Twins s c u v) : SameContents c.place u v :=
  ⟨fun loc hin => h.agree.nodes loc (.inr hin), fun _ hin => h.agree.blob? (.inr hin)⟩

/-- **What a recorder does** leaves twins. -/
theorem Twins.told (h : Twins s c u v) (hfits : c.Fits s) (hjots : Jots c.files v v') :
    Twins s c u v' := by
  have hin : ∀ loc, c.place <:+ loc → v'.node? loc = v.node? loc := fun loc hplace =>
    hjots.elsewhere (hfits.clear.ne_file hplace) (hfits.clear.not_on_way hplace)
  obtain ⟨node, hnode, hisFolder⟩ := Tree.isFolderAt_iff.mp (h.right.paved _ (List.suffix_refl _))
  refine ⟨⟨fun loc hloc => ?_, fun loc id hloc hshared => ?_⟩, h.left,
    h.right.mono (Tree.Keeps.without hjots.keeps _), h.charted.jots hjots,
    h.unshared.jots hfits.clear hjots⟩
  · rcases hloc with rfl | hplace
    · rw [h.agree.nodes _ (.inl rfl), hnode]
      exact (hjots.keeps _ _ hnode (Tree.isRoad_of_isFolder hisFolder)).symm
    · rw [hin loc hplace, h.agree.nodes loc (.inr hplace)]
  · have hold := hshared
    rw [h.agree.nodes loc hloc] at hold
    rw [h.agree.pool loc id hloc hshared]
    rcases hloc with rfl | hplace
    · -- the directory above is no file
      rw [hnode] at hold
      cases hold
      cases hisFolder
    · exact (hjots.pool id fun hid => h.unshared id hid loc hplace hold).symm

theorem Twins.changes (h : Twins s c u v) (hfits : c.Fits s) (hu : ChangesInside c.place u u')
    (hv : ChangesInside c.place v v') (hagree : Agree (Around c.dir c.place) u' v') :
    Twins s c u' v' :=
  ⟨hagree, h.left.frame hu.outside, h.right.frame hv.outside,
    h.charted.frame hfits.clear hv.outside, h.unshared.changes hfits.clear hv⟩

theorem Paired.told (h : Paired s c u v) (hfits : c.Fits s) (hjots : Jots c.files v v') :
    Paired s c u v' := by
  have htwins := h.toTwins.told hfits hjots
  obtain ⟨x, hx⟩ := h.tended'.watched
  have hplain : v'.Plain c.place := fun loc node hin hnode => by
    rw [hjots.elsewhere (hfits.clear.ne_file hin) (hfits.clear.not_on_way hin)] at hnode
    exact h.tended'.plain loc node hin hnode
  exact ⟨htwins, h.tended, htwins.right, x, hx.reaches, hx.plain,
    hx.guarded.keeps.trans hjots.keeps, hplain⟩

theorem Paired.changes (h : Paired s c u v) (hfits : c.Fits s) (hu : ChangesInside c.place u u')
    (hv : ChangesInside c.place v v') (hagree : Agree (Around c.dir c.place) u' v') :
    Paired s c u' v' :=
  ⟨h.toTwins.changes hfits hu hv hagree, h.tended.step hu, h.tended'.step hv⟩

theorem Scene.Fits.accords (hfits : c.Fits s) :
    s.workspace.Accords s.host.cwd (Around c.dir c.place)
    (s.workspace.Tended s.host.cwd c.up c.dir c.place) := Workspace.accords_tended hfits.ends

/-- **Archiving** gives the same in both trees. -/
theorem Paired.archive (h : Paired s c u v) (hfits : c.Fits s) (number : UInt32) :
    let inputs := s.workspace.snapshotInputs s.host.cwd number
    let history := s.workspace.snapshotHistory s.host.cwd
    (inputs u).1 = (inputs v).1 ∧ (history (inputs u).2).1 = (history (inputs v).2).1 ∧
      Paired s c (history (inputs u).2).2 (history (inputs v).2).2 := by
  intro inputs history
  have haccords := hfits.accords
  have hinputs : ∀ t, s.workspace.Tended s.host.cwd c.up c.dir c.place t →
      ChangesInside c.place t (inputs t).2 := by
    rintro t ⟨-, x, hx⟩
    exact hx.snapshotInputs number
  have hhistory : ∀ t, s.workspace.Tended s.host.cwd c.up c.dir c.place t →
      ChangesInside c.place t (history t).2 := by
    rintro t ⟨-, x, hx⟩
    exact hx.snapshotHistory
  obtain ⟨hsame, hagree⟩ := haccords.snapshotInputs h.tended h.tended' h.agree number
  have hafter := h.changes hfits (hinputs u h.tended) (hinputs v h.tended') hagree
  obtain ⟨hsame', hagree'⟩ := haccords.snapshotHistory hafter.tended hafter.tended' hafter.agree
  exact ⟨hsame, hsame', hafter.changes hfits (hhistory _ hafter.tended)
    (hhistory _ hafter.tended') hagree'⟩

theorem Paired.signal (h : Paired s c u v) (hfits : c.Fits s) :
    s.workspace.signal s.host.cwd u = s.workspace.signal s.host.cwd v :=
  hfits.accords.signal h.tended h.tended' h.agree

theorem hosts_of_tended {t : Tree} (hfits : c.Fits s)
    (h : s.workspace.Tended s.host.cwd c.up c.dir c.place t) : s.Hosts c.place t := by
  refine ⟨h.plain, h.lodged.paved, fun e => ⟨fun hreach => ?_, ?_⟩⟩
  · obtain ⟨m, -, hway⟩ := hreach.way
    obtain ⟨n, -, hlead⟩ := h.lodged.beside.way
    obtain rfl := hway.eq_fileName hfits.stem hfits.ends.parent
      (hlead.mono (Tree.within_without t c.place).keeps) fun target hlink => by
        have halias := h.plain _ _ (List.suffix_refl _) hlink
        cases halias
    exact ⟨rfl, hreach.folder⟩
  · rintro ⟨rfl, hfolder⟩
    obtain ⟨x, hx⟩ := h.watched
    exact h.lodged.beside.reaches_place hfits.ends hfits.isName hx.reaches.text hfolder

/-- **The executor** finds the same in its working directory, so it does the same there. -/
theorem Paired.invoke (h : Paired s c u v) (hfits : c.Fits s)
    (hexec : s.Secluded c.place) (n : Nat) :
    (s.executor.invoke n u).exit = (s.executor.invoke n v).exit ∧
      (s.executor.invoke n u).cancels = (s.executor.invoke n v).cancels ∧
      Paired s c (s.executor.invoke n u).tree (s.executor.invoke n v).tree := by
  have hu := hosts_of_tended hfits h.tended
  have hv := hosts_of_tended hfits h.tended'
  have hchange := hexec.writes n u hu
  have hchange' := hexec.writes n v hv
  obtain ⟨hexit, hcancels, hcontents⟩ := hexec.reads n u v hu hv h.sameContents
  have hout : ¬ c.place <:+ c.dir := h.left.beside.outside
  refine ⟨hexit, hcancels, h.changes hfits hchange hchange' ⟨fun loc hloc => ?_, ?_⟩⟩
  · rcases hloc with rfl | hin
    · rw [hchange.outside _ hout, hchange'.outside _ hout, h.agree.nodes _ (.inl rfl)]
    · exact hcontents.nodes loc hin
  · -- no file in the working directory has a second name, so that nothing has to be said of those
    intro loc id hloc hshared
    have hold := hchange.aliases loc _ hshared rfl
    rcases hloc with rfl | hin
    · have hfolder := h.left.paved _ (List.suffix_refl _)
      rw [Tree.isFolderAt, hold] at hfolder
      cases hfolder
    · have halias := h.tended.plain loc _ hin hold
      cases halias

/-- **The reset** ends alike in both trees. -/
theorem Twins.reset (h : Twins s c u v) (hfits : c.Fits s) (hform : u.WellFormed)
    (hend : Unfollowed s.session.workDir c.place u) :
    (s.workspace.reset s.host.cwd u).2 = (s.workspace.reset s.host.cwd v).2 ∧
      Twins s c (s.workspace.reset s.host.cwd u).1 (s.workspace.reset s.host.cwd v).1 ∧
      ((s.workspace.reset s.host.cwd u).2 = .ok () →
        Paired s c (s.workspace.reset s.host.cwd u).1 (s.workspace.reset s.host.cwd v).1) := by
  have hends : Path.Ends s.workspace.root c.up c.stem c.dots := hfits.ends
  have hend' : Unfollowed s.session.workDir c.place v := hend.imp_left fun hno target hnode => by
    rw [← h.agree.nodes _ (.inr (List.suffix_refl _))] at hnode
    exact hno target hnode
  obtain ⟨hsame, hagree⟩ := Workspace.agree_reset_of_beside hends h.left.beside
    h.right.beside h.agree
    hfits.isName hend
  have hchange := Workspace.changesInside_reset hends hfits.stem h.left.beside hend
  have hchange' := Workspace.changesInside_reset hends hfits.stem h.right.beside hend'
  have htwins := h.changes hfits hchange hchange' hagree
  refine ⟨hsame, htwins, fun hok => ?_⟩
  have hreset : s.workspace.reset s.host.cwd u = ((s.workspace.reset s.host.cwd u).1, .ok ()) := by
    rw [← hok]
  obtain ⟨hreach, htended⟩ := Workspace.tended_of_reset hform hends hfits.stem h.left hend hreset
  exact ⟨htwins, htended, Workspace.tended_of_agree hends hfits.isName hreach htended
    htwins.right hagree⟩

/-- **Giving back the lock** leaves the working directory alone. -/
theorem sameContents_release {t : Tree} {lock : Lock} (hfits : c.Fits s)
    (h : Lodged s.host.cwd s.session.workDir c.up c.dir c.place t)
    (hlock : lock.path = Lock.pathFor s.session.workDir) :
    SameContents c.place t (lock.release s.host t) := by
  have hplain := Lock.isPlain_lock (Path.no_slash_of_fileName? hfits.stem)
  rw [Lock.release, hlock, Lock.pathFor_of_fileName hfits.stem hfits.ends.parent]
  rcases Lock.discard_cases s.host t (Path.join c.up (c.stem ++ ".lock")) with
    hsame | ⟨e, name, node, hnames, -, -, herase⟩
  · rw [hsame]
    exact ⟨fun _ _ => rfl, fun _ _ => rfl⟩
  · obtain rfl := Lock.name_of_join hnames hplain
    obtain ⟨-, ⟨n, -, hlead⟩, -⟩ := hnames.parent hplain
    obtain ⟨m, -, hway⟩ := h.beside.way
    obtain ⟨rfl, -⟩ := hlead.unique (hway.mono (Tree.within_without t c.place).keeps)
    -- the lock is in the directory above, under another name
    have hne : ∀ loc, c.place <:+ loc → loc ≠ (c.stem ++ ".lock") :: c.dir := by
      rintro loc hin rfl
      have heq : c.stem = c.stem ++ ".lock" := (List.cons.inj (hin.eq_of_length rfl)).1
      have hlength := congrArg (fun name : String => name.toList.length) heq
      simp at hlength
    rw [herase]
    refine ⟨fun loc hin => (Tree.node?_erase_ne t (hne loc hin)).symm, fun loc hin => ?_⟩
    rw [Tree.blob?, Tree.blob?, Tree.node?_erase_ne t (hne loc hin)]
    rfl

end Steps

/-! ## Two runs -/

/-- The observer does nothing to a tree but what the recorder may do. -/
def Bears (r : Recorder) (o : Observer τ) : Prop :=
  ∀ S place e w v, r.dir.Charted r.cwd S place v → Jots S v (o.notify e w v).2

theorem bears_hearing (r : Recorder) (f : τ → Event → τ) : Bears r (.hearing f) :=
  fun S _ _ _ v _ => .refl S v

theorem bears_observer (r : Recorder) : Bears r r.observer :=
  fun _ _ e w _ hcharted => Recorder.jots_notify hcharted e w

theorem bears_wrapping (r : Recorder) (f : τ → Event → τ) : Bears r (r.wrapping (.hearing f)) :=
  fun _ _ e w _ hcharted => Recorder.jots_notify hcharted e w.2

/-- The trees of the runs are related by `P`, and the same has been told. -/
structure Alongside (P : Tree → Tree → Prop) (p : Progress σ) (p' : Progress τ) : Prop where
  trees : P p.tree p'.tree
  events : List.Forall₂ (Event.Alike Eq) (events p.trace) (events p'.trace)

section Alongside

variable {s : Setup σ} {c : Scene} {o : Observer τ} {p : Progress Unit} {p' : Progress τ}
  (clock clock' : Clock) (hfits : c.Fits s) (ho : Bears c.recorder o)

theorem emit_alongside {P : Tree → Tree → Prop} {e e' : Event}
    (hP : ∀ u v, P u v → P u (o.notify e' p'.watch v).2) (he : Event.Alike Eq e e')
    (hp : Alongside P p p') :
    Alongside P (emit (s.observedBy .silent clock) e p) (emit (s.observedBy o clock') e' p') :=
  ⟨hP _ _ hp.trees, .cons he hp.events⟩

include hfits ho

theorem emit_twins {e e' : Event} (he : Event.Alike Eq e e') (hp : Alongside (Twins s c) p p') :
    Alongside (Twins s c) (emit (s.observedBy .silent clock) e p)
      (emit (s.observedBy o clock') e' p') :=
  emit_alongside clock clock' (fun _ _ h => h.told hfits (ho _ _ e' _ _ h.charted)) he hp

theorem emit_paired {e e' : Event} (he : Event.Alike Eq e e') (hp : Alongside (Paired s c) p p') :
    Alongside (Paired s c) (emit (s.observedBy .silent clock) e p)
      (emit (s.observedBy o clock') e' p') :=
  emit_alongside clock clock' (fun _ _ h => h.told hfits (ho _ _ e' _ _ h.charted)) he hp

/-- **An iteration** gives the same up to the reply of the executor. -/
theorem turn_alongside (hexec : s.Secluded c.place) (i : Nat) (hp : Alongside (Paired s c) p p') :
    let a := turn (s.observedBy .silent clock) i p
    let b := turn (s.observedBy o clock') i p'
    a.inputs = b.inputs ∧ a.history = b.history ∧ a.reply.exit = b.reply.exit ∧
      a.reply.cancels = b.reply.cancels ∧ Paired s c a.reply.tree b.reply.tree := by
  intro a b
  obtain ⟨hinputs, hhistory, harchived⟩ := hp.trees.archive hfits (UInt32.ofNat i)
  have htold : Paired s c a.before b.before := harchived.told hfits (ho _ _ _ _ _ harchived.charted)
  obtain ⟨hexit, hcancels, hreply⟩ := htold.invoke hfits hexec i
  exact ⟨hinputs, hhistory, hexit, hcancels, hreply⟩

/-- **The two loops** keep the trees paired, and end with twins. -/
theorem coupled_of_fits (hexec : s.Secluded c.place) :
    Coupled Eq (s.observedBy .silent clock) (s.observedBy o clock') (Alongside (Paired s c))
      (Alongside (Twins s c)) where
  id := rfl
  ends hp := ⟨hp.trees.toTwins, hp.events⟩
  told he hp := emit_paired clock clock' hfits ho he hp
  last he hp := emit_twins clock clock' hfits ho he hp
  turn {p p'} i hp := by
    obtain ⟨hinputs, hhistory, hexit, hcancels, hreply⟩ :=
      turn_alongside clock clock' hfits ho hexec i hp
    refine ⟨hinputs, hhistory, ?_, hcancels, hreply.signal hfits, hreply,
      .cons (.iterationStart _ _ _ _) hp.events⟩
    rw [← hexit]
    cases (turn (s.observedBy .silent clock) i p).reply.exit with
    | error cause => exact .fails cause
    | ok code => exact .gives rfl

theorem locked_alongside (hexec : s.Secluded c.place) (asked : Bool) (hform : p.tree.WellFormed)
    (hend : Unfollowed s.session.workDir c.place p.tree) (hp : Alongside (Twins s c) p p') :
    LoopAlike Eq (Alongside (Twins s c)) (locked (s.observedBy .silent clock) asked p)
      (locked (s.observedBy o clock') asked p') := by
  have hstart : Alongside (Twins s c)
      (emit (s.observedBy .silent clock) (sessionEvent (s.observedBy .silent clock)) p)
      (emit (s.observedBy o clock') (sessionEvent (s.observedBy o clock')) p') :=
    emit_twins clock clock' hfits ho (.sessionStart _ _ _) hp
  obtain ⟨hsame, htwins, hpaired⟩ := hstart.trees.reset hfits hform hend
  cases hr : (s.workspace.reset s.host.cwd (emit (s.observedBy .silent clock)
      (sessionEvent (s.observedBy .silent clock)) p).tree).2 with
  | error cause =>
    rw [locked_failed asked (Prod.ext rfl hr),
      locked_failed asked (Prod.ext rfl (hsame.symm.trans hr))]
    exact (coupled_of_fits clock clock' hfits ho hexec).abort 0 cause ⟨htwins, hstart.events⟩
  | ok =>
    rw [locked_reset asked (Prod.ext rfl hr),
      locked_reset asked (Prod.ext rfl (hsame.symm.trans hr))]
    exact (coupled_of_fits clock clock' hfits ho hexec).iterate _ _ _ _ _ _ _ .nil
      ⟨hpaired hr, hstart.events⟩

end Alongside

/-! ## Whole runs -/

/-- The runs have the same result and report, leave the same working directory and have told the
    same, apart from what the clocks told. -/
structure Undisturbed (place : Loc) (a : Ended σ) (b : Ended τ) : Prop where
  result : SameEnd (Report.Alike Eq) a.result b.result
  contents : SameContents place a.tree b.tree
  events : List.Forall₂ (Event.Alike Eq) (events a.trace) (events b.trace)

section Whole

variable {s : Setup σ} {c : Scene} {o : Observer τ} {t held : Tree} {lock : Lock}

/-- **Runs that hold the lock** end alike. -/
theorem undisturbed_of_acquired (clock clock' : Clock) (hfits : c.Fits s) (ho : Bears c.recorder o)
    (hexec : s.Secluded c.place) (asked : Bool) (w : τ) (hform : held.WellFormed)
    (hacquire : Lock.acquire s.host s.session.workDir t = (held, .ok lock))
    (hend : Unfollowed s.session.workDir c.place held) (htwins : Twins s c held held) :
    Undisturbed c.place (run (s.observedBy .silent clock) asked () t)
      (run (s.observedBy o clock') asked w t) := by
  have hpath := Lock.path_of_acquire hacquire
  have hlocked : LoopAlike Eq (Alongside (Twins s c))
      (locked (s.observedBy .silent clock) asked ⟨held, (), []⟩)
      (locked (s.observedBy o clock') asked ⟨held, w, []⟩) :=
    locked_alongside clock clock' hfits ho hexec asked hform hend ⟨htwins, .nil⟩
  have htrees := hlocked.progress.trees
  have hleft := sameContents_release hfits htrees.left hpath
  have hright := sameContents_release hfits htrees.right hpath
  rw [run_locked (s := s.observedBy .silent clock) asked () hacquire,
    run_locked (s := s.observedBy o clock') asked w hacquire]
  refine ⟨hlocked.result, hleft.symm.trans (htrees.sameContents.trans hright), ?_⟩
  rw [events_reverse, events_reverse]
  exact List.forall₂_reverse_iff.mpr hlocked.progress.events

end Whole

/-! ## Ways to the two directories -/

/-- There are no links in the tree, and the path of the state directory goes down only, so that the
    two directories are where their paths say. -/
structure WaysStraight (s : Setup σ) (r : Recorder) (place S : Loc) (t : Tree) : Prop where
  linkFree : t.LinkFree
  no_up : ".." ∉ (Path.route r.dir.root).steps
  work : goal s.host.cwd s.session.workDir = place
  state : goal r.cwd r.dir.root = S

/-- The lock is held.  Its path and that of the state directory do not lead through the working
    directory; the working directory is no link that its own path follows, and the files of the
    state directory are none. -/
structure WaysApart (s : Setup σ) (r : Recorder) (place S : Loc) (held : Tree) : Prop where
  lock : ∃ stem d name, Path.fileName? s.session.workDir = some stem ∧ place = stem :: d ∧
    Lock.Apart s.host s.session.workDir held place d name
  unfollowed : Unfollowed s.session.workDir place held
  heads : ∃ e rest, Heads (held.without place) r.cwd r.dir.root e rest ∧ descend e rest = S ∧
    FreeBetween held e S
  files : ∀ name ∈ StateDir.fileNames, ∀ target, held.node? (name :: S) ≠ some (.link target)

section Ways

variable {s : Setup σ} {r : Recorder} {place S : Loc} {t held : Tree}

theorem WaysStraight.apart (h : WaysStraight s r place S t)
    (hdown : Path.IsDescent s.session.workDir)
    {d : Loc} {name : String} (htakes : Lock.Takes s.host s.session.workDir t held d name) :
    WaysApart s r place S held := by
  have hlinks : held.LinkFree := (Lock.spares_taken [] h.linkFree htakes).1.linkFree
  obtain ⟨stem, hstem⟩ := hdown.fileName?
  have hapart := Lock.apart_of_names htakes.names hlinks hdown hstem
  -- the lock is in the directory that the parent path stands for
  obtain ⟨q, hparent, -, hgoal⟩ := Tree.goal_of_fileName hstem s.host.cwd
  obtain ⟨q', hbeside⟩ := hapart.beside hstem
  obtain rfl : q' = q := Option.some.inj (hbeside.parent.symm.trans hparent)
  obtain ⟨n, -, hlead⟩ := hbeside.way
  have hup : ".." ∉ (Path.route q').steps := by
    obtain ⟨-, rest, hrest, -⟩ := Path.route_parent hparent
    exact fun hmem => hdown.no_up (hrest ▸ List.mem_append_left _ hmem)
  have hd : d = goal s.host.cwd q' :=
    (hlead.mono (Tree.within_without held _).keeps).eq_descend hup (hlinks.between _ _)
  obtain rfl : place = stem :: d := by rw [← h.work, hgoal, hd]
  exact ⟨⟨stem, d, name, hstem, rfl, hapart⟩, .inl fun target => hlinks _ target,
    ⟨_, _, Tree.heads_start _ _ h.no_up, h.state, hlinks.between _ _⟩, fun name _ target =>
      hlinks _ target⟩

theorem unshared_of_takes (h : Unshared place S t) {d : Loc} {name : String}
    (htakes : Lock.Takes s.host s.session.workDir t held d name) : Unshared place S held := by
  have hshared : ∀ loc id, held.node? loc = some (.shared id) → t.node? loc =
      some (.shared id) := by
    intro loc id hnode
    have hne : loc ≠ name :: d := by
      rintro rfl
      rw [htakes.file] at hnode
      cases hnode
    rw [htakes.elsewhere loc hne] at hnode
    exact (Lock.adds_prepare _ _ _).node?_of_some hnode (fun hfolder => by cases hfolder)
  rintro id ⟨file, hfile, hnode⟩ loc hin hnode'
  exact h id ⟨file, hfile, hshared _ _ hnode⟩ loc hin (hshared _ _ hnode')

theorem WaysApart.scene (h : WaysApart s r place S held) (hform : held.WellFormed)
    (hclear : Clear place S) (hshared : Unshared place S held) :
    ∃ c : Scene, c.place = place ∧ c.recorder = r ∧ c.Fits s ∧ Twins s c held held := by
  obtain ⟨stem, d, name, hstem, rfl, hapart⟩ := h.lock
  obtain ⟨q, after, hends⟩ := Path.ends_of_fileName hstem
  obtain ⟨q', hbeside⟩ := hapart.beside hstem
  obtain rfl : q' = q := Option.some.inj (hbeside.parent.symm.trans hends.parent)
  have hisName : IsName stem := by
    have hnames := hapart.names
    rw [Lock.pathFor_of_fileName hstem hends.parent] at hnames
    obtain rfl := Lock.name_of_join hnames (Lock.isPlain_lock (Path.no_slash_of_fileName? hstem))
    have hfits := hnames.isName.fits
    rw [String.utf8ByteSize_append] at hfits
    exact ⟨hends.ne_dot, hends.ne_up, by omega⟩
  have hlodged : Lodged s.host.cwd s.session.workDir q' d (stem :: d) held :=
    ⟨hbeside, hform.paved ((Tree.within_without held _).keeps.isFolderAt hbeside.folder)⟩
  refine ⟨⟨stem, q', after, d, r, S⟩, rfl, rfl, ⟨hstem, hends, hisName, hclear⟩,
    ⟨⟨fun _ _ => rfl, fun _ _ _ _ => rfl⟩, hlodged, hlodged, ⟨h.heads, h.files, ?_⟩, hshared⟩⟩
  exact fun name _ hfolder => hform.isLeaf hfolder

/-- **A run ends alike under every observer** that does nothing but what the recorder may do. -/
theorem undisturbed {o : Observer τ} (ho : Bears r o) (clock clock' : Clock) (asked : Bool) (w : τ)
    (hform : t.WellFormed) (hdown : Path.IsDescent s.session.workDir) (hexec : s.Secluded place)
    (hclear : Clear place S) (hshared : Unshared place S t)
    (hways : WaysStraight s r place S t ∨ ∀ held lock,
      Lock.acquire s.host s.session.workDir t = (held, .ok lock) → WaysApart s r place S held) :
    Undisturbed place (run (s.observedBy .silent clock) asked () t)
      (run (s.observedBy o clock') asked w t) := by
  cases hacquire : Lock.acquire s.host s.session.workDir t with
  | mk held result =>
    cases result with
    | error cause =>
      rw [run_refused (s := s.observedBy .silent clock) asked () hacquire,
        run_refused (s := s.observedBy o clock') asked w hacquire]
      exact ⟨.fails cause, ⟨fun _ _ => rfl, fun _ _ => rfl⟩, .nil⟩
    | ok lock =>
      obtain ⟨d, name, htakes⟩ := Lock.acquire_eq_ok hacquire
      have hform' := Lock.wellFormed_acquire hform hacquire
      have hapart : WaysApart s r place S held := by
        rcases hways with hstraight | hways
        · exact hstraight.apart hdown htakes
        · exact hways held lock hacquire
      obtain ⟨c, rfl, rfl, hfits, htwins⟩ :=
        hapart.scene hform' hclear (unshared_of_takes hshared htakes)
      exact undisturbed_of_acquired clock clock' hfits ho hexec asked w hform' hacquire
        hapart.unfollowed
        htwins

end Ways

/-! ## Sessions with a script -/

section Script

variable {d : Loc} {t t' : Tree}

theorem nodes_edit (h : ∀ loc, d <:+ loc → t.node? loc = t'.node? loc)
    (change : String × Option ByteArray) :
    ∀ loc, d <:+ loc → (edit d t change).node? loc = (edit d t' change).node? loc := by
  intro loc hin
  have hne : change.1 :: d ≠ [] := List.cons_ne_nil _ _
  rw [edit, edit, ← h d (List.suffix_refl d), ← h _ (List.suffix_cons change.1 d)]
  by_cases heq : loc = change.1 :: d
  · subst heq
    split
    · rw [Tree.node?_put_self t hne, Tree.node?_put_self t' hne]
    · rw [Tree.node?_put_self t hne, Tree.node?_put_self t' hne]
    · rw [Tree.node?_erase_self t hne, Tree.node?_erase_self t' hne]
    · exact h _ hin
  · split
    · rw [Tree.node?_put_ne t heq, Tree.node?_put_ne t' heq, h loc hin]
    · rw [Tree.node?_put_ne t heq, Tree.node?_put_ne t' heq, h loc hin]
    · rw [Tree.node?_erase_ne t heq, Tree.node?_erase_ne t' heq, h loc hin]
    · exact h loc hin

theorem nodes_edits (changes : List (String × Option ByteArray)) :
    ∀ t t' : Tree, (∀ loc, d <:+ loc → t.node? loc = t'.node? loc) → ∀ loc, d <:+ loc →
      (changes.foldl (edit d) t).node? loc = (changes.foldl (edit d) t').node? loc := by
  induction changes with
  | nil => exact fun _ _ h => h
  | cons change changes ih => exact fun t t' h => ih _ _ (nodes_edit h change)

variable {place : Loc} (workDir : String) (budget : UInt32)
  (script : Nat → List (String × Option ByteArray))

/-- What is edited is the working directory, whichever way leads there. -/
theorem tree_invoke_hosted (n : Nat) (h : (scriptedSession workDir budget script).Hosts place t) :
    ((scriptedSession workDir budget script).executor.invoke n t).tree =
      (script n).foldl (edit place) t := by
  by_cases hfolder : t.isFolderAt place = true
  · exact tree_invoke_scriptedSession budget script n ((h.leads place).mpr ⟨rfl, hfolder⟩).lookup
  · have hno : t.node? place ≠ some .folder := fun hnode =>
      hfolder (by rw [Tree.isFolderAt, hnode]; rfl)
    rw [edits_eq_self hno]
    cases hfind : t.lookup loneHost.cwd true workDir with
    | error f => simp only [scriptedSession, hfind]
    | ok d =>
      rw [tree_invoke_scriptedSession budget script n hfind]
      refine edits_eq_self (fun hnode => hfolder ?_) _
      have hreach := Tree.reaches_of_lookup hfind rfl (by rw [Tree.isFolderAt, hnode]; rfl)
      exact ((h.leads d).mp hreach).2

theorem secluded_scriptedSession (place : Loc) :
    (scriptedSession workDir budget script).Secluded place := by
  refine ⟨fun n t h => ?_, fun n t t' h h' hsame => ⟨rfl, rfl, ?_⟩⟩
  · rw [tree_invoke_hosted workDir budget script n h]
    exact changesInside_edits place _ t
  · rw [tree_invoke_hosted workDir budget script n h, tree_invoke_hosted workDir budget script n h']
    exact (h.plain.step (changesInside_edits place _ t)).sameContents
      (nodes_edits (script n) t t' hsame.nodes)

end Script

/-! ## The four runs -/

/-- The runs of a session that nobody observes, that is heard, that is recorded, and that is
    recorded by a recorder that passes all on. -/
structure NotInfluenced (s : Setup Unit) (r : Recorder) (f : τ → Event → τ) (w : τ)
    (record : Current)
    (clock₁ clock₂ clock₃ : Clock) (asked : Bool) (t : Tree) (place : Loc) : Prop where
  heard : Undisturbed place (run (s.observedBy .silent s.clock) asked () t)
    (run (s.observedBy (.hearing f) clock₁) asked w t)
  recorded : Undisturbed place (run (s.observedBy .silent s.clock) asked () t)
    (run (s.observedBy r.observer clock₂) asked record t)
  passedOn : Undisturbed place (run (s.observedBy .silent s.clock) asked () t)
    (run (s.observedBy (r.wrapping (.hearing f)) clock₃) asked (w, record) t)
  /-- Who hears the run, hears exactly what it tells. -/
  hears : (run (s.observedBy (.hearing f) clock₁) asked w t).watch =
    (events (run (s.observedBy (.hearing f) clock₁) asked w t).trace).foldl f w
  /-- So does the one to whom the recorder passes all on. -/
  hearsOn : (run (s.observedBy (r.wrapping (.hearing f)) clock₃) asked (w, record) t).watch.1 =
    (events (run (s.observedBy (r.wrapping (.hearing f)) clock₃) asked (w, record) t).trace).foldl f
      w
  /-- The renderer prints the lines that the program shows of a run that nobody observes. -/
  prints : (run (s.observedBy .renderer clock₁) asked Console.empty t).watch =
    Program.traceOutput false
    ((run (s.observedBy .silent clock₁) asked () t).trace.filter Moment.isEvent)
  /-- Inside a recorder it prints those that the program shows of a run that is recorded. -/
  printsOn : (run (s.observedBy (r.wrapping .renderer) clock₃) asked
    (Console.empty, record) t).watch.1 =
    Program.traceOutput false
      ((run (s.observedBy r.observer clock₃) asked record t).trace.filter Moment.isEvent)

/-- **Observers never influence a run.**  Whether a run is not observed, is heard by one who keeps
    what is told, is recorded in a state directory in whatever condition, or is recorded by a
    recorder that passes all on: it has the same result and the same report, leaves the same in the
    working directory and tells the same, apart from what the clocks told; and who hears it, hears
    exactly what it tells.  One who hears is the renderer, which prints what the program shows. -/
theorem observers_never_influence (s : Setup Unit) (r : Recorder) (f : τ → Event → τ) (w : τ)
    (record : Current) (clock₁ clock₂ clock₃ : Clock) (asked : Bool) (t : Tree) (place S : Loc)
    (hform : t.WellFormed) (hdown : Path.IsDescent s.session.workDir) (hexec : s.Secluded place)
    (hclear : Clear place S) (hshared : Unshared place S t)
    (hways : WaysStraight s r place S t ∨ ∀ held lock,
      Lock.acquire s.host s.session.workDir t = (held, .ok lock) → WaysApart s r place S held) :
    NotInfluenced s r f w record clock₁ clock₂ clock₃ asked t place where
  heard := undisturbed (bears_hearing r f) s.clock clock₁ asked w hform hdown hexec
    hclear hshared hways
  recorded := undisturbed (bears_observer r) s.clock clock₂ asked record hform hdown
    hexec hclear hshared
    hways
  passedOn := undisturbed (bears_wrapping r f) s.clock clock₃ asked
    (w, record) hform hdown hexec hclear
    hshared hways
  hears := heard_hearing s f clock₁ asked w t
  hearsOn := heard_wrapping s r f clock₃ asked (w, record) t
  prints := printed_renderer s clock₁ asked t
  printsOn := printed_wrapping s r clock₃ asked record t

/-- A used working directory, and a state directory in which a directory has the name of the record
    and the journal is no text. -/
def spoiltTree : Tree :=
  ((Lock.usedTree.put ["state"] .folder).put [StateDir.currentName, "state"] .folder).put
    [StateDir.journalName, "state"] (.file ⟨⟨#[255]⟩, false⟩)

/-- The same with a link to the directory that the working directory is in. -/
def detouredTree : Tree := spoiltTree.put ["l"] (.link "s")

/-- The session of `mixedScript`, in a working directory that its path reaches by the link. -/
def detouredSession : Setup Unit := scriptedSession "l/w" 2 mixedScript

/-- A recorder whose path goes by the link and back. -/
def detouredRecorder : Recorder := ⟨⟨"l/../state"⟩, [], "then"⟩

theorem wellFormed_spoiltTree : spoiltTree.WellFormed :=
  Tree.wellFormed_of_entries (by decide +kernel)

theorem linkFree_spoiltTree : spoiltTree.LinkFree :=
  Tree.linkFree_of_entries (by decide +kernel)

theorem wellFormed_detouredTree : detouredTree.WellFormed :=
  Tree.wellFormed_of_entries (by decide +kernel)

theorem clear_state : Clear ["w", "s"] ["state"] := by
  rw [Clear]
  decide

/-- The tree in which the session holds its lock. -/
def detouredLocked : Tree := (Lock.acquire loneHost "l/w" detouredTree).1

theorem waysApart_detouredLocked :
    WaysApart detouredSession detouredRecorder ["w", "s"] ["state"] detouredLocked := by
  have hlock : (detouredLocked.without ["w", "s"]).resolve [] false "l/w.lock" =
      .ok ⟨.entry ["s"] "w.lock", false⟩ := by decide +kernel
  have hfound : (detouredLocked.without ["w", "s"]).lookup [] true "l/.." = .ok [] := by
    decide +kernel
  have hback := Tree.reaches_of_lookup hfound rfl (by decide +kernel)
  have hfolders : detouredLocked.node? ["w", "s"] = some .folder ∧
      detouredLocked.node? ["state"] = some .folder := by decide +kernel
  obtain ⟨n, hn, hlead⟩ := hback.way
  refine ⟨⟨"w", ["s"], "w.lock", by decide +kernel, rfl,
    (Tree.names_of_resolve hlock).1, by decide⟩, .inl fun target hnode => ?_, ⟨[], ["state"],
      ⟨by decide, ["l", ".."], by decide +kernel, n, hn, hlead⟩,
      rfl, fun loc target _ hway hnode => ?_⟩, fun name hname target hnode => ?_⟩
  · rw [hfolders.1] at hnode
    cases hnode
  · rcases List.suffix_cons_iff.mp hway with rfl | hroot
    · rw [hfolders.2] at hnode
      cases hnode
    · rw [List.suffix_nil.mp hroot] at hnode
      cases hnode
  · have hnone : ∀ name ∈ StateDir.fileNames,
        (detouredLocked.node? [name, "state"]).all (fun node => !node.isAlias) =
          true := by decide +kernel
    have hno := hnone name hname
    rw [hnode] at hno
    cases hno

theorem unshared_of_no_alias {place S : Loc} {t : Tree} (h : ∀ name ∈ StateDir.fileNames,
    (t.node? (name :: S)).all (fun node => !node.isAlias) = true) : Unshared place S t := by
  rintro id ⟨name, hname, hnode⟩
  have hno := h name hname
  rw [hnode] at hno
  cases hno

/-- A session of two iterations that prints what it tells and is recorded in a spoilt state
    directory, and one whose directories are reached by a link. -/
theorem mixedScript_not_influenced :
    let clock : Clock := ⟨fun _ => ⟨2, 0, 0, 0, 0⟩, fun _ => Duration.ofSeconds 9⟩
    let record := Recorder.pending (scriptedSession "s/w" 2 mixedScript).session "now"
    (run ((scriptedSession "s/w" 2 mixedScript).observedBy .renderer clock) false Console.empty
        spoiltTree).watch.err =
        "[iter 1] exit=0 9.0s history=true backtrack=false\n" ++
          "[iter 2] exit=0 9.0s history=true backtrack=false\n" ++
          "[done] budget_exhausted after 2 invocation(s)\n" ∧
      NotInfluenced (scriptedSession "s/w" 2 mixedScript) stateRecorder Console.print
        Console.empty record
        clock clock clock false spoiltTree ["w", "s"] ∧
      NotInfluenced detouredSession detouredRecorder Console.print Console.empty record
        clock clock clock
        false detouredTree ["w", "s"] := by
  have hdown : Path.IsDescent "s/w" ∧ Path.IsDescent "l/w" :=
    ⟨⟨⟨"w", by decide, by decide⟩, by decide⟩, ⟨"w", by decide, by decide⟩, by decide⟩
  have hstraight : WaysStraight (scriptedSession "s/w" 2 mixedScript) stateRecorder
      ["w", "s"] ["state"]
      spoiltTree := ⟨linkFree_spoiltTree, by decide, by decide +kernel, by decide +kernel⟩
  have hacquire : Lock.acquire loneHost "l/w" detouredTree = (detouredLocked, .ok ⟨"l/w.lock"⟩) :=
    Lock.acquire_of_toOption (by decide +kernel)
  have hapart : ∀ held lock, Lock.acquire loneHost "l/w" detouredTree = (held, .ok lock) →
      WaysApart detouredSession detouredRecorder ["w", "s"] ["state"] held := by
    intro held lock hheld
    obtain rfl : detouredLocked = held := congrArg Prod.fst (hacquire.symm.trans hheld)
    exact waysApart_detouredLocked
  refine ⟨by decide +kernel, ?_, ?_⟩
  · exact observers_never_influence _ _ _ _ _ _ _ _ _ _ _ ["state"] wellFormed_spoiltTree hdown.1
      (secluded_scriptedSession "s/w" 2 mixedScript _) clear_state
      (unshared_of_no_alias (by decide +kernel))
      (.inl hstraight)
  · exact observers_never_influence _ _ _ _ _ _ _ _ _ _ _ ["state"] wellFormed_detouredTree hdown.2
      (secluded_scriptedSession "l/w" 2 mixedScript _) clear_state
      (unshared_of_no_alias (by decide +kernel))
      (.inr hapart)

/-- The run of a session that does nothing in `w`, recorded in the directory `root`. -/
def idleRecorded (root : String) (t : Tree) : Ended Current :=
  run ((idleSession "w").observedBy (Recorder.mk ⟨root⟩ [] "then").observer
    (idleSession "w").clock) false
    (Recorder.pending (idleSession "w").session "now") t

/-- A state directory whose temporary file is a link into the working directory. -/
def borrowingTree : Tree :=
  (Tree.empty.put ["t"] .folder).put [".current-session.json.tmp", "t"] (.link "../w/inputs")

/-- A state directory whose temporary file is, by another name, what stands in the place of the
    working directory. -/
def sharingTree : Tree :=
  { (((Tree.empty.put ["t"] .folder).put ["w"] (.shared 0)).put [".current-session.json.tmp", "t"]
      (.shared 0)) with pool := [(0, ⟨"a".toUTF8, false⟩)] }

/-- **A recorder can reach the working directory** although its state directory `t` is apart from
    it: if its path goes through the working directory and makes a directory there, if one of its
    files is a link that leads there, or if one of them is, by another name, the file that stands
    there. -/
theorem recorder_reaches_working_directory :
    Clear ["w"] ["t"] ∧ (idleSession "w").Secluded ["w"] ∧
      ((run (idleSession "w") false () Tree.empty).tree.node? ["history", "w"] = none ∧
        (idleRecorded "w/history/../../t" Tree.empty).tree.node? ["history", "w"] = some .folder) ∧
      ((run (idleSession "w") false () borrowingTree).tree.node? ["inputs", "w"] = none ∧
        (idleRecorded "t" borrowingTree).tree.node? ["inputs", "w"] ≠ none) ∧
      ((run (idleSession "w") false () sharingTree).tree.blob? ["w"] = some ⟨"a".toUTF8, false⟩ ∧
        (idleRecorded "t" sharingTree).tree.blob? ["w"] ≠ some ⟨"a".toUTF8, false⟩) := by
  have hclear : Clear ["w"] ["t"] := by
    rw [Clear]
    decide
  exact ⟨hclear, secluded_scriptedSession "w" 1 _ ["w"], by decide +kernel, by decide +kernel,
    by decide +kernel⟩

end Concolic.Run
