import Concolic.Proofs.Locality

/-
  Sites: where a session is, and what is apart from it.

  Whoever follows a session on a tree that others change too compares it with a tree of its own, in
  which directories on the way may be missing (`Shadows`).
-/

namespace Concolic

namespace Tree

variable {t t' u v : Tree} {e loc place : Loc}

/-- All directories on the way to `e` are there, and `e` too. -/
def Paved (e : Loc) (t : Tree) : Prop := ∀ loc, loc <:+ e → t.isFolderAt loc = true

theorem WellFormed.paved (h : t.WellFormed) (hfolder : t.isFolderAt e = true) : Paved e t := by
  induction e with
  | nil =>
    intro loc hloc
    rw [List.suffix_nil.mp hloc]
    exact hfolder
  | cons name e ih =>
    intro loc hloc
    rcases List.suffix_cons_iff.mp hloc with rfl | hloc
    · exact hfolder
    · obtain ⟨node, hnode, -⟩ := isFolderAt_iff.mp hfolder
      exact ih (h.placed hnode) loc hloc

theorem not_cons_suffix (name : String) (h : loc <:+ e) : ¬ name :: e <:+ loc := by
  intro hin
  have hlength := (hin.trans h).length_le
  rw [List.length_cons] at hlength
  omega

theorem Paved.works {name : String} (h : Paved e t) (hworks : Works (name :: e) t t') :
    Paved e t' := by
  intro loc hloc
  rw [isFolderAt, hworks.inside.outside loc (not_cons_suffix name hloc)]
  exact h loc hloc

theorem Paved.grows {e' : Loc} (h : Paved e t) (hgrows : Grows e' t t') : Paved e t' := by
  intro loc hloc
  obtain ⟨node, hnode, hfolder⟩ := isFolderAt_iff.mp (h loc hloc)
  exact isFolderAt_iff.mpr ⟨node, hgrows.of_some hnode, hfolder⟩

theorem Agree.works {K : Loc → Prop} {u' v' : Tree} (h : Agree K u v) (hu : Works place u u')
    (hv : Works place v v') (hin : ∀ loc, place <:+ loc → u'.node? loc = v'.node? loc) :
    Agree K u' v' := by
  refine ⟨fun loc hloc => ?_, fun loc id hloc hshared => ?_⟩
  · by_cases hplace : place <:+ loc
    · exact hin loc hplace
    · rw [hu.inside.outside loc hplace, hv.inside.outside loc hplace, h.nodes loc hloc]
  · rw [hu.pool, hv.pool, h.pool loc id hloc (hu.inside.aliases loc _ hshared rfl)]

/-- There is the same in the place, and its files have the same contents. -/
structure SameContents (place : Loc) (t t' : Tree) : Prop where
  nodes : ∀ loc, place <:+ loc → t.node? loc = t'.node? loc
  files : ∀ loc, place <:+ loc → t.blob? loc = t'.blob? loc

theorem SameContents.symm (h : SameContents place t t') : SameContents place t' t :=
  ⟨fun loc hin => (h.nodes loc hin).symm, fun loc hin => (h.files loc hin).symm⟩

theorem SameContents.trans {t'' : Tree} (h : SameContents place t t')
    (h' : SameContents place t' t'') : SameContents place t t'' :=
  ⟨fun loc hin => (h.nodes loc hin).trans (h'.nodes loc hin),
    fun loc hin => (h.files loc hin).trans (h'.files loc hin)⟩

theorem Plain.sameContents (h : t.Plain place)
    (hnodes : ∀ loc, place <:+ loc → t.node? loc = t'.node? loc) : SameContents place t t' := by
  refine ⟨hnodes, fun loc hin => ?_⟩
  rw [blob?, blob?, ← hnodes loc hin]
  cases hnode : t.node? loc with
  | none => rfl
  | some node =>
    have halias := h loc node hin hnode
    cases node <;> first | rfl | cases halias

/-- A tree in which an executor may work in the place: the directories above are there, there are no
    links, and no file in the place has a second name. -/
structure Workable (place : Loc) (t : Tree) : Prop where
  linkFree : t.LinkFree
  plain : t.Plain place
  paved : Paved place.tail t

end Tree

/-! ## Sites -/

/-- Where a session is: its working directory and its lock file. -/
structure Site where
  work : Loc
  lock : Loc
  deriving DecidableEq

namespace Site

open Concolic.Tree (Agree Grows Made Paved Plain SameContents Sprouts Works)

variable {a b : Site} {t t' u u' v : Tree}

/-- The directory that both are in. -/
def dir (a : Site) : Loc := a.work.tail

/-- Both are in that directory. -/
structure Stands (a : Site) : Prop where
  work : ∃ name, a.work = name :: a.dir
  lock : ∃ name, a.lock = name :: a.dir

/-- Neither location is the other or inside of it. -/
def Unrelated (d e : Loc) : Prop := ¬ d <:+ e ∧ ¬ e <:+ d

instance (d e : Loc) : Decidable (Unrelated d e) :=
  inferInstanceAs (Decidable (¬ d <:+ e ∧ ¬ e <:+ d))

/-- No working directory and no lock file of one is, or is inside of, one of the other. -/
structure Apart (a b : Site) : Prop where
  works : Unrelated a.work b.work
  locks : Unrelated a.lock b.lock
  work_lock : Unrelated a.work b.lock
  lock_work : Unrelated a.lock b.work

theorem Apart.symm (h : a.Apart b) : b.Apart a :=
  ⟨h.works.symm, h.locks.symm, h.lock_work.symm, h.work_lock.symm⟩

/-- What a session looks at: the way to its working directory, what is in it, and the lock file. -/
def Territory (a : Site) (loc : Loc) : Prop := loc <:+ a.work ∨ a.work <:+ loc ∨ loc = a.lock

theorem Stands.dir_suffix (h : a.Stands) : a.dir <:+ a.work := by
  obtain ⟨name, hwork⟩ := h.work
  rw [hwork]
  exact List.suffix_cons name a.dir

theorem Stands.off_way (h : a.Stands) {loc : Loc} (hloc : loc <:+ a.dir) :
    ¬ a.work <:+ loc ∧ ¬ a.lock <:+ loc := by
  obtain ⟨name, hwork⟩ := h.work
  obtain ⟨name', hlock⟩ := h.lock
  rw [hwork, hlock]
  exact ⟨Tree.not_cons_suffix name hloc, Tree.not_cons_suffix name' hloc⟩

/-! ## What a step of a session touches -/

/-- Apart from its working directory and its lock file, a session only makes directories above. -/
structure Touches (a : Site) (t t' : Tree) : Prop where
  nodes : ∀ loc, t'.node? loc = t.node? loc ∨ a.work <:+ loc ∨ a.lock <:+ loc ∨
    (t.node? loc = none ∧ Made t' loc ∧ loc <:+ a.work)
  linkFree : t.LinkFree → t'.LinkFree
  pool : t'.pool = t.pool

theorem touches_refl (a : Site) (t : Tree) : a.Touches t t := ⟨fun _ => .inl rfl, id, rfl⟩

theorem touches_of_works_work (h : Works a.work t t') : a.Touches t t' := by
  refine ⟨fun loc => ?_, h.linkFree, h.pool⟩
  by_cases hin : a.work <:+ loc
  · exact .inr (.inl hin)
  · exact .inl (h.inside.outside loc hin)

theorem touches_of_works_lock (h : Works a.lock t t') : a.Touches t t' := by
  refine ⟨fun loc => ?_, h.linkFree, h.pool⟩
  by_cases hin : a.lock <:+ loc
  · exact .inr (.inr (.inl hin))
  · exact .inl (h.inside.outside loc hin)

theorem linkFree_of_grows {e : Loc} (h : Grows e t t') (ht : t.LinkFree) : t'.LinkFree := by
  intro loc target hlink
  rcases h loc with hsame | ⟨-, hmade, -⟩
  · exact ht loc target (hsame ▸ hlink)
  · rw [hmade.folder] at hlink
    cases hlink

/-- Removing the working directory and making it again, with those above. -/
theorem touches_of_works_grows (h : Works a.work t t') (h' : Grows a.work t' u)
    (hpool : u.pool = t'.pool) : a.Touches t u := by
  refine ⟨fun loc => ?_, fun ht => linkFree_of_grows h' (h.linkFree ht), hpool.trans h.pool⟩
  by_cases hin : a.work <:+ loc
  · exact .inr (.inl hin)
  have hsame := h.inside.outside loc hin
  rcases h' loc with hsame' | ⟨hnone, hmade, hway⟩
  · exact .inl (hsame'.trans hsame)
  · exact .inr (.inr (.inr ⟨hsame ▸ hnone, hmade, hway⟩))

theorem touches_of_grows_works (hstands : a.Stands) (h : Grows a.dir t t')
    (hpool : t'.pool = t.pool) (h' : Works a.lock t' u) : a.Touches t u := by
  refine ⟨fun loc => ?_, fun ht => h'.linkFree (linkFree_of_grows h ht), h'.pool.trans hpool⟩
  by_cases hin : a.lock <:+ loc
  · exact .inr (.inr (.inl hin))
  have hsame := h'.inside.outside loc hin
  rcases h loc with hsame' | ⟨hnone, hmade, hway⟩
  · exact .inl (hsame.trans hsame')
  · refine .inr (.inr (.inr ⟨hnone, ?_, hway.trans hstands.dir_suffix⟩))
    obtain ⟨name, d, rfl, hsize, hfolder⟩ := hmade.inside
    have hd : ¬ a.lock <:+ d := (hstands.off_way ((List.suffix_cons name d).trans hway)).2
    exact ⟨hsame.trans hmade.folder, name, d, rfl, hsize, (h'.inside.outside d hd).trans hfolder⟩

/-! ## The shared tree and the tree of a run alone -/

/-- `u` is to the session at `a` what `v` is, except that directories on the way may
    have been made. -/
structure Shadows (a : Site) (v u : Tree) : Prop where
  own : ∀ loc, a.work <:+ loc ∨ loc = a.lock → u.node? loc = v.node? loc
  way : Sprouts a.dir v u
  pool : u.pool = v.pool
  alone : v.LinkFree
  shared : u.LinkFree

theorem shadows_refl (a : Site) (h : t.LinkFree) : a.Shadows t t :=
  ⟨fun _ _ => rfl, .refl _ t, rfl, h, h⟩

/-- Once the way is there the two trees agree on all that the session looks at. -/
theorem Shadows.agree (h : a.Shadows v u) (hstands : a.Stands) (hpaved : Paved a.dir v) :
    Agree a.Territory u v := by
  refine ⟨fun loc hloc => ?_, fun _ _ _ _ => by rw [h.pool]⟩
  rcases hloc with hway | hin | hlock
  · obtain ⟨name, hwork⟩ := hstands.work
    rw [hwork] at hway
    rcases List.suffix_cons_iff.mp hway with rfl | hway
    · exact h.own _ (.inl (hwork ▸ List.suffix_refl _))
    · rcases h.way loc hway with hsame | ⟨hnone, -⟩
      · exact hsame
      · have hfolder := hpaved loc hway
        rw [Tree.isFolderAt_of_none hnone] at hfolder
        cases hfolder
  · exact h.own loc (.inl hin)
  · exact h.own loc (.inr hlock)

theorem shadows_of_agree (h : Agree a.Territory u v) (hstands : a.Stands) (hpool : u.pool = v.pool)
    (hv : v.LinkFree) (hu : u.LinkFree) : a.Shadows v u :=
  ⟨fun loc hloc => h.nodes loc (.inr hloc),
    fun loc hloc => .inl (h.nodes loc (.inl (hloc.trans hstands.dir_suffix))), hpool, hv, hu⟩

theorem Stands.node?_of_grows (h : a.Stands) (hgrows : Grows a.dir t t') {loc : Loc}
    (hloc : a.work <:+ loc ∨ loc = a.lock) : t'.node? loc = t.node? loc := by
  rcases hgrows loc with hsame | ⟨-, -, hway⟩
  · exact hsame
  · obtain ⟨hwork, hlock⟩ := h.off_way hway
    rcases hloc with hin | rfl
    · exact absurd hin hwork
    · exact absurd (List.suffix_refl _) hlock

theorem Shadows.sameContents (h : a.Shadows v u) : SameContents a.work v u := by
  refine ⟨fun loc hin => (h.own loc (.inl hin)).symm, fun loc hin => ?_⟩
  have hagree : Agree (fun loc => a.work <:+ loc) u v :=
    ⟨fun loc hin => h.own loc (.inl hin), fun _ _ _ _ => by rw [h.pool]⟩
  exact (hagree.blob? hin).symm

theorem Shadows.workable (h : a.Shadows v u) (hplain : v.Plain a.work) (hpaved : Paved a.dir v) :
    v.Workable a.work ∧ u.Workable a.work :=
  ⟨⟨h.alone, hplain, hpaved⟩, h.shared,
    fun loc node hin hnode => hplain loc node hin (h.own loc (.inl hin) ▸ hnode),
    fun loc hloc => h.way.isFolderAt hloc (hpaved loc hloc)⟩

/-- **What another session touches** is nothing to a session that is apart from it. -/
theorem Shadows.touched (h : a.Shadows v u) (hstands : a.Stands) (hapart : a.Apart b)
    (htouches : b.Touches u u') : a.Shadows v u' := by
  have hdir := hstands.dir_suffix
  refine ⟨fun loc hloc => ?_, fun loc hway => ?_, htouches.pool.trans h.pool, h.alone,
    htouches.linkFree h.shared⟩
  · rw [← h.own loc hloc]
    rcases htouches.nodes loc with hsame | hin | hin | ⟨-, -, hway⟩
    · exact hsame
    · rcases hloc with hown | rfl
      · rcases List.suffix_or_suffix_of_suffix hown hin with h' | h'
        · exact absurd h' hapart.works.1
        · exact absurd h' hapart.works.2
      · exact absurd hin hapart.lock_work.2
    · rcases hloc with hown | rfl
      · rcases List.suffix_or_suffix_of_suffix hown hin with h' | h'
        · exact absurd h' hapart.work_lock.1
        · exact absurd h' hapart.work_lock.2
      · exact absurd hin hapart.locks.2
    · rcases hloc with hown | rfl
      · exact absurd (hown.trans hway) hapart.works.1
      · exact absurd hway hapart.lock_work.1
  · -- what is on the way is outside of the other session's places
    have hout : ∀ {other : Loc}, other <:+ a.dir → ¬ b.work <:+ other ∧ ¬ b.lock <:+ other :=
      fun hother => ⟨fun hin => hapart.works.2 (hin.trans (hother.trans hdir)),
        fun hin => hapart.work_lock.2 (hin.trans (hother.trans hdir))⟩
    rcases htouches.nodes loc with hsame | hin | hin | ⟨hnone, hmade, -⟩
    · rcases h.way loc hway with hsame' | ⟨hnone, hmade⟩
      · exact .inl (hsame.trans hsame')
      · refine .inr ⟨hnone, hsame.trans hmade.folder, ?_⟩
        obtain ⟨name, d, rfl, hsize, hfolder⟩ := hmade.inside
        have hd : d <:+ a.dir := (List.suffix_cons name d).trans hway
        refine ⟨name, d, rfl, hsize, ?_⟩
        rcases htouches.nodes d with hsame | hin | hin | ⟨hnone, -⟩
        · rw [hsame, hfolder]
        · exact absurd hin (hout hd).1
        · exact absurd hin (hout hd).2
        · rw [hnone] at hfolder
          cases hfolder
    · exact absurd hin (hout hway).1
    · exact absurd hin (hout hway).2
    · refine .inr ⟨?_, hmade⟩
      rcases h.way loc hway with hsame' | ⟨hnone', -⟩
      · rw [← hsame', hnone]
      · exact hnone'

end Site

/-! ## The site of a session -/

section Descent

open Concolic.Tree (goal start)

variable {workDir stem : String}

theorem Tree.goal_of_fileName (hstem : Path.fileName? workDir = some stem) (cwd : Loc) :
    ∃ q, Path.parent? workDir = some q ∧ start cwd q = start cwd workDir ∧
      goal cwd workDir = stem :: goal cwd q := by
  obtain ⟨q, before, after, hparent, habs, hsteps, hbefore, hafter, hdot, -⟩ :=
    Path.route_fileName hstem
  have hstart : start cwd q = start cwd workDir := by rw [start, start, habs]
  refine ⟨q, hparent, hstart, ?_⟩
  rw [goal, goal, hsteps, Tree.descend_append, ← hstart, Tree.descend_append,
    Tree.descend_dots hbefore, Tree.descend, if_neg hdot, Tree.descend_dots hafter]

/-- The site of a session that is run in `cwd`. -/
def Site.of (cwd : Loc) (workDir : String) : Site :=
  ⟨goal cwd workDir, goal cwd (Lock.pathFor workDir)⟩

/-- The site is that of a working directory whose path goes down. -/
structure Site.Found (a : Site) (cwd : Loc) (workDir : String) : Prop where
  stands : a.Stands
  work : goal cwd workDir = a.work
  lock : goal cwd (Lock.pathFor workDir) = a.lock
  no_up : ".." ∉ (Path.route workDir).steps
  lock_no_up : ".." ∉ (Path.route (Lock.pathFor workDir)).steps
  start : start cwd (Lock.pathFor workDir) = start cwd workDir
  houses : ∃ dir, Lock.Houses cwd (Lock.pathFor workDir) dir ∧ goal cwd dir = a.dir

theorem Path.IsDescent.found (h : Path.IsDescent workDir) (cwd : Loc) :
    (Site.of cwd workDir).Found cwd workDir := by
  obtain ⟨stem, hstem⟩ := h.fileName?
  obtain ⟨q, hparent, hstart, hwork⟩ := Tree.goal_of_fileName hstem cwd
  have hplain := Lock.isPlain_lock (Path.no_slash_of_fileName? hstem)
  have hpath := Lock.pathFor_of_fileName hstem hparent
  obtain ⟨-, rest, hrest, -⟩ := Path.route_parent hparent
  have hsteps : (Path.route (Lock.pathFor workDir)).steps = (Path.route q).steps ++
      [stem ++ ".lock"] := by
    rw [hpath, Path.route_join q hplain]
  have hlength : (stem ++ ".lock").length = stem.length + 5 := by rw [String.length_append]; rfl
  have hdot : stem ++ ".lock" ≠ "." := fun heq => by
    rw [heq] at hlength
    have : ".".length = 1 := rfl
    omega
  have hdots : stem ++ ".lock" ≠ ".." := fun heq => by
    rw [heq] at hlength
    have : "..".length = 2 := rfl
    omega
  have hup : ".." ∉ (Path.route (Lock.pathFor workDir)).steps := by
    rw [hsteps]
    intro hmem
    rcases List.mem_append.mp hmem with hq | hlock
    · exact h.no_up (hrest ▸ List.mem_append_left _ hq)
    · exact hdots (List.mem_singleton.mp hlock).symm
  have hstart' : Tree.start cwd (Lock.pathFor workDir) = Tree.start cwd workDir := by
    rw [← hstart, Tree.start, Tree.start, hpath, Path.isAbsolute_join q hplain]
  have hlock : goal cwd (Lock.pathFor workDir) = (stem ++ ".lock") :: goal cwd q := by
    rw [goal, goal, hsteps, Tree.descend_append, hstart', hstart, Tree.descend, if_neg hdot]
    rfl
  have hdir : (Site.of cwd workDir).dir = goal cwd q := by
    rw [Site.dir, Site.of, hwork]
    rfl
  refine ⟨⟨⟨stem, ?_⟩, stem ++ ".lock", ?_⟩, by rw [Site.of], by rw [Site.of], h.no_up,
    hup, hstart', ?_⟩
  · rw [hdir, Site.of, hwork]
  · rw [hdir, Site.of, hlock]
  · -- the lock file is in a directory that goes down to the same place as `q`
    have hdescent : Path.IsDescent (Lock.pathFor workDir) :=
      ⟨⟨stem ++ ".lock", by simp [hsteps], hdot⟩, hup⟩
    obtain ⟨stem', hstem'⟩ := hdescent.fileName?
    obtain ⟨dir, hparent', -, hgoal⟩ := Tree.goal_of_fileName hstem' cwd
    refine ⟨dir, Lock.houses_of_parent hparent' hup, ?_⟩
    rw [hlock] at hgoal
    rw [hdir]
    exact (List.cons.inj hgoal).2.symm

end Descent

end Concolic
