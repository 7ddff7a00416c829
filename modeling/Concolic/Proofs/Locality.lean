import Concolic.Proofs.Lockstep
import Concolic.Proofs.Tree.Digging

/-
  What a session reads and what it changes.

  In a tree without links a session whose path goes down looks at the directories above its working
  directory, the lock file beside it, and what is in it.  Each of its operations gives the same
  answer in two trees that agree on what its path finds (`Meets`), and leaves two trees that agree
  again.
-/

namespace Concolic

theorem SameEnd.error_iff {ε α β : Type} {R : α → β → Prop} {a : Except ε α} {b : Except ε β}
    (h : SameEnd R a b) (cause : ε) : a = .error cause ↔ b = .error cause := by
  cases h with
  | fails other =>
    rw [Except.error.injEq, Except.error.injEq]
  | gives => constructor <;> intro he <;> cases he

namespace Tree

variable {t t' t'' u v : Tree} {K : Loc → Prop} {cwd d e loc place : Loc}
  {p q src dst name : String}

/-! ## Operations in two trees that agree -/

theorem Agree.extend (h : Agree K u v) (hloc : K loc) (bytes : ByteArray) :
    SameEnd (Agree K) (u.extend loc bytes) (v.extend loc bytes) := by
  rw [Tree.extend, Tree.extend, h.device? hloc, blobAt, blobAt, h.blob? hloc]
  split
  · split
    · exact .gives h
    · exact .fails _
  · exact .gives h
  · exact .gives (h.setBlob hloc _)

theorem Agree.makeFolder (h : Agree K u v) (hp : Meets K u v cwd p) :
    SameEnd (Agree K) (u.makeFolder cwd p) (v.makeFolder cwd p) := by
  rw [Tree.makeFolder, Tree.makeFolder, ← h.newLoc hp]
  cases u.newLoc cwd p true with
  | error f => exact .fails f
  | ok loc => exact .gives (h.put loc (by simp))

theorem Agree.attempt (h : Agree K u v) (hp : Meets K u v cwd p) :
    (u.attempt cwd p).2 = (v.attempt cwd p).2 ∧
    Agree K (u.attempt cwd p).1 (v.attempt cwd p).1 := by
  have hmake := h.makeFolder hp
  rw [Tree.attempt, Tree.attempt, h.isFolder hp]
  generalize u.makeFolder cwd p = a at hmake
  generalize v.makeFolder cwd p = b at hmake
  cases hmake with
  | fails f => exact ⟨rfl, h⟩
  | gives hmade => exact ⟨rfl, hmade⟩

theorem Agree.makeFirst (h : Agree K u v) (hu : u.LinkFree) (ps : List String)
    (hps : ∀ p ∈ ps, Stays K cwd p) :
    (u.makeFirst cwd ps).2 = (v.makeFirst cwd ps).2 ∧
      Agree K (u.makeFirst cwd ps).1 (v.makeFirst cwd ps).1 := by
  induction ps with
  | nil => exact ⟨rfl, h⟩
  | cons p up ih =>
    have hp := hps p List.mem_cons_self
    have hup := ih fun q hq => hps q (List.mem_cons_of_mem _ hq)
    by_cases hempty : p = ""
    · rw [Tree.makeFirst, Tree.makeFirst, if_pos hempty, if_pos hempty]
      exact ⟨rfl, h⟩
    have hmake := h.makeFolder (h.meets hu hp)
    by_cases hmissing : ∃ f, u.makeFolder cwd p = .error f ∧ f.kind = .notFound
    · obtain ⟨f, hfails, hkind⟩ := hmissing
      rw [makeFirst_of_missing hempty hfails hkind,
        makeFirst_of_missing hempty ((hmake.error_iff f).mp hfails) hkind]
      have hu' := hu.adds (adds_makeFirst u cwd up)
      revert hup hu'
      generalize u.makeFirst cwd up = a
      generalize v.makeFirst cwd up = b
      obtain ⟨u₁, r⟩ := a
      obtain ⟨v₁, r'⟩ := b
      rintro ⟨rfl, hagree⟩ hu'
      cases r with
      | error f' => exact ⟨rfl, hagree⟩
      | ok => exact hagree.attempt (hagree.meets hu' hp)
    · have hfound : ∀ f, u.makeFolder cwd p = .error f → f.kind ≠ .notFound :=
        fun f hfails hkind => hmissing ⟨f, hfails, hkind⟩
      rw [makeFirst_of_found hempty hfound,
        makeFirst_of_found hempty fun f hfails => hfound f ((hmake.error_iff f).mpr hfails)]
      exact h.attempt (h.meets hu hp)

theorem Agree.removeFile (h : Agree K u v) (hp : Meets K u v cwd p) :
    SameEnd (Agree K) (u.removeFile cwd p) (v.removeFile cwd p) := by
  rw [Tree.removeFile, Tree.removeFile, ← hp.resolve]
  cases hres : u.resolve cwd false p with
  | error f => exact .fails f
  | ok a =>
    have hloc := loc_of_spotIn (hp.inside false a hres)
    obtain ⟨spot, slash⟩ := a
    cases spot with
    | here d => exact .fails _
    | entry d name =>
      have hnode : u.node? (name :: d) = v.node? (name :: d) := h.nodes _ hloc
      simp only [bind, Except.bind, hnode]
      split
      · exact .fails _
      · split
        · exact .fails _
        · split
          · exact .fails _
          · exact .gives (h.erase _)

theorem isEmptyAt_clear (t : Tree) (d : Loc) : (t.clear d).isEmptyAt d = true := by
  rw [isEmptyAt, List.isEmpty_iff, names, List.filterMap_eq_nil_iff]
  intro entry hentry
  obtain ⟨loc, node⟩ := entry
  have hout : isBelow d loc = false := by
    simpa using (List.mem_filter.mp hentry).2
  cases loc with
  | nil => rfl
  | cons name up =>
    refine if_neg ?_
    rintro rfl
    rw [isBelow_cons name (List.suffix_refl _)] at hout
    cases hout

theorem Agree.removeFolder (h : Agree K u v) (hp : Meets K u v cwd p)
    (hempty : ∀ a, u.resolve cwd false p = .ok a → u.isEmptyAt a.spot.loc =
      v.isEmptyAt a.spot.loc) :
    SameEnd (Agree K) (u.removeFolder cwd p) (v.removeFolder cwd p) := by
  rw [Tree.removeFolder, Tree.removeFolder, ← hp.resolve]
  cases hres : u.resolve cwd false p with
  | error f => exact .fails f
  | ok a =>
    have hloc := loc_of_spotIn (hp.inside false a hres)
    have hinside := hempty a hres
    obtain ⟨spot, slash⟩ := a
    cases spot with
    | here d =>
      simp only [bind, Except.bind]
      split <;> exact .fails _
    | entry d name =>
      have hnode : u.node? (name :: d) = v.node? (name :: d) := h.nodes _ hloc
      have hinside : u.isEmptyAt (name :: d) = v.isEmptyAt (name :: d) := hinside
      simp only [bind, Except.bind, hnode, hinside]
      split
      · exact .fails _
      · split
        · exact .gives (h.erase _)
        · exact .fails _
      · exact .fails _
      · exact .fails _

/-- **Removing all that is at a path**, if it still shows the same once the directory is cleared. -/
theorem Agree.removeAll (h : Agree K u v) (hp : Meets K u v cwd p)
    (hclear : ∀ loc, u.lookup cwd false p = .ok loc → u.node? loc = some .folder →
      Meets K (u.clear loc) (v.clear loc) cwd p ∧
        ∀ a, (u.clear loc).resolve cwd false p = .ok a → a.spot.loc = loc) :
    Agree K (u.removeAll cwd p).1 (v.removeAll cwd p).1 := by
  rw [Tree.removeAll, Tree.removeAll, ← h.lookup hp]
  cases hlook : u.lookup cwd false p with
  | error f => exact h
  | ok loc =>
    simp only [← h.nodes _ (hp.of_lookup hlook)]
    split
    · have hfile := h.removeFile hp
      generalize u.removeFile cwd p = a at hfile
      generalize v.removeFile cwd p = b at hfile
      cases hfile with
      | fails f => exact h
      | gives hagree => exact hagree
    · rename_i hnode
      obtain ⟨hp', hloc⟩ := hclear loc hlook hnode
      have hfolder := (h.clear loc).removeFolder hp' fun a hres => by
        rw [hloc a hres, isEmptyAt_clear, isEmptyAt_clear]
      generalize (u.clear loc).removeFolder cwd p = a at hfolder
      generalize (v.clear loc).removeFolder cwd p = b at hfolder
      cases hfolder with
      | fails f => exact h.clear _
      | gives hagree => exact hagree
    · exact h

theorem Agree.removeAll_of_stays (h : Agree K u v) (hu : u.LinkFree) (hp : Stays K cwd p) :
    Agree K (u.removeAll cwd p).1 (v.removeAll cwd p).1 := by
  refine h.removeAll (h.meets hu hp) fun loc hlook _ => ?_
  have hfree : (u.clear loc).LinkFree := hu.within (within_clear u loc)
  obtain rfl := hu.goal_of_lookup hp.no_up hlook
  exact ⟨(h.clear _).meets hfree hp, fun a hres => (hfree.goal_of_resolve hp.no_up hres).1⟩

theorem LinkFree.goal_of_writeLoc (h : t.LinkFree) (hup : ".." ∉ (Path.route p).steps)
    (hloc : t.writeLoc cwd p = .ok loc) : loc = goal cwd p := by
  obtain ⟨a, hres, rfl⟩ := resolveNew_of_writeLoc hloc
  exact (h.goal_of_resolveNew hup hres).1

theorem Agree.refill {src dst : Loc} (h : Agree K u v) (hsrc : K src) (hdst : K dst)
    (runnable : Bool) : (u.refill src dst runnable).2 = (v.refill src dst runnable).2 ∧
      Agree K (u.refill src dst runnable).1 (v.refill src dst runnable).1 := by
  have htrunc : Agree K (u.truncated dst runnable) (v.truncated dst runnable) := by
    rw [truncated, truncated, h.device? hdst]
    split
    · exact h
    · exact h.setBlob hdst _
  rw [Tree.refill, Tree.refill, blobAt, blobAt, htrunc.blob? hsrc]
  have hextend := htrunc.extend hdst (((v.truncated dst runnable).blob? src).getD Blob.empty).bytes
  generalize (u.truncated dst runnable).extend dst _ = a at hextend ⊢
  generalize (v.truncated dst runnable).extend dst _ = b at hextend ⊢
  cases hextend with
  | fails f => exact ⟨rfl, htrunc⟩
  | gives hagree => exact ⟨rfl, hagree⟩

theorem Agree.copy (h : Agree K u v) (hsrc : Meets K u v cwd src) (hdst : Meets K u v cwd dst)
    (hslash : (Path.route dst).slash = false) :
    (u.copy cwd src dst).2 = (v.copy cwd src dst).2 ∧
      Agree K (u.copy cwd src dst).1 (v.copy cwd src dst).1 := by
  rw [Tree.copy, Tree.copy, copyEnds_eq, copyEnds_eq, ← h.lookup hsrc]
  cases hlook : u.lookup cwd true src with
  | error f => exact ⟨rfl, h⟩
  | ok srcLoc =>
    have hfrom := hsrc.of_lookup hlook
    simp only [Except.bind, ← h.blob? hfrom, ← h.writeLoc hdst hslash]
    cases u.blob? srcLoc with
    | none => exact ⟨rfl, h⟩
    | some source =>
      cases hwrite : u.writeLoc cwd dst with
      | error f => exact ⟨rfl, h⟩
      | ok dstLoc => exact h.refill hfrom (hdst.of_writeLoc hslash hwrite) source.runnable

/-! ## Operations that stay in a place -/

/-- Nothing outside of the place changes, no alias is made, and no file with several names is
    written. -/
structure Works (place : Loc) (t t' : Tree) : Prop where
  inside : ChangesInside place t t'
  pool : t'.pool = t.pool

theorem Works.refl (place : Loc) (t : Tree) : Works place t t := ⟨.refl place t, rfl⟩

theorem Works.trans (h : Works place t t') (h' : Works place t' t'') : Works place t t'' :=
  ⟨h.inside.trans h'.inside, h'.pool.trans h.pool⟩

theorem Works.linkFree (h : Works place t t') (ht : t.LinkFree) : t'.LinkFree :=
  fun loc target hnode => ht loc target (h.inside.aliases loc _ hnode rfl)

theorem works_of_within (h : Within t' t) (hout : SameOutside place t t')
    (hpool : t'.pool = t.pool) : Works place t t' :=
  ⟨⟨hout, fun loc node hnode _ => h loc node hnode⟩, hpool⟩

theorem works_erase (t : Tree) (loc : Loc) : Works loc t (t.erase loc) := by
  refine works_of_within (within_erase t loc) (fun other hout => ?_) rfl
  exact node?_erase_ne t (by rintro rfl; exact hout (List.suffix_refl _))

theorem works_clear (t : Tree) (loc : Loc) : Works loc t (t.clear loc) := by
  refine works_of_within (within_clear t loc) (fun other hout => ?_) rfl
  rw [node?_clear, isBelow_eq_false hout, if_neg Bool.false_ne_true]

theorem works_put (t : Tree) (loc : Loc) {node : Node} (hnode : node.isAlias = false) :
    Works loc t (t.put loc node) := by
  refine ⟨⟨fun other hout => ?_, fun other old hold halias => ?_⟩, rfl⟩
  · exact node?_put_ne t (by rintro rfl; exact hout (List.suffix_refl _)) _
  · by_cases heq : other = loc
    · subst heq
      cases other with
      | nil =>
        cases hold
        cases halias
      | cons name d =>
        rw [node?_put_self t (by simp)] at hold
        cases hold
        rw [hnode] at halias
        cases halias
    · rwa [node?_put_ne t heq] at hold

theorem works_setBlob (h : ∀ id, t.node? loc ≠ some (.shared id)) (b : Blob) :
    Works loc t (t.setBlob loc b) := by
  rw [setBlob]
  split
  · rename_i id hshared
    exact absurd hshared (h id)
  · exact works_put t loc rfl

theorem LinkFree.works_copy {n : Nat} (h : t.LinkFree) (hup : ".." ∉ (Path.route dst).steps)
    (hdst : ∀ id, t.node? (goal cwd dst) ≠ some (.shared id))
    (hcopy : t.copy cwd src dst = (t', .ok n)) : Works (goal cwd dst) t t' := by
  obtain ⟨srcLoc, loc, source, -, -, hwrite, hrefill⟩ := landings_of_copy hcopy
  obtain rfl := h.goal_of_writeLoc hup hwrite
  refine refill_induction hrefill (.refl _ t) fun u b hu => ?_
  exact hu.trans (works_setBlob (fun id hshared => hdst id (hu.inside.aliases _ _ hshared rfl)) b)

theorem LinkFree.works_removeAll (h : t.LinkFree) (hup : ".." ∉ (Path.route p).steps) :
    Works (goal cwd p) t (t.removeAll cwd p).1 := by
  have hclear := works_clear t (goal cwd p)
  cases removal t cwd p with
  | nothing hleft =>
    rw [hleft]
    exact .refl _ t
  | link _ _ hlink => exact absurd hlink (h _ _)
  | contents hleft hfind =>
    rw [hleft, h.goal_of_lookup hup hfind]
    exact hclear
  | folder hleft hfind =>
    rw [hleft, h.goal_of_lookup hup hfind]
    exact hclear.trans (works_erase _ _)

theorem Works.mono {place' : Loc} (h : Works place' t t') (hin : place <:+ place') :
    Works place t t' :=
  ⟨⟨fun other hout => h.inside.outside other fun hplace => hout (hin.trans hplace),
    h.inside.aliases⟩, h.pool⟩

/-! ## Operations that make the directories above -/

/-- `t'` has what `t` has, and besides it directories that have been made on the way to `e`. -/
def Grows (e : Loc) (t t' : Tree) : Prop :=
  ∀ loc, t'.node? loc = t.node? loc ∨ (t.node? loc = none ∧ Made t' loc ∧ loc <:+ e)

theorem Grows.refl (e : Loc) (t : Tree) : Grows e t t := fun _ => .inl rfl

theorem Grows.of_some {node : Node} (h : Grows e t t') (hnode : t.node? loc = some node) :
    t'.node? loc = some node := by
  rcases h loc with hsame | ⟨hnone, -⟩
  · rw [hsame, hnode]
  · rw [hnone] at hnode
    cases hnode

theorem Made.grows (hmade : Made t loc) (h : Grows e t t') : Made t' loc := by
  obtain ⟨name, d, heq, hsize, hfolder⟩ := hmade.inside
  exact ⟨h.of_some hmade.folder, name, d, heq, hsize, h.of_some hfolder⟩

theorem Grows.trans (h : Grows e t t') (h' : Grows e t' t'') : Grows e t t'' := by
  intro loc
  rcases h loc with hsame | ⟨hnone, hmade, hway⟩
  · rcases h' loc with hsame' | ⟨hnone', hmade', hway'⟩
    · exact .inl (hsame'.trans hsame)
    · exact .inr ⟨hsame ▸ hnone', hmade', hway'⟩
  · exact .inr ⟨hnone, hmade.grows h', hway⟩

theorem LinkFree.grows_makeFolder (h : t.LinkFree) (hup : ".." ∉ (Path.route p).steps)
    (hway : goal cwd p <:+ e) (hmake : t.makeFolder cwd p = .ok t') : Grows e t t' := by
  obtain ⟨d, name, hnames, hnone, hseal, rfl⟩ := makeFolder_eq_ok hmake
  have hgoal := h.goal_of_names hup hnames
  have hself : (t.put (name :: d) .folder).node? (name :: d) = some .folder :=
    node?_put_self t (by simp) _
  have hfolder : t.node? d = some .folder := by
    obtain ⟨node, hnode, hf⟩ := isFolderAt_iff.mp hnames.folder
    cases node with
    | folder => exact hnode
    | «sealed» => exact absurd hnode hseal
    | _ => cases hf
  intro loc
  by_cases heq : loc = name :: d
  · subst heq
    refine .inr ⟨hnone, ⟨hself, name, d, rfl, hnames.isName.fits, ?_⟩, hgoal ▸ hway⟩
    rw [node?_put_ne t (by simp), hfolder]
  · exact .inl (node?_put_ne t heq _)

theorem LinkFree.grows_makeFirst (h : t.LinkFree) (ps : List String)
    (hps : ∀ p ∈ ps, ".." ∉ (Path.route p).steps ∧ goal cwd p <:+ e) :
    Grows e t (t.makeFirst cwd ps).1 := by
  refine (makeFirst_induction (P := fun u => u.LinkFree ∧ Grows e t u) ⟨h, .refl e t⟩ ?_).2
  rintro u u' p hp ⟨hfree, hgrows⟩ hmade
  obtain ⟨hup, hway⟩ := hps p hp
  exact ⟨hfree.adds (adds_makeFolder hmade), hgrows.trans (hfree.grows_makeFolder hup hway hmade)⟩

theorem prefix_of_mem_ancestors (cwd : Loc) (p : String) :
    ∀ (fuel : Nat), ∀ q ∈ ancestors fuel p,
      start cwd q = start cwd p ∧ (Path.route q).steps <+: (Path.route p).steps := by
  intro fuel
  induction fuel generalizing p with
  | zero =>
    intro q hq
    cases hq
  | succ fuel ih =>
    intro q hq
    rw [ancestors] at hq
    rcases List.mem_cons.mp hq with rfl | hq
    · exact ⟨rfl, List.prefix_refl _⟩
    cases hparent : Path.parent? p with
    | none =>
      rw [hparent] at hq
      cases hq
    | some r =>
      rw [hparent] at hq
      obtain ⟨habs, rest, hsteps, -⟩ := Path.route_parent hparent
      obtain ⟨hstart, hbegin⟩ := ih r q hq
      refine ⟨?_, hbegin.trans ⟨rest, hsteps.symm⟩⟩
      rw [hstart, start, start, habs]

theorem goal_of_mem_ancestors (hup : ".." ∉ (Path.route p).steps) (cwd : Loc) (fuel : Nat) :
    ∀ q ∈ ancestors fuel p, ".." ∉ (Path.route q).steps ∧ goal cwd q <:+ goal cwd p := by
  intro q hq
  obtain ⟨hstart, rest, hsteps⟩ := prefix_of_mem_ancestors cwd p fuel q hq
  refine ⟨fun hmem => hup (hsteps ▸ List.mem_append_left _ hmem), ?_⟩
  rw [goal, goal, hstart, ← hsteps, descend_append]
  exact suffix_descend _ _

theorem LinkFree.grows_makeFolders (h : t.LinkFree) (hup : ".." ∉ (Path.route p).steps)
    (hway : goal cwd p <:+ e) : Grows e t (t.makeFolders cwd p).1 :=
  h.grows_makeFirst _ fun q hq =>
    have hq' := goal_of_mem_ancestors hup cwd _ q hq
    ⟨hq'.1, hq'.2.trans hway⟩

theorem Agree.makeFolders (h : Agree K u v) (hu : u.LinkFree) (hp : Stays K cwd p) :
    (u.makeFolders cwd p).2 = (v.makeFolders cwd p).2 ∧
      Agree K (u.makeFolders cwd p).1 (v.makeFolders cwd p).1 :=
  h.makeFirst hu _ fun q hq =>
    have hq' := goal_of_mem_ancestors hp.no_up cwd _ q hq
    ⟨hq'.1, fun loc hloc => hp.inside loc (hloc.trans hq'.2)⟩

end Tree

namespace Lock

open Concolic.Tree (Agree Grows LinkFree Stays Works goal)

variable {h : Host} {t t' u v : Tree} {K : Loc → Prop} {path workDir : String}

section Stays

variable (hagree : Agree K u v) (hu : u.LinkFree) (hpath : Stays K h.cwd path)
include hagree hu hpath

theorem agree_create :
    (∃ u' v', create h u path = (u', .ok ()) ∧ create h v path = (v', .ok ()) ∧ Agree K u' v') ∨
      ∃ f, create h u path = (u, .error f) ∧ create h v path = (v, .error f) := by
  have hnew := hagree.newLoc (hagree.meets hu hpath) false
  cases hloc : v.newLoc h.cwd path false with
  | error f =>
    exact .inr ⟨f, create_of_no_newLoc (hnew.trans hloc), create_of_no_newLoc hloc⟩
  | ok loc =>
    exact .inl ⟨_, _, create_of_newLoc (hnew.trans hloc), create_of_newLoc hloc,
      (hagree.put loc (by simp)).put loc (by simp)⟩

theorem agree_liveOwner : liveOwner h u path = liveOwner h v path := by
  rw [liveOwner, liveOwner, readOwner, readOwner, hagree.readText (hagree.meets hu hpath)]

theorem agree_discard : Agree K (discard h u path) (discard h v path) := by
  have hremove := hagree.removeFile (hagree.meets hu hpath)
  rw [discard, discard]
  generalize u.removeFile h.cwd path = a at hremove
  generalize v.removeFile h.cwd path = b at hremove
  cases hremove with
  | fails f => exact hagree
  | gives hagree' => exact hagree'

end Stays

theorem works_discard (ht : t.LinkFree) (hup : ".." ∉ (Path.route path).steps) :
    Works (goal h.cwd path) t (discard h t path) := by
  rw [discard]
  cases hremove : t.removeFile h.cwd path with
  | error f => exact .refl _ t
  | ok t' =>
    obtain ⟨d, name, node, hnames, -, -, -, rfl⟩ := Tree.removeFile_eq_ok hremove
    rw [← ht.goal_of_names hup hnames]
    exact Tree.works_erase t _

theorem works_create (ht : t.LinkFree) (hup : ".." ∉ (Path.route path).steps)
    (hcreate : create h t path = (t', .ok ())) : Works (goal h.cwd path) t t' := by
  obtain ⟨d, name, hnames, -, -, rfl⟩ := create_eq_ok hcreate
  rw [← ht.goal_of_names hup hnames]
  exact (Tree.works_put t _ rfl).trans (Tree.works_put _ _ rfl)

theorem agree_seize (hagree : Agree K u v) (hu : u.LinkFree) (hpath : Stays K h.cwd path)
    (workDir : String) :
    (seize h workDir path u).2 = (seize h workDir path v).2 ∧
      Agree K (seize h workDir path u).1 (seize h workDir path v).1 := by
  have hdiscard := agree_discard hagree hu hpath
  rw [seize, seize]
  rcases agree_create hagree hu hpath with ⟨u', v', hu', hv', hmade⟩ | ⟨f, hu', hv'⟩
  · rw [hu', hv']
    exact ⟨rfl, hmade⟩
  · rw [hu', hv']
    dsimp only
    rw [← agree_liveOwner hagree hu hpath]
    split
    · exact ⟨rfl, hagree⟩
    · cases liveOwner h u path with
      | some pid => exact ⟨rfl, hagree⟩
      | none =>
        dsimp only
        rcases agree_create hdiscard ((works_discard hu hpath.no_up).linkFree hu) hpath with
          ⟨u'', v'', hu'', hv'', hmade⟩ | ⟨f', hu'', hv''⟩
        · rw [hu'', hv'']
          exact ⟨rfl, hmade⟩
        · rw [hu'', hv'']
          exact ⟨rfl, hdiscard⟩

theorem works_seize (ht : t.LinkFree) (hup : ".." ∉ (Path.route path).steps) (workDir : String) :
    Works (goal h.cwd path) t (seize h workDir path t).1 := by
  have hdiscard : Works (goal h.cwd path) t (discard h t path) := works_discard ht hup
  generalize hseize : seize h workDir path t = ended
  cases seizes hseize with
  | free hcreate => exact works_create ht hup hcreate
  | blocked _ _ => exact .refl _ t
  | owned _ _ _ => exact .refl _ t
  | stale _ _ hagain => exact hdiscard.trans (works_create (hdiscard.linkFree ht) hup hagain)
  | lost _ _ => exact hdiscard

/-! ## The directory of the lock file -/

open Concolic.Tree (Rooted Sprouts start)

/-- `dir` is the directory of a path that goes down. -/
structure Houses (cwd : Loc) (path dir : String) : Prop where
  parent : Path.parent? path = some dir
  no_up : ".." ∉ (Path.route dir).steps
  start : start cwd dir = start cwd path

theorem houses_of_parent {cwd : Loc} {dir : String} (hparent : Path.parent? path = some dir)
    (hup : ".." ∉ (Path.route path).steps) : Houses cwd path dir := by
  obtain ⟨habs, rest, hsteps, -⟩ := Path.route_parent hparent
  refine ⟨hparent, fun hmem => hup (hsteps ▸ List.mem_append_left _ hmem), ?_⟩
  rw [Tree.start, Tree.start, habs]

theorem prepare_eq_makeFolders {dir : String} (hparent : Path.parent? path = some dir)
    (hne : dir ≠ "") : (prepare h t path).1 = (t.makeFolders h.cwd dir).1 ∧
      (prepare h t path).2 = (t.makeFolders h.cwd dir).2.mapError
      (Failure.workspaceCreate dir) := by
  simp only [prepare, hparent, if_neg hne]
  generalize t.makeFolders h.cwd dir = made
  obtain ⟨t', r⟩ := made
  cases r <;> exact ⟨rfl, rfl⟩

/-- **Preparing does not tell who has made a directory.** -/
theorem sprouts_prepare {e : Loc} {dir : String} (hdir : Houses h.cwd path dir)
    (hsprouts : Sprouts e v u)
    (hv : v.LinkFree) (hu : u.LinkFree) (hroot : Rooted e v) (hway : goal h.cwd dir <:+ e)
    (hstart : v.isFolderAt (Tree.start h.cwd path) = true) :
    (prepare h u path).2 = (prepare h v path).2 ∧
      Sprouts e (prepare h v path).1 (prepare h u path).1 := by
  by_cases hne : dir = ""
  · subst hne
    rw [prepare_of_parent hdir.parent, prepare_of_parent hdir.parent]
    exact ⟨rfl, hsprouts⟩
  have hmade := hsprouts.makeFolders hv hu hroot hdir.no_up
      (Path.isTrim_of_parent? hdir.parent) hway
    (by rw [hdir.start]; exact hstart)
  obtain ⟨htree, hend⟩ := prepare_eq_makeFolders (h := h) (t := u) hdir.parent hne
  obtain ⟨htree', hend'⟩ := prepare_eq_makeFolders (h := h) (t := v) hdir.parent hne
  rw [htree, hend, htree', hend', hmade.1]
  exact ⟨rfl, hmade.2⟩

theorem grows_prepare {e : Loc} {dir : String} (hdir : Houses h.cwd path dir) (ht : t.LinkFree)
    (hway : goal h.cwd dir <:+ e) : Grows e t (prepare h t path).1 := by
  by_cases hne : dir = ""
  · subst hne
    rw [prepare_of_parent hdir.parent]
    exact .refl e t
  · rw [(prepare_eq_makeFolders hdir.parent hne).1]
    exact ht.grows_makeFolders hdir.no_up hway

theorem folder_of_prepared {dir : String} (hdir : Houses h.cwd path dir) (hform : t.WellFormed)
    (ht : t.LinkFree) (hstart : t.isFolderAt (Tree.start h.cwd path) = true)
    (hprepare : (prepare h t path).2 = .ok ()) :
    (prepare h t path).1.isFolderAt (goal h.cwd dir) = true := by
  by_cases hne : dir = ""
  · subst hne
    rw [prepare_of_parent hdir.parent]
    rw [← hdir.start] at hstart
    exact hstart
  obtain ⟨htree, hend⟩ := prepare_eq_makeFolders (h := h) (t := t) hdir.parent hne
  rw [htree]
  rw [hend] at hprepare
  have hstart' : t.isFolderAt (Tree.start h.cwd dir) = true := by rw [hdir.start]; exact hstart
  have hok : t.makeFolders h.cwd dir = ((t.makeFolders h.cwd dir).1, .ok ()) := by
    revert hprepare
    generalize t.makeFolders h.cwd dir = made
    obtain ⟨t', r⟩ := made
    cases r with
    | error f => intro hprepare; cases hprepare
    | ok => intro _; rfl
  cases htext : Tree.checkText dir with
  | error f =>
    rw [Tree.makeFolders_of_bad_text hne htext] at hok
    cases hok
  | ok =>
    rw [Tree.makeFolders_eq_dig ht (.inr htext) hdir.no_up
      (Path.isTrim_of_parent? hdir.parent) hstart'
      (hform.rooted _)] at hok ⊢
    exact (Tree.leads_of_dig hstart' hdir.no_up hok).2

end Lock

namespace Workspace

open Concolic.Tree (Agree Grows LinkFree Meets Stays Works goal)

variable {ws : Workspace} {cwd place : Loc} {t t' u v : Tree} {K : Loc → Prop} {src dst : String}

theorem agree_reset (h : Agree K u v) (hu : u.LinkFree) (hroot : Stays K cwd ws.root) :
    (ws.reset cwd u).2 = (ws.reset cwd v).2 ∧ Agree K (ws.reset cwd u).1 (ws.reset cwd v).1 := by
  have hremoved : (u.removeAll cwd ws.root).1.LinkFree :=
    (hu.works_removeAll hroot.no_up).linkFree hu
  have hmade := (h.removeAll_of_stays hu hroot).makeFolders hremoved hroot
  rw [reset, reset]
  revert hmade
  generalize (u.removeAll cwd ws.root).1.makeFolders cwd ws.root = a
  generalize (v.removeAll cwd ws.root).1.makeFolders cwd ws.root = b
  obtain ⟨u₁, r⟩ := a
  obtain ⟨v₁, r'⟩ := b
  rintro ⟨rfl, hagree⟩
  cases r <;> exact ⟨rfl, hagree⟩

theorem agree_copyArtifact (h : Agree K u v) (hsrc : Meets K u v cwd src)
    (hdst : Meets K u v cwd dst) (hslash : (Path.route dst).slash = false) :
    (copyArtifact cwd u src dst).1 = (copyArtifact cwd v src dst).1 ∧
      Agree K (copyArtifact cwd u src dst).2 (copyArtifact cwd v src dst).2 := by
  obtain ⟨hend, hagree⟩ := h.copy hsrc hdst hslash
  rw [copyArtifact, copyArtifact]
  rcases hu : u.copy cwd src dst with ⟨u₁, r⟩
  rcases hv : v.copy cwd src dst with ⟨v₁, r'⟩
  rw [hu, hv] at hend hagree
  obtain rfl : r = r' := hend
  cases r with
  | ok n => exact ⟨rfl, hagree⟩
  | error f =>
    obtain rfl := Tree.tree_of_copy_error hu
    obtain rfl := Tree.tree_of_copy_error hv
    dsimp only
    rw [h.hasEntry hsrc]
    split <;> exact ⟨rfl, h⟩

theorem works_copyArtifact (ht : t.LinkFree) (hup : ".." ∉ (Path.route dst).steps)
    (hplain : t.Plain place) (hin : place <:+ goal cwd dst) :
    Works place t (copyArtifact cwd t src dst).2 := by
  have hdst : ∀ id, t.node? (goal cwd dst) ≠ some (.shared id) := fun id hshared => by
    have halias := hplain _ _ hin hshared
    cases halias
  rw [copyArtifact]
  rcases hcopy : t.copy cwd src dst with ⟨t', r⟩
  cases r with
  | ok n => exact (ht.works_copy hup hdst hcopy).mono hin
  | error f =>
    obtain rfl := Tree.tree_of_copy_error hcopy
    dsimp only
    split <;> exact .refl place _

/-! ## Artifacts -/

section Artifacts

variable {name : String}

theorem steps_artifact (husable : Artifact.IsUsable name) :
    (Path.route (ws.artifact name)).steps = (Path.route ws.root).steps ++ [name] := by
  rw [artifact, Path.route_join _ husable.plain]

theorem goal_artifact (husable : Artifact.IsUsable name) (cwd : Loc) :
    goal cwd (ws.artifact name) = name :: goal cwd ws.root := by
  have hstart : Tree.start cwd (ws.artifact name) = Tree.start cwd ws.root := by
    rw [Tree.start, Tree.start, artifact, Path.isAbsolute_join _ husable.plain]
  rw [goal, goal, steps_artifact husable, Tree.descend_append, hstart,
    Tree.descend_name husable.isName]
  rfl

theorem no_up_artifact (husable : Artifact.IsUsable name)
    (hup : ".." ∉ (Path.route ws.root).steps) : ".." ∉ (Path.route (ws.artifact name)).steps := by
  rw [steps_artifact husable]
  intro hmem
  rcases List.mem_append.mp hmem with hroot | hname
  · exact hup hroot
  · exact husable.isName.ne_up (List.mem_singleton.mp hname).symm

theorem stays_artifact (hroot : Stays K cwd ws.root) (husable : Artifact.IsUsable name)
    (hin : ∀ loc, goal cwd ws.root <:+ loc → K loc) : Stays K cwd (ws.artifact name) := by
  refine ⟨no_up_artifact husable hroot.no_up, fun loc hloc => ?_⟩
  rw [goal_artifact husable, List.suffix_cons_iff] at hloc
  rcases hloc with rfl | hway
  · exact hin _ (List.suffix_cons _ _)
  · exact hroot.inside loc hway

/-- What archiving needs to know: nothing in the working directory has a second name. -/
structure Clear (ws : Workspace) (cwd : Loc) (t : Tree) : Prop where
  linkFree : t.LinkFree
  no_up : ".." ∉ (Path.route ws.root).steps
  plain : t.Plain (goal cwd ws.root)

theorem Clear.step (h : ws.Clear cwd t) (hworks : Works (goal cwd ws.root) t t') :
    ws.Clear cwd t' :=
  ⟨hworks.linkFree h.linkFree, h.no_up, h.plain.step hworks.inside⟩

theorem Clear.works_copyArtifact (h : ws.Clear cwd t) (husable : Artifact.IsUsable name)
    (src : String) :
    Works (goal cwd ws.root) t (copyArtifact cwd t src (ws.artifact name)).2 := by
  refine Workspace.works_copyArtifact h.linkFree (no_up_artifact husable h.no_up) h.plain ?_
  rw [goal_artifact husable]
  exact List.suffix_cons _ _

theorem Clear.works_snapshotInputs (h : ws.Clear cwd t) (iteration : UInt32) :
    Works (goal cwd ws.root) t (ws.snapshotInputs cwd iteration t).2 := by
  have hnumber : Artifact.IsUsable (Artifact.numbered iteration) :=
    Artifact.isUsable_number (UInt32.toNat_lt iteration)
  have hprevious : Artifact.IsUsable Artifact.inputsOld := Artifact.isUsable_of_mem (by simp)
  rw [snapshotInputs]
  cases (ws.readMarker cwd t).kind with
  | real =>
    have hfirst := h.works_copyArtifact hnumber (ws.artifact Artifact.inputs)
    exact hfirst.trans ((h.step hfirst).works_copyArtifact hprevious _)
  | synthetic => exact h.works_copyArtifact hprevious _

theorem Clear.works_snapshotHistory (h : ws.Clear cwd t) :
    Works (goal cwd ws.root) t (ws.snapshotHistory cwd t).2 :=
  h.works_copyArtifact (Artifact.isUsable_of_mem (by simp)) _

theorem slash_artifact (husable : Artifact.IsUsable name) :
    (Path.route (ws.artifact name)).slash = false := by
  rw [artifact, Path.route_join _ husable.plain]

/-- The artifacts show the same in trees with `I` that agree, and copies of them
    leave such trees. -/
structure Accords (ws : Workspace) (cwd : Loc) (K : Loc → Prop) (I : Tree → Prop) : Prop where
  meets : ∀ {u v : Tree} {name : String}, I u → I v → Agree K u v → Artifact.IsUsable name →
    Meets K u v cwd (ws.artifact name)
  copies : ∀ {t : Tree} {name : String} (src : String), I t → Artifact.IsUsable name →
    I (copyArtifact cwd t src (ws.artifact name)).2

theorem accords_clear (hroot : Stays K cwd ws.root)
    (hin : ∀ loc, goal cwd ws.root <:+ loc → K loc) : ws.Accords cwd K (ws.Clear cwd) :=
  ⟨fun hu _ hagree husable => hagree.meets hu.linkFree (stays_artifact hroot husable hin),
    fun src ht husable => ht.step (ht.works_copyArtifact husable src)⟩

section Accords

variable {I : Tree → Prop} (h : ws.Accords cwd K I) (hu : I u) (hv : I v) (hagree : Agree K u v)

include h hu hv hagree

theorem Accords.copyArtifact {source : String} (hsource : Artifact.IsUsable source)
    (husable : Artifact.IsUsable name) :
    (copyArtifact cwd u (ws.artifact source) (ws.artifact name)).1 =
        (Workspace.copyArtifact cwd v (ws.artifact source) (ws.artifact name)).1 ∧
      Agree K (Workspace.copyArtifact cwd u (ws.artifact source) (ws.artifact name)).2
        (Workspace.copyArtifact cwd v (ws.artifact source) (ws.artifact name)).2 :=
  agree_copyArtifact hagree (h.meets hu hv hagree hsource) (h.meets hu hv hagree husable)
    (slash_artifact husable)

theorem Accords.readMarker : ws.readMarker cwd u = ws.readMarker cwd v := by
  have hmarker : Artifact.IsUsable Artifact.marker := Artifact.isUsable_of_mem (by simp)
  rw [Workspace.readMarker, Workspace.readMarker, hagree.readText (h.meets hu hv hagree hmarker)]

theorem Accords.snapshotInputs (iteration : UInt32) :
    (ws.snapshotInputs cwd iteration u).1 = (ws.snapshotInputs cwd iteration v).1 ∧
      Agree K (ws.snapshotInputs cwd iteration u).2 (ws.snapshotInputs cwd iteration v).2 := by
  have hnumber : Artifact.IsUsable (Artifact.numbered iteration) :=
    Artifact.isUsable_number (UInt32.toNat_lt iteration)
  have hinputs : Artifact.IsUsable Artifact.inputs := Artifact.isUsable_of_mem (by simp)
  have hprevious : Artifact.IsUsable Artifact.inputsOld := Artifact.isUsable_of_mem (by simp)
  rw [Workspace.snapshotInputs, Workspace.snapshotInputs, h.readMarker hu hv hagree]
  cases (ws.readMarker cwd v).kind with
  | real =>
    have hfirst := h.copyArtifact hu hv hagree hinputs hnumber
    have hsecond := h.copyArtifact (h.copies (ws.artifact Artifact.inputs) hu hnumber)
      (h.copies (ws.artifact Artifact.inputs) hv hnumber) hfirst.2 hinputs hprevious
    exact ⟨by simp only [hfirst.1, hsecond.1], hsecond.2⟩
  | synthetic =>
    have honly := h.copyArtifact hu hv hagree hinputs hprevious
    exact ⟨by simp only [honly.1], honly.2⟩

theorem Accords.snapshotHistory :
    (ws.snapshotHistory cwd u).1 = (ws.snapshotHistory cwd v).1 ∧
      Agree K (ws.snapshotHistory cwd u).2 (ws.snapshotHistory cwd v).2 :=
  h.copyArtifact hu hv hagree (Artifact.isUsable_of_mem (by simp))
    (Artifact.isUsable_of_mem (by simp))

theorem Accords.signal : ws.signal cwd u = ws.signal cwd v := by
  have hhistory : Artifact.IsUsable Artifact.history := Artifact.isUsable_of_mem (by simp)
  have hflag : Artifact.IsUsable Artifact.backtrackFlag := Artifact.isUsable_of_mem (by simp)
  rw [Workspace.signal, Workspace.signal, hagree.isFile (h.meets hu hv hagree hhistory),
    hagree.isFile (h.meets hu hv hagree hflag)]

end Accords

end Artifacts

end Workspace

end Concolic
