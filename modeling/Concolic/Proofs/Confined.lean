import Concolic.Proofs.Artifact
import Concolic.Proofs.Tree.Frame

/-
  Changes that stay inside the working directory.

  For the reset it is enough that the directory above can be reached without going through the
  working directory itself (`Beside`).  For the copies it is enough that the path led to the
  directory when it was made (`Guarded`): none of the entries inside is a link or shares its file
  with another name (`Plain`), so that the path still leads there if it leads anywhere.
-/

namespace Concolic

/-- The node stands for something that is elsewhere: a link, or one of several names of a file. -/
def Node.isAlias : Node → Bool
  | link _ => true
  | shared _ => true
  | _ => false

namespace Tree

variable {t t' t'' x : Tree} {cwd d e place : Loc} {p q name stem : String}

/-! ## Changes inside a place -/

/-- Nothing at the place or inside it is an alias. -/
def Plain (t : Tree) (place : Loc) : Prop :=
  ∀ loc node, place <:+ loc → t.node? loc = some node → node.isAlias = false

/-- Nothing outside of the place changes, and no alias is made. -/
structure ChangesInside (place : Loc) (t t' : Tree) : Prop where
  outside : SameOutside place t t'
  aliases : ∀ loc node, t'.node? loc = some node → node.isAlias = true → t.node? loc = some node

theorem ChangesInside.refl (place : Loc) (t : Tree) : ChangesInside place t t :=
  ⟨.refl place t, fun _ _ h _ => h⟩

theorem ChangesInside.trans (h : ChangesInside place t t') (h' : ChangesInside place t' t'') :
    ChangesInside place t t'' :=
  ⟨h.outside.trans h'.outside, fun loc node hnode halias =>
    h.aliases loc node (h'.aliases loc node hnode halias) halias⟩

theorem Plain.step (h : t.Plain place) (hchange : ChangesInside place t t') : t'.Plain place := by
  intro loc node hin hnode
  cases halias : node.isAlias with
  | false => rfl
  | true =>
    rw [h loc node hin (hchange.aliases loc node hnode halias)] at halias
    exact halias.symm

theorem changesInside_put_file {loc : Loc} (hloc : place <:+ loc) (hne : loc ≠ []) (b : Blob) :
    ChangesInside place t (t.put loc (.file b)) := by
  refine ⟨fun other hout => node?_put_ne t (by rintro rfl; exact hout hloc) _, ?_⟩
  intro other node hnode halias
  by_cases heq : other = loc
  · subst heq
    rw [node?_put_self t hne] at hnode
    cases hnode
    cases halias
  · rwa [node?_put_ne t heq] at hnode

theorem WellFormed.kept_below (h : t.WellFormed) (hbare : t.Bare place) :
    ∀ loc node, isBelow place loc = true → t.node? loc = some node →
      node = .sealed ∨ ∃ device, node = .device device := by
  intro loc
  induction loc with
  | nil =>
    intro node hbelow
    rw [not_isBelow_nil] at hbelow
    cases hbelow
  | cons name up ih =>
    intro node hbelow hnode
    simp only [isBelow, Bool.and_eq_true, decide_eq_true_eq] at hbelow
    have hup : place <:+ up := by
      rcases List.suffix_cons_iff.mp hbelow.1 with heq | hup
      · exact absurd heq hbelow.2
      · exact hup
    by_cases heq : place = up
    · subst heq
      exact (hbare name node hnode).2
    · -- the directory above is itself one that the machine keeps
      obtain ⟨dir, hdir, hfolder⟩ := isFolderAt_iff.mp (h.placed hnode)
      rcases ih dir (by simp [isBelow, hup, heq]) hdir with rfl | ⟨device, rfl⟩
      · exact h.guarded hdir hnode
      · cases hfolder

theorem WellFormed.plain_of_bare (h : t.WellFormed) (hfolder : t.isFolderAt place = true)
    (hbare : t.Bare place) : t.Plain place := by
  intro loc node hin hnode
  by_cases heq : place = loc
  · subst heq
    obtain ⟨node', hnode', hfolder'⟩ := isFolderAt_iff.mp hfolder
    rw [hnode] at hnode'
    cases hnode'
    cases node <;> first | rfl | cases hfolder'
  · rcases h.kept_below hbare loc node (by simp [isBelow, hin, heq]) hnode with rfl | ⟨device, rfl⟩
    · rfl
    · rfl

/-! ## The directory above -/

/-- The path `q` above `p` leads to the directory `d` without going through `place`. -/
structure Beside (t : Tree) (cwd : Loc) (p q : String) (d place : Loc) : Prop where
  parent : Path.parent? p = some q
  way : ∃ n ≤ maxLinks, Leads (t.without place) (start cwd q) (Path.route q).steps d n
  folder : (t.without place).isFolderAt d = true
  text : q = "" ∨ checkText q = .ok ()
  outside : ¬ place <:+ d

theorem Beside.reaches (h : Beside t cwd p q d place) (hsame : SameOutside place t t') :
    q = "" ∨ ∃ d, Reaches t' cwd q d := by
  obtain ⟨n, hn, hlead⟩ := h.way
  have hkeeps := hsame.keeps_without
  exact h.text.imp_right fun htext =>
    ⟨d, htext, hkeeps.isFolderAt h.folder, n, hn, hlead.mono hkeeps⟩

theorem Beside.ne_empty (h : Beside t cwd p q d place) : p ≠ "" := by
  rintro rfl
  have hnone : Path.parent? "" = none := by decide
  have hsome := h.parent
  rw [hnone] at hsome
  cases hsome

theorem Leads.eq_of_dots {ss : List String} {n : Nat} (h : Leads t d ss e n)
    (hdots : ∀ step ∈ ss, step = ".") : e = d := by
  induction h with
  | nil => rfl
  | stay _ _ ih => exact ih fun step hstep => hdots step (List.mem_cons_of_mem _ hstep)
  | up => exact absurd (hdots _ List.mem_cons_self) (by decide)
  | into _ hname => exact absurd (hdots _ List.mem_cons_self) hname.ne_dot
  | through _ hname => exact absurd (hdots _ List.mem_cons_self) hname.ne_dot

theorem Names.eq_fileName {d' : Loc} {n : Nat} (h : Names t cwd p d' name)
    (hstem : Path.fileName? p = some stem) (hparent : Path.parent? p = some q)
    (hlead : Leads t (start cwd q) (Path.route q).steps d n) : d' = d ∧ name = stem := by
  obtain ⟨q', before, after, hparent', habs, hsteps, hbefore, hafter, -⟩ :=
    Path.route_fileName hstem
  obtain rfl : q = q' := by
    rw [hparent] at hparent'
    exact Option.some.inj hparent'
  obtain ⟨init, hinit, m, -, hlead'⟩ := h.way
  rw [hsteps, ← List.append_assoc] at hinit
  rcases List.eq_nil_or_concat after with rfl | ⟨dots, last, rfl⟩
  · obtain ⟨rfl, hlast⟩ := List.append_inj' hinit rfl
    have hstart : start cwd p = start cwd q := by rw [start, start, habs]
    rw [hstart] at hlead'
    obtain ⟨e, n₁, n₂, h₁, h₂, -⟩ := hlead'.split
    obtain ⟨rfl, -⟩ := hlead.unique h₁
    exact ⟨h₂.eq_of_dots hbefore, by simpa using hlast.symm⟩
  · -- the last step would be a dot
    rw [List.concat_eq_append, ← List.cons_append, ← List.append_assoc] at hinit
    obtain ⟨-, hlast⟩ := List.append_inj' hinit rfl
    have hname : last = name := by simpa using hlast
    exact absurd (hname ▸ hafter last (by simp)) h.isName.ne_dot

/-- The steps of a path lead to its last component in the directory that its parent leads to, unless
    that is a link. -/
theorem Leads.eq_fileName {n m : Nat} (h : Leads t (start cwd p) (Path.route p).steps e m)
    (hstem : Path.fileName? p = some stem) (hparent : Path.parent? p = some q)
    (hlead : Leads t (start cwd q) (Path.route q).steps d n)
    (hlink : ∀ target, t.node? (stem :: d) ≠ some (.link target)) : e = stem :: d := by
  obtain ⟨q', before, after, hparent', habs, hsteps, hbefore, hafter, hdot, hup⟩ :=
    Path.route_fileName hstem
  obtain rfl : q = q' := by
    rw [hparent] at hparent'
    exact Option.some.inj hparent'
  have hstart : start cwd p = start cwd q := by rw [start, start, habs]
  rw [hstart, hsteps, ← List.append_assoc] at h
  obtain ⟨e₁, n₁, n₂, h₁, h₂, -⟩ := h.split
  obtain ⟨e₀, m₁, m₂, h₀, hdots, -⟩ := h₁.split
  obtain ⟨rfl, -⟩ := hlead.unique h₀
  obtain rfl := hdots.eq_of_dots hbefore
  cases h₂ with
  | stay => exact absurd rfl hdot
  | up => exact absurd rfl hup
  | into _ _ _ hrest => exact hrest.eq_of_dots hafter
  | through _ _ hlink' => exact absurd hlink' (hlink _)

theorem reaches_of_lookup_entry (h : t.lookup cwd false p = .ok e) (he : t.isFolderAt e = true) :
    Reaches t cwd p e := by
  cases hslash : (Path.route p).slash with
  | true => exact reaches_of_lookup h (by rw [hslash]; rfl) he
  | false =>
    obtain ⟨a, hres, rfl, -⟩ := lookup_eq_ok h
    rw [hslash] at hres
    obtain ⟨spot, slash⟩ := a
    cases spot with
    | here dir =>
      have htext := text_of_resolve hres
      rw [resolve_of_text htext] at hres
      obtain ⟨-, n, hn, hend⟩ := endsAt_of_walk _ _ _ _ hres
      exact ⟨htext, he, n, hn, hend⟩
    | entry dir name => exact (names_of_resolve hres).1.reaches he

/-! ## Paths that led somewhere -/

/-- The tree still has all directories and links that `x` had outside of the place, and what is in
    the place is plain. -/
structure Guarded (x : Tree) (place : Loc) (t : Tree) : Prop where
  keeps : Keeps (x.without place) t
  plain : t.Plain place

theorem guarded_self (h : t.Plain place) : Guarded t place t :=
  ⟨(within_without t place).keeps, h⟩

theorem Guarded.step (h : Guarded x place t) (hchange : ChangesInside place t t') :
    Guarded x place t' := by
  refine ⟨fun loc node hnode hroad => ?_, h.plain.step hchange⟩
  have hold := h.keeps loc node hnode hroad
  rcases outside_of_without hnode with hout | rfl
  · rw [hchange.outside loc hout, hold]
  · exact hold

theorem Guarded.concordant (h : Guarded x place t) (hx : x.Plain place) : Concordant x t := by
  -- a link of either tree is outside of the place
  have hlink : ∀ {u : Tree} {loc : Loc} {target : String}, u.Plain place →
      u.node? loc = some (.link target) → ¬ place <:+ loc := by
    intro u loc target hu hnode hin
    have := hu loc _ hin hnode
    cases this
  have hkept : ∀ {loc : Loc} {node : Node}, ¬ place <:+ loc → x.node? loc = some node →
      node.isRoad = true → t.node? loc = some node := fun hout hnode hroad =>
    h.keeps _ _ (by rw [node?_without x hout, hnode]) hroad
  refine ⟨fun ha hb => ?_, fun ha => ?_, fun hb => ?_⟩
  · rw [hkept (hlink hx ha) ha rfl] at hb
    cases hb
    rfl
  · exact isFolderAt_of_link (hkept (hlink hx ha) ha rfl)
  · rename_i loc target
    cases hfolder : x.isFolderAt loc with
    | false => rfl
    | true =>
      obtain ⟨node, hnode, hisFolder⟩ := isFolderAt_iff.mp hfolder
      rw [hkept (hlink h.plain hb) hnode (isRoad_of_isFolder hisFolder)] at hb
      cases hb
      cases hisFolder

/-! ## Writing below a path that led somewhere -/

theorem Guarded.writeLoc (h : Guarded x place t) (hx : x.Plain place)
    (hreach : Reaches x cwd p place) (hplain : Path.IsPlain name) (hname : IsName name) {loc : Loc}
    (hwrite : t.writeLoc cwd (Path.join p name) = .ok loc) : loc = name :: place := by
  obtain ⟨a, hres, rfl⟩ := resolveNew_of_writeLoc hwrite
  -- the walk has followed the path to a directory, and there is only one that it can be
  have hwalk : t.walk true maxLinks true (start cwd p) ((Path.route p).steps ++ [name]) false =
      .ok a := by
    rw [← hres, resolveNew_of_text (text_of_resolveNew hres),
      Path.route_join p hplain, start, start, Path.isAbsolute_join p hplain]
    rfl
  obtain ⟨m, -, hway⟩ := hreach.way
  obtain ⟨e, n, hn, hlead⟩ := leads_of_walk_append (List.cons_ne_nil name []) _ _ _ _ _ hwalk
  obtain ⟨rfl, rfl⟩ := hway.agree (h.concordant hx) hlead
  rw [walk_append rfl hlead true (List.cons_ne_nil name []) _ hn] at hwalk
  have hfolder : t.isFolderAt place = true := by
    rw [walk_eq_scan] at hwalk
    exact (step_of_scan hwalk).1
  have hlink : ∀ target, t.node? (name :: place) ≠ some (.link target) := by
    intro target hnode
    have := h.plain _ _ (List.suffix_cons name place) hnode
    cases this
  rw [Names.walk_last hfolder hname _ fun _ => hlink] at hwalk
  cases hwalk
  rfl

theorem Plain.changesInside_setBlob (h : t.Plain place) {loc : Loc} (hloc : place <:+ loc)
    (hne : loc ≠ []) (b : Blob) : ChangesInside place t (t.setBlob loc b) := by
  rw [setBlob_of_not_shared (fun id hnode => by cases h loc _ hloc hnode)]
  exact changesInside_put_file hloc hne b

theorem Guarded.copy (h : Guarded x place t) (hx : x.Plain place) (hreach : Reaches x cwd p place)
    (hplain : Path.IsPlain name) (hname : IsName name) {src : String} {count : Nat}
    (hcopy : t.copy cwd src (Path.join p name) = (t', .ok count)) : ChangesInside place t t' := by
  obtain ⟨srcLoc, loc, source, -, -, hwrite, hrefill⟩ := landings_of_copy hcopy
  obtain rfl := h.writeLoc hx hreach hplain hname hwrite
  refine refill_induction hrefill (.refl place t) fun u b hu => ?_
  exact hu.trans ((h.plain.step hu).changesInside_setBlob (List.suffix_cons name place)
    (List.cons_ne_nil name place) b)

end Tree

namespace Workspace

open Concolic.Tree (Beside ChangesInside Guarded Plain SameOutside)

variable {ws : Workspace} {cwd d place : Loc} {t t' x : Tree} {q name stem : String}

/-! ## Archiving -/

/-- What the steps of an iteration need to stay inside the working directory: the path led to it in
    `x`, and the tree is guarded since. -/
structure Watched (ws : Workspace) (cwd : Loc) (x : Tree) (place : Loc) (t : Tree) : Prop where
  reaches : x.Reaches cwd ws.root place
  plain : x.Plain place
  guarded : Guarded x place t

theorem Watched.step (h : ws.Watched cwd x place t) (hchange : ChangesInside place t t') :
    ws.Watched cwd x place t' := ⟨h.reaches, h.plain, h.guarded.step hchange⟩

theorem Watched.copyArtifact (h : ws.Watched cwd x place t) (husable : Artifact.IsUsable name)
    (src : String) :
    ChangesInside place t (copyArtifact cwd t src (ws.artifact name)).2 := by
  unfold Workspace.copyArtifact
  split
  · rename_i t' bytes hcopy
    exact h.guarded.copy h.plain h.reaches husable.plain husable.isName hcopy
  · rename_i t' f hcopy
    obtain rfl := Tree.tree_of_copy_error hcopy
    split <;> exact .refl place _

theorem Watched.snapshotInputs (h : ws.Watched cwd x place t) (iteration : UInt32) :
    ChangesInside place t (ws.snapshotInputs cwd iteration t).2 := by
  have hnumber : Artifact.IsUsable (Artifact.numbered iteration) :=
    Artifact.isUsable_number (UInt32.toNat_lt iteration)
  have hprevious : Artifact.IsUsable Artifact.inputsOld := Artifact.isUsable_of_mem (by simp)
  rw [Workspace.snapshotInputs]
  cases (ws.readMarker cwd t).kind with
  | real =>
    have hfirst := h.copyArtifact hnumber (ws.artifact Artifact.inputs)
    exact hfirst.trans ((h.step hfirst).copyArtifact hprevious _)
  | synthetic => exact h.copyArtifact hprevious _

theorem Watched.snapshotHistory (h : ws.Watched cwd x place t) :
    ChangesInside place t (ws.snapshotHistory cwd t).2 :=
  h.copyArtifact (Artifact.isUsable_of_mem (by simp)) _

/-! ## Making the directory anew -/

theorem fst_reset (ws : Workspace) (cwd : Loc) (t : Tree) :
    (ws.reset cwd t).1 = ((t.removeAll cwd ws.root).1.makeFolders cwd ws.root).1 := by
  rw [reset]
  split <;> rename_i heq <;> rw [heq]

theorem wellFormed_reset (h : t.WellFormed) (ws : Workspace) (cwd : Loc) :
    (ws.reset cwd t).1.WellFormed := by
  rw [fst_reset]
  exact (h.removeAll cwd ws.root).1.makeFirst cwd _

theorem suffix_of_made (h : t.WellFormed) (hplace : t.place? cwd ws.root = some place)
    (hnames : (t.removeAll cwd ws.root).1.Names cwd ws.root d name)
    (hnone : (t.removeAll cwd ws.root).1.node? (name :: d) = none) : place <:+ name :: d := by
  refine Classical.byContradiction fun hout => ?_
  have hbefore : t.node? (name :: d) = none := by
    rw [← Tree.sameOutside_removeAll hplace _ hout, hnone]
  have hthere := Tree.place?_of_names (hnames.mono (h.removeAll cwd ws.root).2.keeps) (by
    intro target
    rw [hbefore]
    simp)
  rw [hplace] at hthere
  cases hthere
  exact hout (List.suffix_refl _)

/-- **A reset changes nothing outside** of the place of its path. -/
theorem sameOutside_reset (h : t.WellFormed) (hplace : t.place? cwd ws.root = some place)
    (hup : Beside t cwd ws.root q d place) : SameOutside place t (ws.reset cwd t).1 := by
  have hremoved := Tree.sameOutside_removeAll hplace
  rw [fst_reset]
  rcases Tree.makeFolders_of_parent hup.ne_empty hup.parent (hup.reaches hremoved) with
    ⟨made, hmade, hall⟩ | ⟨f, -, hall⟩
  · obtain ⟨e, name, hnames, hnone, -, rfl⟩ := Tree.makeFolder_eq_ok hmade
    have hin := suffix_of_made h hplace hnames hnone
    rw [hall]
    exact hremoved.trans fun other hout =>
      Tree.node?_put_ne _ (by rintro rfl; exact hout hin) _
  · rw [hall]
    exact hremoved

/-- **After a reset that succeeds** the path leads to its place, and nothing is in it. -/
theorem reset_at_place (h : t.WellFormed) (hstem : Path.fileName? ws.root = some stem)
    (hplace : t.place? cwd ws.root = some place) (hup : Beside t cwd ws.root q d place)
    (hreset : ws.reset cwd t = (t', .ok ())) : t'.Reaches cwd ws.root place ∧ t'.Bare place := by
  have hremoved := Tree.sameOutside_removeAll hplace
  rw [reset] at hreset
  rcases Tree.makeFolders_of_parent hup.ne_empty hup.parent (hup.reaches hremoved) with
    ⟨made, hmade, hall⟩ | ⟨f, -, hall⟩
  · rw [hall] at hreset
    cases hreset
    obtain ⟨e, name, hnames, hnone, -, rfl⟩ := Tree.makeFolder_eq_ok hmade
    -- what has been made is the last component, right below the directory above
    obtain ⟨n, -, hlead⟩ := hup.way
    obtain ⟨rfl, rfl⟩ := hnames.eq_fileName hstem hup.parent (hlead.mono hremoved.keeps_without)
    obtain rfl : place = name :: e := by
      rcases List.suffix_cons_iff.mp (suffix_of_made h hplace hnames hnone) with heq | hin
      · exact heq
      · exact absurd hin hup.outside
    obtain ⟨d', hjust⟩ := Tree.justMade_of_makeFolder (h.removeAll cwd ws.root).1 hmade
    have hself : ((t.removeAll cwd ws.root).1.put (name :: e) .folder).isFolderAt (name :: e) =
        true := by
      rw [Tree.isFolderAt, Tree.node?_put_self _ (List.cons_ne_nil name e)]
      rfl
    have hreach := (hnames.mono (Tree.adds_put_folder hnone).keeps).reaches hself
    obtain rfl := hreach.unique hjust.reaches
    exact ⟨hreach, hjust.bare⟩
  · rw [hall] at hreset
    split at hreset
    · rename_i fresh heq
      obtain ⟨rfl, hok⟩ := Prod.mk.inj heq
      cases hreset
      split at hok
      · rename_i hfolder
        obtain ⟨e, hreach⟩ := Tree.isFolder_iff.mp hfolder
        have hthere := Tree.place?_of_lookup (Tree.lookup_of_removeAll h hreach)
        rw [hplace] at hthere
        cases hthere
        exact ⟨hreach, Tree.removeAll_bare h hreach⟩
      · cases hok
    · cases hreset

/-- A reset does nothing, and fails, where the path has no place below a directory that is there. -/
theorem reset_unplaced (hplace : t.place? cwd ws.root = none) (hne : ws.root ≠ "")
    (hparent : Path.parent? ws.root = some q) (hq : q = "" ∨ ∃ d, t.Reaches cwd q d) :
    ∃ cause, ws.reset cwd t = (t, .error cause) := by
  have hmissing : ∀ loc, t.lookup cwd false ws.root ≠ .ok loc := by
    intro loc hfind
    rw [Tree.place?_of_lookup hfind] at hplace
    cases hplace
  have hremoved : (t.removeAll cwd ws.root).1 = t := Tree.removeAll_unplaced hplace
  have hfolder : t.isFolder cwd ws.root = false := by
    cases hfolder : t.isFolder cwd ws.root with
    | false => rfl
    | true =>
      obtain ⟨e, hreach⟩ := Tree.isFolder_iff.mp hfolder
      rcases hreach.lookup_entry with hfind | ⟨-, _, _, _, -, hfind, -⟩
      · exact absurd hfind (hmissing _)
      · exact absurd hfind (hmissing _)
  rw [reset, hremoved]
  rcases Tree.makeFolders_of_parent hne hparent hq with ⟨made, hmade, -⟩ | ⟨f, -, hall⟩
  · obtain ⟨e, name, hnames, hnone, -, -⟩ := Tree.makeFolder_eq_ok hmade
    rw [Tree.place?_of_names hnames (by intro target; rw [hnone]; simp)] at hplace
    cases hplace
  · rw [hall, hfolder]
    exact ⟨_, rfl⟩

end Workspace

end Concolic
