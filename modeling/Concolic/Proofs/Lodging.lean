import Concolic.Proofs.Site
import Concolic.Proofs.Tree.Heading

/-
  Two trees with the same working directory.

  From the directory above a session looks at that one and at what is in the working directory, and
  at nothing else (`Around`).  There may be links on the way, and elsewhere.  A working directory
  that is itself a link is replaced by a reset, unless a slash or a dot follows its name; that is
  excluded.
-/

namespace Concolic

namespace Path

/-- How a path ends: with its last component `stem`, and dots. -/
structure Ends (p q stem : String) (after : List String) : Prop where
  parent : parent? p = some q
  absolute : isAbsolute q = isAbsolute p
  steps : ∃ before, (route p).steps = (route q).steps ++ (before ++ stem :: after) ∧
    ∀ step ∈ before, step = "."
  dots : ∀ step ∈ after, step = "."
  ne_dot : stem ≠ "."
  ne_up : stem ≠ ".."

theorem ends_of_fileName {p stem : String} (h : fileName? p = some stem) :
    ∃ q after, Ends p q stem after := by
  obtain ⟨q, before, after, hparent, habs, hsteps, hbefore, hafter, hdot, hup⟩ := route_fileName h
  exact ⟨q, after, hparent, habs, ⟨before, hsteps, hbefore⟩, hafter, hdot, hup⟩

/-- Nothing follows the last component, not even a slash. -/
structure EndsInName (p : String) : Prop where
  slash : (route p).slash = false
  last : (route p).steps.getLast? ≠ some "."

theorem EndsInName.after {p q stem : String} {after : List String} (h : EndsInName p)
    (hends : Ends p q stem after) : after = [] := by
  rcases List.eq_nil_or_concat after with rfl | ⟨dots, last, rfl⟩
  · rfl
  · obtain ⟨before, hsteps, -⟩ := hends.steps
    obtain rfl := hends.dots last (by simp)
    refine absurd ?_ h.last
    rw [hsteps, List.concat_eq_append, ← List.cons_append]
    simp only [← List.append_assoc, List.getLast?_concat]

end Path

namespace Tree

variable {t t' u v : Tree} {cwd d : Loc} {p q stem name : String} {after : List String}

/-! ## The way to the working directory -/

/-- The path leads to the directory `d` above `place`, which is there, without going through
    `place`. -/
structure Lodged (cwd : Loc) (p q : String) (d place : Loc) (t : Tree) : Prop where
  beside : Beside t cwd p q d place
  paved : Paved d t

theorem Beside.mono {place : Loc} (h : Beside t cwd p q d place)
    (hkeeps : Keeps (t.without place) (t'.without place)) : Beside t' cwd p q d place := by
  obtain ⟨n, hn, hlead⟩ := h.way
  exact ⟨h.parent, ⟨n, hn, hlead.mono hkeeps⟩, hkeeps.isFolderAt h.folder, h.text, h.outside⟩

/-- **A working directory stays lodged** while the ways outside of it are kept. -/
theorem Lodged.mono {place : Loc} (h : Lodged cwd p q d place t)
    (hkeeps : Keeps (t.without place) (t'.without place)) : Lodged cwd p q d place t' := by
  refine ⟨h.beside.mono hkeeps, fun loc hloc => ?_⟩
  have hout : ¬ place <:+ loc := fun hin => h.beside.outside (hin.trans hloc)
  have hfolder : (t.without place).isFolderAt loc = true := by
    rw [Tree.isFolderAt, node?_without t hout]
    exact h.paved loc hloc
  exact (within_without t' place).keeps.isFolderAt (hkeeps.isFolderAt hfolder)

theorem Lodged.frame {place : Loc} (h : Lodged cwd p q d place t) (hsame : SameOutside place t t') :
    Lodged cwd p q d place t' := h.mono hsame.keeps_without_both

theorem Beside.heads {place : Loc} (h : Beside t cwd p q d place)
    (hends : Path.Ends p q stem after) : Heads t cwd p d (stem :: after) := by
  obtain ⟨before, hsteps, hbefore⟩ := hends.steps
  obtain ⟨n, hn, hlead⟩ := h.way
  have hkeeps := (within_without t place).keeps
  have hstart : start cwd p = start cwd q := by rw [start, start, hends.absolute]
  have hway := (hlead.mono hkeeps).append (leads_dots hbefore (hkeeps.isFolderAt h.folder))
  refine ⟨fun hmem => ?_, (Path.route q).steps ++ before, ?_, n, hn, hstart ▸ hway⟩
  · rcases List.mem_cons.mp hmem with heq | hdot
    · exact hends.ne_up heq.symm
    · exact absurd (hends.dots _ hdot) (by decide)
  · rw [hsteps, List.append_assoc]

theorem Beside.reaches_place {place : Loc} (h : Beside t cwd p q d place)
    (hends : Path.Ends p q stem after) (hname : IsName stem) (htext : checkText p = .ok ())
    (hfolder : t.isFolderAt (stem :: d) = true) : Reaches t cwd p (stem :: d) := by
  obtain ⟨init, hsteps, n, hn, hlead⟩ := (h.heads hends).way
  have hd := (within_without t place).keeps.isFolderAt h.folder
  have hlast : Leads t d (stem :: after) (stem :: d) 0 :=
    .into hd hname hfolder (leads_dots hends.dots hfolder)
  refine ⟨htext, hfolder, n, hn, ?_⟩
  rw [hsteps]
  exact hlead.append hlast

/-! ## What is looked at -/

/-- The directory `d`, and what is at `place` or inside it. -/
def Around (d place loc : Loc) : Prop := loc = d ∨ place <:+ loc

theorem around_between {loc e : Loc} (hin : d <:+ loc) (hway : loc <:+ e)
    (hgoal : stem :: d <:+ e) : Around d (stem :: d) loc := by
  rcases List.suffix_or_suffix_of_suffix hway hgoal with hup | hdown
  · rcases List.suffix_cons_iff.mp hup with rfl | hup
    · exact .inr (List.suffix_refl _)
    · exact .inl (hup.eq_of_length_le hin.length_le)
  · exact .inr hdown

theorem meets_inside {rest : List String} (hu : Heads u cwd p d rest) (hv : Heads v cwd p d rest)
    (h : Agree (Around d (stem :: d)) u v) (hgoal : stem :: d <:+ descend d rest)
    (hd : ∀ target, u.node? d ≠ some (.link target))
    (hlink : ∀ loc target, stem :: d <:+ loc → loc <:+ descend d rest →
      u.node? loc ≠ some (.link target)) : Meets (Around d (stem :: d)) u v cwd p := by
  refine hu.meets hv h (fun heq => ?_) (fun loc target hin hway => ?_) fun loc hin hway =>
    around_between hin hway hgoal
  · rw [← heq] at hgoal
    exact not_cons_suffix stem (List.suffix_refl d) hgoal
  · rcases around_between hin hway hgoal with rfl | hplace
    · exact hd target
    · exact hlink loc target hplace hway

theorem Beside.not_link {place : Loc} (h : Beside t cwd p q d place) (target : String) :
    t.node? d ≠ some (.link target) := by
  intro hlink
  have hfolder := (within_without t place).keeps.isFolderAt h.folder
  rw [isFolderAt_of_link hlink] at hfolder
  cases hfolder

theorem descend_ends (hends : Path.Ends p q stem after) (d : Loc) :
    descend d (stem :: after) = stem :: d := by
  rw [descend, if_neg hends.ne_dot, descend_dots hends.dots]

section Two

variable (hends : Path.Ends p q stem after) (hu : Beside u cwd p q d (stem :: d))
  (hv : Beside v cwd p q d (stem :: d)) (h : Agree (Around d (stem :: d)) u v)

include hends hu hv h

/-- **The path of the working directory** shows the same in both trees. -/
theorem Beside.meets (hlink : ∀ target, u.node? (stem :: d) ≠ some (.link target)) :
    Meets (Around d (stem :: d)) u v cwd p := by
  refine meets_inside (hu.heads hends)
    (hv.heads hends) h ?_ hu.not_link fun loc target hin hway => ?_
  · exact ⟨[], (descend_ends hends d).symm⟩
  · rw [descend_ends hends] at hway
    rw [hway.eq_of_length_le hin.length_le]
    exact hlink target

/-- **So do the paths below it**, if there are no links in it. -/
theorem Beside.meets_join (hplain : Path.IsPlain name) (hname : IsName name)
    (hin : u.Plain (stem :: d)) :
    Meets (Around d (stem :: d)) u v cwd (Path.join p name) := by
  refine meets_inside ((hu.heads hends).join hplain hname.ne_up)
    ((hv.heads hends).join hplain hname.ne_up) h ?_ hu.not_link fun loc target hplace _ hlink => ?_
  · rw [descend_append, descend_ends hends]
    exact suffix_descend _ _
  · have halias := hin loc _ hplace hlink
    cases halias

end Two

/-! ## The place of the path -/

/-- There is no link at the place, or the path ends in its name. -/
def Unfollowed (p : String) (place : Loc) (t : Tree) : Prop :=
  (∀ target, t.node? place ≠ some (.link target)) ∨ Path.EndsInName p

theorem loc_of_scan_last {slash : Bool} {jump : Loc → List String → Bool → Except Fault Arrival}
    {a : Arrival} (hdot : name ≠ ".") (hup : name ≠ "..")
    (h : t.scan false jump slash d [name] = .ok a) : a.spot.loc = name :: d := by
  rw [scan_eq_ok_iff] at h
  cases h with
  | stay => exact absurd rfl hdot
  | up => exact absurd rfl hup
  | last _ _ _ ha => rw [ha, Spot.loc]
  | into _ _ hne => exact absurd rfl hne
  | through _ _ _ hstop => cases hstop rfl

section One

variable (hends : Path.Ends p q stem after) (h : Beside t cwd p q d (stem :: d))

include hends h

theorem Beside.free (hlink : ∀ target, t.node? (stem :: d) ≠ some (.link target)) :
    FreeBetween t d (descend d (stem :: after)) := by
  intro loc target hin hway
  rw [descend_ends hends] at hway
  rcases List.suffix_cons_iff.mp hway with rfl | hup
  · exact hlink target
  · rw [hup.eq_of_length_le hin.length_le]
    exact h.not_link target

theorem Beside.place?_cases (hend : Unfollowed p (stem :: d) t) :
    t.place? cwd p = some (stem :: d) ∨ t.place? cwd p = none := by
  cases hres : t.resolve cwd (Path.route p).slash p with
  | error f => exact .inr (by rw [place?, hres])
  | ok a =>
    refine .inl ?_
    rw [place?, hres]
    refine congrArg some ?_
    rcases hend with hlink | hname
    · rw [(h.heads hends).arrives (List.cons_ne_nil _ _) (h.free hends hlink) hres,
        descend_ends hends]
    · obtain ⟨jump, hscan⟩ := (h.heads hends).resolve (List.cons_ne_nil _ _) (text_of_resolve hres)
        (Path.route p).slash
      rw [hres, hname.slash, hname.after hends] at hscan
      exact loc_of_scan_last hends.ne_dot hends.ne_up hscan.symm

theorem Beside.sameOutside_removeAll (hend : Unfollowed p (stem :: d) t) :
    SameOutside (stem :: d) t (t.removeAll cwd p).1 := by
  rcases h.place?_cases hends hend with hplace | hplace
  · exact Tree.sameOutside_removeAll hplace
  · rw [removeAll_unplaced hplace]
    exact .refl _ t

omit h in
theorem Beside.names (h : Beside t cwd p q d (stem :: d)) (hname : IsName stem)
    (hafter : after = []) (htext : checkText p = .ok ()) : Names t cwd p d stem := by
  obtain ⟨init, hsteps, n, hn, hlead⟩ := (h.heads hends).way
  rw [hafter] at hsteps
  exact ⟨htext, (within_without t _).keeps.isFolderAt h.folder, hname, init, hsteps, n, hn, hlead⟩

end One

theorem Names.removeAll_link (h : Names t cwd p d name) (hslash : (Path.route p).slash = false)
    {target : String} (hlink : t.node? (name :: d) = some (.link target)) :
    (t.removeAll cwd p).1 = t.erase (name :: d) := by
  have hres := h.resolve false fun hf => by cases hf
  have hfind : t.lookup cwd false p = .ok (name :: d) := by
    refine lookup_of_resolve (a := ⟨.entry d name, (Path.route p).slash⟩) ?_ hlink fun hs => ?_
    · rw [hslash] at hres ⊢
      exact hres
    · rw [hslash] at hs
      cases hs
  rw [removeAll, hfind]
  simp only [hlink, h.removeFile hslash hlink rfl]

theorem Agree.makeFolders_of_parent {K : Loc → Prop} (h : Agree K u v) (hp : Meets K u v cwd p)
    (hne : p ≠ "") (hparent : Path.parent? p = some q) (hu : q = "" ∨ ∃ d, Reaches u cwd q d)
    (hv : q = "" ∨ ∃ d, Reaches v cwd q d) :
    (u.makeFolders cwd p).2 = (v.makeFolders cwd p).2 ∧
      Agree K (u.makeFolders cwd p).1 (v.makeFolders cwd p).1 := by
  have hmake := h.makeFolder hp
  rcases Tree.makeFolders_of_parent hne hparent hu with ⟨made, hmade, hall⟩ | ⟨f, hfails, hall⟩
  · rcases Tree.makeFolders_of_parent hne hparent hv with ⟨made', hmade', hall'⟩ | ⟨f', hfails', -⟩
    · rw [hmade, hmade'] at hmake
      rw [hall, hall']
      cases hmake with
      | gives hagree => exact ⟨rfl, hagree⟩
    · rw [hmade, hfails'] at hmake
      cases hmake
  · rcases Tree.makeFolders_of_parent hne hparent hv with ⟨made', hmade', -⟩ | ⟨f', hfails', hall'⟩
    · rw [hfails, hmade'] at hmake
      cases hmake
    · rw [hfails, hfails'] at hmake
      rw [hall, hall', h.isFolder hp]
      cases hmake with
      | fails => exact ⟨rfl, h⟩

end Tree

namespace Workspace

open Concolic.Tree (Agree Around Beside ChangesInside IsName Lodged Meets SameOutside Unfollowed)

variable {ws : Workspace} {cwd d : Loc} {t t' u v : Tree} {q stem name : String}
  {after : List String}

/-! ## Making the directory anew -/

/-- **A reset changes nothing outside**, whether it succeeds or not. -/
theorem changesInside_reset (hends : Path.Ends ws.root q stem after)
    (hstem : Path.fileName? ws.root = some stem) (h : Beside t cwd ws.root q d (stem :: d))
    (hend : Unfollowed ws.root (stem :: d) t) : ChangesInside (stem :: d) t (ws.reset cwd t).1 := by
  have hremoved := h.sameOutside_removeAll hends hend
  have hadds := Tree.adds_makeFolders (t.removeAll cwd ws.root).1 cwd ws.root
  rw [fst_reset]
  refine ⟨?_, fun loc node hnode halias => ?_⟩
  · rcases Tree.makeFolders_of_parent h.ne_empty h.parent (h.reaches hremoved) with
      ⟨made, hmade, hall⟩ | ⟨f, -, hall⟩
    · obtain ⟨e, name, hnames, -, -, rfl⟩ := Tree.makeFolder_eq_ok hmade
      obtain ⟨n, -, hlead⟩ := h.way
      obtain ⟨rfl, rfl⟩ := hnames.eq_fileName hstem h.parent (hlead.mono hremoved.keeps_without)
      rw [hall]
      exact hremoved.trans (Tree.works_put _ _ rfl).inside.outside
    · rw [hall]
      exact hremoved
  · -- a link or a shared file is no directory that has been made
    refine Tree.within_removeAll t cwd ws.root loc node (hadds.node?_of_some hnode ?_)
    rintro rfl
    cases halias

theorem reset_of_bad_text {f : Fault} (hne : ws.root ≠ "")
    (htext : Tree.checkText ws.root = .error f)
    (t : Tree) : ws.reset cwd t = (t, .error (.workspaceCreate ws.root f)) := by
  have hplace : t.place? cwd ws.root = none := by
    rw [Tree.place?, Tree.resolve_of_bad_text htext]
  rw [reset, Tree.removeAll_unplaced hplace, Tree.makeFolders_of_bad_text hne htext]

section Two

variable (hends : Path.Ends ws.root q stem after) (hu : Beside u cwd ws.root q d (stem :: d))
  (hv : Beside v cwd ws.root q d (stem :: d)) (h : Agree (Around d (stem :: d)) u v)

include hends hu hv h

theorem agree_removeAll_of_no_link (hlink : ∀ target, u.node? (stem :: d) ≠ some (.link target)) :
    Agree (Around d (stem :: d)) (u.removeAll cwd ws.root).1 (v.removeAll cwd ws.root).1 := by
  have hne : (stem :: after) ≠ [] := List.cons_ne_nil _ _
  refine h.removeAll (Beside.meets hends hu hv h hlink) fun loc hfind _ => ?_
  obtain ⟨a, hres, rfl, -⟩ := Tree.lookup_eq_ok hfind
  rw [(hu.heads hends).arrives hne (hu.free hends hlink) hres, Tree.descend_ends hends]
  -- once it is cleared it is still no link, and the directory above is still there
  have hclear : ∀ t : Tree, SameOutside (stem :: d) t (t.clear (stem :: d)) := fun t =>
    (Tree.works_clear t _).inside.outside
  have hu' := hu.mono (hclear u).keeps_without_both
  have hv' := hv.mono (hclear v).keeps_without_both
  have hlink' : ∀ target, (u.clear (stem :: d)).node? (stem :: d) ≠ some (.link target) :=
    fun target hnode => hlink target (Tree.within_clear u _ _ _ hnode)
  refine ⟨Beside.meets hends hu' hv' (h.clear _) hlink', fun a hres' => ?_⟩
  rw [(hu'.heads hends).arrives hne (hu'.free hends hlink') hres', Tree.descend_ends hends]

theorem agree_removeAll (hname : IsName stem) (hend : Unfollowed ws.root (stem :: d) u)
    (htext : Tree.checkText ws.root = .ok ()) :
    Agree (Around d (stem :: d)) (u.removeAll cwd ws.root).1 (v.removeAll cwd ws.root).1 ∧
      ∀ target, (u.removeAll cwd ws.root).1.node? (stem :: d) ≠ some (.link target) := by
  by_cases hlink : ∃ target, u.node? (stem :: d) = some (.link target)
  · obtain ⟨target, hlink⟩ := hlink
    have hlast := hend.resolve_left fun hno => hno target hlink
    have hlink' : v.node? (stem :: d) = some (.link target) := by
      rw [← h.nodes _ (.inr (List.suffix_refl _)), hlink]
    rw [(hu.names hends hname (hlast.after hends) htext).removeAll_link hlast.slash hlink,
      (hv.names hends hname (hlast.after hends) htext).removeAll_link hlast.slash hlink']
    refine ⟨h.erase _, fun other hother => ?_⟩
    rw [Tree.node?_erase_self u (List.cons_ne_nil _ _)] at hother
    cases hother
  · have hno : ∀ target, u.node? (stem :: d) ≠ some (.link target) := fun target hnode =>
      hlink ⟨target, hnode⟩
    exact ⟨agree_removeAll_of_no_link hends hu hv h hno, fun target hnode =>
      hno target (Tree.within_removeAll u cwd ws.root _ _ hnode)⟩

/-- **A reset ends alike** in both trees, and leaves trees that agree. -/
theorem agree_reset_of_beside (hname : IsName stem) (hend : Unfollowed ws.root (stem :: d) u) :
    (ws.reset cwd u).2 = (ws.reset cwd v).2 ∧
      Agree (Around d (stem :: d)) (ws.reset cwd u).1 (ws.reset cwd v).1 := by
  cases htext : Tree.checkText ws.root with
  | error f =>
    rw [reset_of_bad_text hu.ne_empty htext, reset_of_bad_text hu.ne_empty htext]
    exact ⟨rfl, h⟩
  | ok =>
    have hend' : Unfollowed ws.root (stem :: d) v := hend.imp_left fun hno target hnode => by
      rw [← h.nodes _ (.inr (List.suffix_refl _))] at hnode
      exact hno target hnode
    have hsame := hu.sameOutside_removeAll hends hend
    have hsame' := hv.sameOutside_removeAll hends hend'
    obtain ⟨hremoved, hno⟩ := agree_removeAll hends hu hv h hname hend htext
    have hmeets := Beside.meets hends (hu.mono hsame.keeps_without_both)
      (hv.mono hsame'.keeps_without_both) hremoved hno
    have hmade := hremoved.makeFolders_of_parent hmeets hu.ne_empty hends.parent (hu.reaches hsame)
      (hv.reaches hsame')
    rw [reset, reset]
    revert hmade
    generalize (u.removeAll cwd ws.root).1.makeFolders cwd ws.root = a
    generalize (v.removeAll cwd ws.root).1.makeFolders cwd ws.root = b
    obtain ⟨u₁, r⟩ := a
    obtain ⟨v₁, r'⟩ := b
    rintro ⟨rfl, hagree⟩
    cases r <;> exact ⟨rfl, hagree⟩

end Two

/-! ## Iterations -/

/-- The working directory is lodged, and the path led to it when it was made. -/
structure Tended (ws : Workspace) (cwd : Loc) (q : String) (d place : Loc) (t : Tree) : Prop where
  lodged : Lodged cwd ws.root q d place t
  watched : ∃ x, ws.Watched cwd x place t

theorem Tended.plain {place : Loc} (h : ws.Tended cwd q d place t) : t.Plain place := by
  obtain ⟨x, hx⟩ := h.watched
  exact hx.guarded.plain

theorem Tended.step {place : Loc} (h : ws.Tended cwd q d place t)
    (hchange : ChangesInside place t t') : ws.Tended cwd q d place t' := by
  obtain ⟨x, hx⟩ := h.watched
  exact ⟨h.lodged.frame hchange.outside, x, hx.step hchange⟩

/-- **A reset that succeeds** leaves a directory that the path leads to and that can
    be worked in. -/
theorem tended_of_reset (hform : t.WellFormed) (hends : Path.Ends ws.root q stem after)
    (hstem : Path.fileName? ws.root = some stem) (h : Lodged cwd ws.root q d (stem :: d) t)
    (hend : Unfollowed ws.root (stem :: d) t) (hreset : ws.reset cwd t = (t', .ok ())) :
    t'.Reaches cwd ws.root (stem :: d) ∧ ws.Tended cwd q d (stem :: d) t' := by
  have hup := h.beside
  have hplace : t.place? cwd ws.root = some (stem :: d) := by
    refine (hup.place?_cases hends hend).resolve_right fun hnone => ?_
    obtain ⟨cause, hfails⟩ := reset_unplaced hnone hup.ne_empty hup.parent (hup.reaches (.refl _ t))
    rw [hfails] at hreset
    cases hreset
  have hchange := changesInside_reset hends hstem hup hend
  have hform' := wellFormed_reset hform ws cwd
  rw [hreset] at hchange hform'
  obtain ⟨hreach, hbare⟩ := reset_at_place hform hstem hplace hup hreset
  have hplain := hform'.plain_of_bare hreach.folder hbare
  exact ⟨hreach, h.frame hchange.outside, t', hreach, hplain, Tree.guarded_self hplain⟩

theorem tended_of_agree (hends : Path.Ends ws.root q stem after) (hname : IsName stem)
    (hreach : u.Reaches cwd ws.root (stem :: d)) (hu : ws.Tended cwd q d (stem :: d) u)
    (hv : Lodged cwd ws.root q d (stem :: d) v) (h : Agree (Around d (stem :: d)) u v) :
    ws.Tended cwd q d (stem :: d) v := by
  have hplain : v.Plain (stem :: d) := fun loc node hin hnode =>
    hu.plain loc node hin (by rw [h.nodes loc (.inr hin), hnode])
  have hfolder' : v.isFolderAt (stem :: d) = true := by
    rw [← h.isFolderAt (.inr (List.suffix_refl _))]
    exact hreach.folder
  exact ⟨hv, v, hv.beside.reaches_place hends hname hreach.text hfolder', hplain,
    Tree.guarded_self hplain⟩

/-- **Archiving goes alike** where directories are tended. -/
theorem accords_tended (hends : Path.Ends ws.root q stem after) :
    ws.Accords cwd (Around d (stem :: d)) (ws.Tended cwd q d (stem :: d)) := by
  refine ⟨fun hu hv hagree husable => ?_, fun src ht husable => ?_⟩
  · exact Beside.meets_join hends hu.lodged.beside hv.lodged.beside hagree
      husable.plain husable.isName
      hu.plain
  · obtain ⟨x, hx⟩ := ht.watched
    exact ht.step (hx.copyArtifact husable src)

end Workspace

end Concolic
