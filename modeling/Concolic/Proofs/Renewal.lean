import Concolic.Proofs.Locality
import Concolic.Proofs.Ownership

/-
  What a reset renews and what it spares, on any tree.

  A reset removes what the path names, and nothing else, and then makes the directories of the path
  that are missing (`Confined`).  If it fails, nothing is lost, with one exception: a link on the
  way may go through the directory that the path names (`Circular`).
-/

namespace Concolic

namespace Path

/-- The path is made of names and has no slash at its end. -/
structure IsNormal (p : String) : Prop where
  nonempty : (route p).steps ≠ []
  names : ∀ step ∈ (route p).steps, step ≠ "." ∧ step ≠ ".."
  slash : (route p).slash = false

instance (p : String) : Decidable (IsNormal p) :=
  decidable_of_iff ((!(route p).steps.isEmpty && (route p).steps.all (fun step => step != "." &&
    step != "..") && !(route p).slash) = true) <| by
    simp only [Bool.and_eq_true, Bool.not_eq_true', List.isEmpty_eq_false_iff, List.all_eq_true,
      bne_iff_ne, ne_eq]
    exact ⟨fun h => ⟨h.1.1, h.1.2, h.2⟩, fun h => ⟨⟨h.nonempty, h.names⟩, h.slash⟩⟩

theorem IsNormal.last {p : String} (h : IsNormal p) :
    ∃ init last, (route p).steps = init ++ [last] ∧ last ≠ "." ∧ last ≠ ".." := by
  rcases List.eq_nil_or_concat (route p).steps with hnil | ⟨init, last, hsteps⟩
  · exact absurd hnil h.nonempty
  · rw [List.concat_eq_append] at hsteps
    exact ⟨init, last, hsteps, h.names last (by rw [hsteps]; simp)⟩

theorem IsNormal.isDescent {p : String} (h : IsNormal p) : IsDescent p := by
  obtain ⟨init, last, hsteps, hdot, -⟩ := h.last
  exact ⟨⟨last, by rw [hsteps]; simp, hdot⟩, fun hup => (h.names _ hup).2 rfl⟩

end Path

namespace Tree

variable {t t' t₁ : Tree} {cwd d e : Loc} {p name : String}

/-! ## What a path of names names -/

theorem names_of_place? (hp : Path.IsNormal p) {place : Loc} (h : t.place? cwd p = some place) :
    ∃ d name, place = name :: d ∧ Names t cwd p d name := by
  obtain ⟨⟨spot, slash⟩, hres, rfl⟩ := place?_eq_some h
  rw [hp.slash] at hres
  cases spot with
  | entry d name => exact ⟨d, name, rfl, (names_of_resolve hres).1⟩
  | here e =>
    obtain ⟨init, last, hsteps, hdot, hup⟩ := hp.last
    rw [resolve_of_text (text_of_resolve hres), hsteps] at hres
    obtain ⟨hslash, -⟩ := endsAt_of_walk _ _ _ _ hres
    exact absurd (hslash ▸ hres) (walk_ne_here hdot hup)

theorem Names.place? (h : Names t cwd p d name) (hp : Path.IsNormal p) :
    t.place? cwd p = some (name :: d) := by
  rw [Tree.place?, hp.slash, h.resolve false fun hf => by cases hf]
  rfl

theorem Reaches.exists_names (h : Reaches t cwd p d) (hp : Path.IsNormal p) :
    ∃ e last, Names t cwd p e last := by
  obtain ⟨init, last, hsteps, hdot, hup⟩ := hp.last
  obtain ⟨n, hn, hlead⟩ := h.way
  rw [hsteps] at hlead
  obtain ⟨e, n₁, n₂, hinit, hlast, hsum⟩ := hlead.split
  have hnames : t.isFolderAt e = true → IsName last → Names t cwd p e last := fun hfolder hname =>
    ⟨h.text, hfolder, hname, init, hsteps, n₁, by omega, hinit⟩
  cases hlast with
  | stay => exact absurd rfl hdot
  | up => exact absurd rfl hup
  | into hfolder hname => exact ⟨e, last, hnames hfolder hname⟩
  | through hfolder hname => exact ⟨e, last, hnames hfolder hname⟩

/-- The path goes through what it names. -/
def Circular (t : Tree) (cwd : Loc) (p : String) : Prop :=
  ∃ d name, Names t cwd p d name ∧ ∀ e last, ¬ Names (t.without (name :: d)) cwd p e last

/-- The two trees hold the same. -/
structure Same (t t' : Tree) : Prop where
  entries : ∀ loc, t'.node? loc = t.node? loc
  pool : t'.pool = t.pool

theorem Same.keeps (h : Same t t') : Keeps t t' := fun loc node hnode _ => by rw [h.entries, hnode]

/-! ## Removing -/

theorem WellFormed.node?_inside (h : t.WellFormed) (hempty : ∀ inner, t.node? (inner :: d) = none) :
    ∀ loc, isBelow d loc = true → t.node? loc = none := by
  intro loc
  induction loc with
  | nil =>
    intro hbelow
    rw [not_isBelow_nil] at hbelow
    cases hbelow
  | cons inner up ih =>
    intro hbelow
    simp only [isBelow, Bool.and_eq_true, decide_eq_true_eq] at hbelow
    rcases List.suffix_cons_iff.mp hbelow.1 with heq | hup
    · exact absurd heq hbelow.2
    · by_cases heq : d = up
      · exact heq ▸ hempty inner
      · exact h.node?_below (isFolderAt_of_none (ih (by simp [isBelow, hup, heq]))) inner

theorem same_clear (h : t.WellFormed) (hempty : ∀ inner, t.node? (inner :: d) = none) :
    Same t (t.clear d) := by
  refine ⟨fun loc => ?_, rfl⟩
  rw [node?_clear]
  split
  · rename_i hbelow
    exact (h.node?_inside hempty loc hbelow).symm
  · rfl

theorem Names.removeFolder (h : Names t cwd p d name) (hnode : t.node? (name :: d) = some .folder)
    (hempty : t.isEmptyAt (name :: d) = true) :
    t.removeFolder cwd p = .ok (t.erase (name :: d)) := by
  rw [Tree.removeFolder, h.resolve false fun hf => by cases hf]
  simp only [bind, Except.bind, hnode, hempty, if_true]

/-- What removing leaves of a tree. -/
inductive Removed (cwd : Loc) (p : String) (t t₁ : Tree) : Prop where
  /-- The path names nothing that would be removed. -/
  | nothing (hsame : t₁ = t)
      (hnot : ∀ d name, Names t cwd p d name → t.node? (name :: d) ≠ some .folder)
  /-- What the path names is gone, with all that was inside it. -/
  | entry {d : Loc} {name : String} {node : Node} (hnames : Names t cwd p d name)
      (hnode : t.node? (name :: d) = some node) (hseal : t.node? d ≠ some .sealed)
      (hleft : Same (t.without (name :: d)) t₁)
  /-- The directory is empty, and its path leads nowhere any more. -/
  | contents {d : Loc} {name : String} (hnames : Names t cwd p d name)
      (hleft : t₁ = t.clear (name :: d)) (hlost : ∀ e last, ¬ Names t₁ cwd p e last)

/-- **How a removal goes.** -/
theorem removed (h : t.WellFormed) (hp : Path.IsNormal p) (cwd : Loc) :
    Removed cwd p t (t.removeAll cwd p).1 := by
  have hunsealed : ∀ {name d node}, t.node? (name :: d) = some node → node ≠ .sealed →
      (∀ device, node ≠ .device device) → t.node? d ≠ some .sealed := by
    intro name d node hnode hne hdevice hsealed
    rcases h.guarded hsealed hnode with rfl | ⟨device, rfl⟩
    · exact hne rfl
    · exact hdevice device rfl
  cases removal t cwd p with
  | nothing hleft hnot =>
    exact .nothing hleft fun d name hnames hnode =>
      hnot _ (hnames.lookup_some hp.slash hnode (by simp) false) hnode
  | link hleft hfind hlink =>
    obtain ⟨d, name, rfl, hnames⟩ := names_of_place? hp (place?_of_lookup hfind)
    rw [hleft]
    refine .entry hnames hlink (hunsealed hlink (by simp) (by simp)) ⟨fun loc => ?_, rfl⟩
    -- nothing is inside a link, so that clearing it changes nothing
    have hcleared := same_clear (d := name :: d) h fun inner => h.node?_below (by
      rw [isFolderAt, hlink]
      rfl) inner
    by_cases heq : loc = name :: d
    · rw [heq, node?_erase_self t (by simp), without, node?_erase_self _ (by simp)]
    · rw [node?_erase_ne t heq, without, node?_erase_ne _ heq, hcleared.entries]
  | contents hleft hfind hfolder hfails =>
    obtain ⟨d, name, rfl, hnames⟩ := names_of_place? hp (place?_of_lookup hfind)
    refine .contents hnames hleft fun e last hnames' => ?_
    rw [hleft] at hnames'
    obtain ⟨rfl, rfl⟩ := hnames.unique (hnames'.mono (within_clear t _).keeps)
    refine hfails _ (hnames'.removeFolder ?_ (isEmptyAt_clear t _))
    rw [node?_clear]
    simpa [isBelow] using hfolder
  | folder hleft hfind hfolder =>
    obtain ⟨d, name, rfl, hnames⟩ := names_of_place? hp (place?_of_lookup hfind)
    rw [hleft]
    exact .entry hnames hfolder (hunsealed hfolder (by simp) (by simp)) ⟨fun _ => rfl, rfl⟩

theorem Removed.pool (h : Removed cwd p t t₁) : t₁.pool = t.pool := by
  cases h with
  | nothing hsame => rw [hsame]
  | entry _ _ _ hleft => rw [hleft.pool]; rfl
  | contents _ hleft => rw [hleft]; rfl

theorem Removed.outside (h : Removed cwd p t t₁) (hp : Path.IsNormal p) {loc : Loc}
    (hout : ∀ place, t.place? cwd p = some place → ¬ place <:+ loc) :
    t₁.node? loc = t.node? loc := by
  cases h with
  | nothing hsame => rw [hsame]
  | entry hnames _ _ hleft => rw [hleft.entries, node?_without t (hout _ (hnames.place? hp))]
  | contents hnames hleft =>
    rw [hleft, node?_clear, isBelow_eq_false (hout _ (hnames.place? hp)), if_neg Bool.false_ne_true]

end Tree

namespace Workspace

open Concolic.Tree (Adds Circular JustMade Keeps Names Reaches Removed Same WellFormed)

variable {ws : Workspace} {cwd d : Loc} {t t' t₁ : Tree} {name : String}

/-! ## What a reset spares -/

/-- Nothing changes outside of the place of the path, except for new directories that the path or
    one above it names; no contents of a file change at all. -/
structure Confined (cwd : Loc) (p : String) (t t' : Tree) : Prop where
  kept : ∀ loc node, (∀ place, t.place? cwd p = some place → ¬ place <:+ loc) →
    t.node? loc = some node → t'.node? loc = some node
  new : ∀ loc, (∀ place, t.place? cwd p = some place → ¬ place <:+ loc) →
    t.node? loc = none → t'.node? loc ≠ none →
    t'.node? loc = some .folder ∧
      ∃ q d name, (q = p ∨ Path.Above p q) ∧ loc = name :: d ∧ Names t' cwd q d name
  pool : t'.pool = t.pool

theorem eq_or_above_of_mem_ancestors (fuel : Nat) (p : String) :
    ∀ q ∈ Tree.ancestors fuel p, q = p ∨ Path.Above p q := by
  intro q hq
  cases fuel with
  | zero => cases hq
  | succ fuel =>
    rw [Tree.ancestors] at hq
    rcases List.mem_cons.mp hq with rfl | hq
    · exact .inl rfl
    · split at hq
      · rename_i up hup
        exact .inr (Tree.above_of_mem_ancestors (.parent hup) fuel q hq)
      · cases hq

/-- **A reset is confined** to what its path names, whether it succeeds or not. -/
theorem confined_reset (h : t.WellFormed) (hp : Path.IsNormal ws.root) (cwd : Loc) :
    Confined cwd ws.root t (ws.reset cwd t).1 := by
  have hremoved := Tree.removed h hp cwd
  have hadds := Tree.adds_makeFolders (t.removeAll cwd ws.root).1 cwd ws.root
  rw [fst_reset]
  refine ⟨fun loc node hout hnode => ?_, fun loc hout hnone hsome => ?_, ?_⟩
  · exact hadds.within loc node (by rw [hremoved.outside hp hout, hnode])
  · have hnone₁ : (t.removeAll cwd ws.root).1.node? loc = none := by
      rw [hremoved.outside hp hout, hnone]
    refine ⟨(hadds.new loc hnone₁).resolve_left hsome, ?_⟩
    obtain ⟨q, hq, d, name, hloc, hnames⟩ := Tree.named_of_makeFirst _ hnone₁ hsome
    exact ⟨q, d, name, eq_or_above_of_mem_ancestors _ _ q hq, hloc, hnames⟩
  · exact hadds.pool.trans hremoved.pool

/-! ## A reset that fails -/

theorem makeFolders_of_reset {cause : Failure} (hreset : ws.reset cwd t = (t', .error cause)) :
    ∃ f, cause = .workspaceCreate ws.root f ∧
      (t.removeAll cwd ws.root).1.makeFolders cwd ws.root = (t', .error f) := by
  rw [reset] at hreset
  cases hmade : (t.removeAll cwd ws.root).1.makeFolders cwd ws.root with
  | mk made r =>
    rw [hmade] at hreset
    cases r with
    | ok => cases hreset
    | error f =>
      cases hreset
      exact ⟨f, rfl, rfl⟩

/-- **A reset that fails** has lost nothing, unless the path goes through what it names. -/
theorem adds_of_failed {cause : Failure} (h : t.WellFormed) (hp : Path.IsNormal ws.root)
    (hreset : ws.reset cwd t = (t', .error cause)) : Adds t t' ∨ Circular t cwd ws.root := by
  obtain ⟨f, -, hmade⟩ := makeFolders_of_reset hreset
  have hadds := Tree.adds_makeFolders (t.removeAll cwd ws.root).1 cwd ws.root
  rw [hmade] at hadds
  cases Tree.removed h hp cwd with
  | nothing hsame =>
    rw [hsame] at hadds
    exact .inl hadds
  | @entry d name node hnames hnode hseal hleft =>
    refine .inr ⟨d, name, hnames, fun e last hway => ?_⟩
    -- the name would be free, and the directory could be made
    obtain ⟨rfl, rfl⟩ := hnames.unique (hway.mono (Tree.within_without t _).keeps)
    have hnames₁ := hway.mono hleft.keeps
    have hnone : (t.removeAll cwd ws.root).1.node? (name :: d) = none := by
      rw [hleft.entries, Tree.node?_without_inside t (List.suffix_refl _) (by simp)]
    have hout : ¬ name :: d <:+ d := fun hin => Nat.not_succ_le_self _ hin.length_le
    have hseal₁ : (t.removeAll cwd ws.root).1.node? d ≠ some .sealed := by
      rwa [hleft.entries, Tree.node?_without t hout]
    rw [Tree.makeFolders, Tree.ancestors, Tree.makeFirst,
      if_neg (Tree.ne_empty_of_text hnames.text), hnames₁.makeFolder hnone hseal₁] at hmade
    cases hmade
  | @contents d name hnames hleft hlost =>
    refine .inr ⟨d, name, hnames, fun e last hway => hlost e last (hway.mono ?_)⟩
    rw [hleft]
    exact (Tree.within_erase _ _).keeps

/-! ## A reset that succeeds -/

/-- What the path names after a reset: a directory with nothing in it, or one of the machine, which
    stays as it was. -/
structure Renewed (cwd : Loc) (p : String) (t t' : Tree) (d : Loc) (name : String) : Prop where
  names : Names t' cwd p d name
  state : t'.node? (name :: d) = some .folder ∧ (∀ inner, t'.node? (inner :: name :: d) = none) ∨
    t'.node? (name :: d) = some .sealed ∧ t' = t

/-- **How a reset succeeds**: the directory is made at last, or it belongs to the machine. -/
theorem made_of_reset (h : t.WellFormed) (hp : Path.IsNormal ws.root)
    (hreset : ws.reset cwd t = (t', .ok ())) :
    (∃ d, JustMade cwd ws.root t' d) ∨
      t' = t ∧ ∃ d name, Names t cwd ws.root d name ∧ t.node? (name :: d) = some .sealed := by
  have hdescent := hp.isDescent
  have hmade := makeFolders_of_reset_ok hreset
  rcases Tree.makeFirst_ancestors (h.removeAll cwd ws.root).1 _ _ _ hdescent.no_up hmade with
    hjust | ⟨hsame, hempty | ⟨loc, hreach⟩⟩
  · exact .inl hjust
  · obtain ⟨step, hstep, -⟩ := hdescent.real
    rw [hempty] at hstep
    cases hstep
  · -- the directory has not been removed, and the path still leads to it
    have hfind := Tree.lookup_of_removeAll h hreach
    obtain ⟨d, name, rfl, hnames⟩ := Tree.names_of_place? hp (Tree.place?_of_lookup hfind)
    cases Tree.removed h hp cwd with
    | nothing hsame₁ hnot =>
      obtain ⟨node, hnode, hfolder⟩ := Tree.isFolderAt_iff.mp hreach.folder
      rw [hsame₁] at hnode
      refine .inr ⟨hsame.trans hsame₁, d, name, hnames, ?_⟩
      cases node with
      | «sealed» => exact hnode
      | folder => exact absurd hnode (hnot d name hnames)
      | _ => cases hfolder
    | entry hnames' _ _ hleft =>
      obtain ⟨rfl, rfl⟩ := hnames.unique hnames'
      have hgone := Tree.node?_without_inside t (List.suffix_refl (name :: d)) (by simp)
      have hfolder := hreach.folder
      rw [Tree.isFolderAt, hleft.entries, hgone] at hfolder
      cases hfolder
    | contents _ _ hlost =>
      obtain ⟨e, last, hnames'⟩ := hreach.exists_names hp
      exact absurd hnames' (hlost e last)

theorem renewed_of_ok (h : t.WellFormed) (hp : Path.IsNormal ws.root)
    (hreset : ws.reset cwd t = (t', .ok ())) : ∃ d name, Renewed cwd ws.root t t' d name := by
  rcases made_of_reset h hp hreset with ⟨_, hjust⟩ | ⟨rfl, d, name, hnames, hsealed⟩
  · obtain ⟨d, name, rfl, hown, -⟩ := hjust.own
    exact ⟨d, name, hown.mono (Tree.within_erase t' _).keeps, .inl ⟨hjust.folder, hjust.empty⟩⟩
  · exact ⟨d, name, hnames, .inr ⟨hsealed, rfl⟩⟩

/-- **A directory that has just been made** is removed and made again by a reset. -/
theorem reset_of_justMade (h : t'.WellFormed) (hp : Path.IsNormal ws.root)
    (hjust : JustMade cwd ws.root t' d) :
    ∃ again, ws.reset cwd t' = (again, .ok ()) ∧ Same t' again := by
  obtain ⟨e, name, rfl, hown, hseal⟩ := hjust.own
  have hnames : Names t' cwd ws.root e name := hown.mono (Tree.within_erase t' _).keeps
  have hcleared := Tree.same_clear h hjust.empty
  have hne : e ≠ name :: e := (List.cons_ne_self _ _).symm
  -- the directory is found, emptied and removed
  have hremoved : (t'.removeAll cwd ws.root).1 = (t'.clear (name :: e)).erase (name :: e) := by
    have hfolder : (t'.clear (name :: e)).node? (name :: e) = some .folder := by
      rw [hcleared.entries, hjust.folder]
    rw [Tree.removeAll, hnames.lookup_some hp.slash hjust.folder (by simp) false]
    simp only [hjust.folder, (hnames.mono hcleared.keeps).removeFolder hfolder
      (Tree.isEmptyAt_clear t' _)]
  have herased : ∀ loc, loc ≠ name :: e →
      ((t'.clear (name :: e)).erase (name :: e)).node? loc = t'.node? loc := fun loc hloc => by
    rw [Tree.node?_erase_ne _ hloc, hcleared.entries]
  have hnone := Tree.node?_erase_self (t'.clear (name :: e)) (List.cons_ne_nil name e)
  -- the way to it did not go through it, so that it can be made again
  have hway : Names ((t'.clear (name :: e)).erase (name :: e)) cwd ws.root e name := by
    refine hown.mono fun loc node hnode _ => ?_
    by_cases heq : loc = name :: e
    · rw [heq, Tree.node?_erase_self t' (by simp)] at hnode
      cases hnode
    · rwa [herased loc heq, ← Tree.node?_erase_ne t' heq]
  refine ⟨((t'.clear (name :: e)).erase (name :: e)).put (name :: e) .folder, ?_,
    fun loc => ?_, rfl⟩
  · rw [reset, hremoved, Tree.makeFolders, Tree.ancestors, Tree.makeFirst,
      if_neg (Tree.ne_empty_of_text hnames.text),
      hway.makeFolder hnone (by rwa [herased e hne])]
  · by_cases heq : loc = name :: e
    · rw [heq, Tree.node?_put_self _ (by simp), hjust.folder]
    · rw [Tree.node?_put_ne _ heq, herased loc heq]

/-- **Resetting twice is resetting once.** -/
theorem reset_again (h : t.WellFormed) (hp : Path.IsNormal ws.root)
    (hreset : ws.reset cwd t = (t', .ok ())) :
    ∃ again, ws.reset cwd t' = (again, .ok ()) ∧ Same t' again := by
  rcases made_of_reset h hp hreset with ⟨d, hjust⟩ | ⟨rfl, -⟩
  · have hform := wellFormed_reset h ws cwd
    rw [hreset] at hform
    exact reset_of_justMade hform hp hjust
  · exact ⟨t', hreset, fun _ => rfl, rfl⟩

/-- **A reset on any tree.**  If it succeeds, the path names a directory with nothing in it, and
    another reset changes nothing; if it fails, it says for which path, and nothing is lost unless
    the path goes through what it names.  In both cases nothing else has changed, except for
    directories on the way that are new. -/
theorem reset_on_any_tree (ws : Workspace) (cwd : Loc) (h : t.WellFormed)
    (hp : Path.IsNormal ws.root) :
    (∀ t', ws.reset cwd t = (t', .ok ()) →
      (∃ d name, Renewed cwd ws.root t t' d name) ∧ Confined cwd ws.root t t' ∧
        ∃ again, ws.reset cwd t' = (again, .ok ()) ∧ Same t' again) ∧
    (∀ t' cause, ws.reset cwd t = (t', .error cause) →
      (∃ f, cause = .workspaceCreate ws.root f) ∧ Confined cwd ws.root t t' ∧
        (Adds t t' ∨ Circular t cwd ws.root)) := by
  have hconfined := confined_reset h hp cwd
  refine ⟨fun t' hreset => ?_, fun t' cause hreset => ?_⟩
  · rw [hreset] at hconfined
    exact ⟨renewed_of_ok h hp hreset, hconfined, reset_again h hp hreset⟩
  · rw [hreset] at hconfined
    obtain ⟨f, hcause, -⟩ := makeFolders_of_reset hreset
    exact ⟨⟨f, hcause⟩, hconfined, adds_of_failed h hp hreset⟩

/-- A link in the place of a working directory, to a directory with a file in it. -/
def lentTree : Tree :=
  ((Tree.empty.put ["kept"] .folder).put ["inputs", "kept"] (.file Blob.empty)).put ["w"]
    (.link "kept")

/-- The link is replaced by a directory, and what it led to is as it was. -/
theorem lentTree_renewed :
    lentTree.WellFormed ∧ Path.IsNormal "w" ∧
      ∃ made, (Workspace.mk "w").reset [] lentTree = (made, .ok ()) ∧
        (∃ d name, Renewed [] "w" lentTree made d name) ∧ Confined [] "w" lentTree made ∧
        ∃ again, (Workspace.mk "w").reset [] made = (again, .ok ()) ∧ Same made again := by
  have hform : lentTree.WellFormed :=
    ((Tree.wellFormed_empty.put_new rfl (by decide) rfl _).put_new rfl
      (by decide) rfl _).put_new rfl
      (by decide) rfl _
  have hnormal : Path.IsNormal "w" := by decide +kernel
  have hreset : (Workspace.mk "w").reset [] lentTree =
      (((Workspace.mk "w").reset [] lentTree).1, .ok ()) := Prod.ext rfl (by decide +kernel)
  exact ⟨hform, hnormal, _, hreset,
    (reset_on_any_tree ⟨"w"⟩ [] hform hnormal).1 _ hreset⟩

/-- **A directory that is lost** with a reset that fails: the path `x/w` goes through a link to
    `w/..`, which leads nowhere once `w` has been removed. -/
theorem loopedTree_loses_directory :
    Run.loopedTree.WellFormed ∧ Path.IsNormal "x/w" ∧
      ((Workspace.mk "x/w").reset [] Run.loopedTree).2.toOption = none ∧
      Run.loopedTree.node? ["w"] = some .folder ∧
      ((Workspace.mk "x/w").reset [] Run.loopedTree).1.node? ["w"] = none :=
  ⟨(Tree.wellFormed_empty.put_new rfl (by decide) rfl _).put_new rfl (by decide) rfl _,
    by decide +kernel, by decide +kernel, by decide +kernel, by decide +kernel⟩

end Workspace

end Concolic
