import Concolic.Lock
import Concolic.Workspace
import Concolic.Proofs.Tree.WellFormed

/-
  What a reset leaves.

  Either the directory has just been made, or it was there all the time and removing has emptied it.
  The path must have a real step and no step up.  Without the first nothing is removed, and with
  steps up a directory can be there as soon as those above it are made.
-/

namespace Concolic

namespace Path

/-- The path has a real step, and none of its steps goes up. -/
structure IsDescent (p : String) : Prop where
  real : ∃ step ∈ (route p).steps, step ≠ "."
  no_up : ".." ∉ (route p).steps

end Path

namespace Tree

/-- Nothing is in the directory, apart from what the machine keeps in its own. -/
def Bare (t : Tree) (d : Loc) : Prop :=
  ∀ name node, t.node? (name :: d) = some node →
    t.node? d = some .sealed ∧ (node = .sealed ∨ ∃ device, node = .device device)

variable {t t' : Tree} {cwd d e : Loc} {p q : String}

/-! ## Ways out of an empty directory -/

theorem Leads.dots_of_empty {ss : List String} {n : Nat} (h : Leads t e ss d n)
    (hempty : ∀ name, t.node? (name :: e) = none) (hup : ".." ∉ ss) : ∀ step ∈ ss, step = "." := by
  induction h with
  | nil => simp
  | stay _ _ ih =>
    have hrest := ih hempty (List.not_mem_of_not_mem_cons hup)
    simpa using hrest
  | up => exact absurd List.mem_cons_self hup
  | into _ _ hf =>
    rw [isFolderAt_of_none (hempty _)] at hf
    cases hf
  | through _ _ hlink =>
    rw [hempty] at hlink
    cases hlink

theorem Reaches.parent_not_empty (h : Reaches t cwd p d) (hparent : Path.parent? p = some q)
    (hq : Reaches t cwd q e) (hup : ".." ∉ (Path.route p).steps) :
    ∃ name, t.node? (name :: e) ≠ none := by
  obtain ⟨habs, rest, hsteps, hrest⟩ := Path.route_parent hparent
  obtain ⟨n, -, hlead⟩ := h.way
  obtain ⟨m, -, hlead'⟩ := hq.way
  rw [hsteps] at hlead hup
  obtain ⟨e', n₁, n₂, h₁, h₂, -⟩ := hlead.split
  have hstart : start cwd q = start cwd p := by rw [start, start, habs]
  rw [hstart] at hlead'
  obtain ⟨rfl, -⟩ := hlead'.unique h₁
  refine Classical.byContradiction fun hnone => ?_
  have hempty : ∀ name, t.node? (name :: e) = none := fun name =>
    Classical.byContradiction fun hne => hnone ⟨name, hne⟩
  have hdots := h₂.dots_of_empty hempty fun hmem => hup (List.mem_append_right _ hmem)
  rcases hrest with ⟨step, hstep, hne⟩ | ⟨rfl, -⟩
  · exact hne (hdots step hstep)
  · -- the empty text leads nowhere
    have := hq.text
    cases this

/-! ## Making a directory and those above it -/

/-- A directory that has just been made at the path, in one that the path led to without it. -/
structure JustMade (cwd : Loc) (p : String) (t' : Tree) (d : Loc) : Prop where
  reaches : Reaches t' cwd p d
  folder : t'.node? d = some .folder
  empty : ∀ name, t'.node? (name :: d) = none
  own : ∃ e name, d = name :: e ∧ Names (t'.erase d) cwd p e name ∧ t'.node? e ≠ some .sealed

theorem JustMade.bare (h : JustMade cwd p t' d) : Bare t' d := by
  intro name node hinner
  rw [h.empty name] at hinner
  cases hinner

theorem justMade_of_makeFolder (h : t.WellFormed) (ht : t.makeFolder cwd p = .ok t') :
    ∃ d, JustMade cwd p t' d := by
  obtain ⟨d, name, hnames, hnone, hseal, rfl⟩ := makeFolder_eq_ok ht
  have hself : (t.put (name :: d) .folder).node? (name :: d) = some .folder :=
    node?_put_self t (by simp) _
  have hk : Keeps t (t.put (name :: d) .folder) :=
    keeps_put _ fun old hold => by rw [hnone] at hold; cases hold
  have hk' : Keeps t ((t.put (name :: d) .folder).erase (name :: d)) := by
    intro loc node hnode _
    have hne : loc ≠ name :: d := by
      rintro rfl
      rw [hnone] at hnode
      cases hnode
    rw [node?_erase_ne _ hne, node?_put_ne t hne, hnode]
  have hd : d ≠ name :: d := (List.cons_ne_self _ _).symm
  refine ⟨name :: d, (hnames.mono hk).reaches ?_, hself, fun inner => ?_, d, name, rfl,
    hnames.mono hk', by rwa [node?_put_ne t hd]⟩
  · rw [isFolderAt, hself]
    rfl
  · rw [node?_put_ne t (by simp)]
    exact h.node?_below (isFolderAt_of_none hnone) inner

theorem Reaches.makeFolder (h : Reaches t cwd p d) :
    t.makeFolder cwd p = .error .alreadyExists := by
  rw [Tree.makeFolder, h.newLoc true]
  rfl

theorem attempt_eq_ok (h : t.WellFormed) (hmade : t.attempt cwd p = (t', .ok ())) :
    (∃ d, JustMade cwd p t' d) ∨ (t' = t ∧ ∃ d, Reaches t cwd p d) := by
  rw [attempt] at hmade
  split at hmade
  · rename_i made hfolder
    cases hmade
    exact .inl (justMade_of_makeFolder h hfolder)
  · split at hmade
    · rename_i hfolder
      cases hmade
      exact .inr ⟨rfl, isFolder_iff.mp hfolder⟩
    · cases hmade

/-- **How making a directory succeeds**: the path is empty, the directory is made at last, it was
    there before, or it is there once the directories above it are. -/
theorem makeFirst_cases (h : t.WellFormed) (up : List String)
    (hmade : t.makeFirst cwd (p :: up) = (t', .ok ())) :
    (p = "" ∧ t' = t) ∨ (∃ d, JustMade cwd p t' d) ∨ (t' = t ∧ ∃ d, Reaches t cwd p d) ∨
      ((¬ ∃ d, Reaches t cwd p d) ∧ t.makeFirst cwd up = (t', .ok ()) ∧
        ∃ d, Reaches t' cwd p d) := by
  by_cases hempty : p = ""
  · rw [makeFirst, if_pos hempty] at hmade
    cases hmade
    exact .inl ⟨hempty, rfl⟩
  by_cases hmissing : ∃ f, t.makeFolder cwd p = .error f ∧ f.kind = .notFound
  · obtain ⟨f, hfirst, hkind⟩ := hmissing
    have hlost : ¬ ∃ d, Reaches t cwd p d := by
      rintro ⟨d, hreach⟩
      rw [hreach.makeFolder] at hfirst
      cases hfirst
      cases hkind
    rw [makeFirst_of_missing hempty hfirst hkind] at hmade
    have hform := h.makeFirst cwd up
    cases hup : t.makeFirst cwd up with
    | mk t₁ r =>
      rw [hup] at hmade hform
      cases r with
      | error f => cases hmade
      | ok =>
        rcases attempt_eq_ok hform hmade with hjust | ⟨rfl, hreach⟩
        · exact .inr (.inl hjust)
        · exact .inr (.inr (.inr ⟨hlost, rfl, hreach⟩))
  · rw [makeFirst_of_found hempty fun f hfails hkind => hmissing ⟨f, hfails, hkind⟩] at hmade
    rcases attempt_eq_ok h hmade with hjust | hthere
    · exact .inr (.inl hjust)
    · exact .inr (.inr (.inl hthere))

/-- **Making a directory** makes it at last, or changes nothing because it is there. -/
theorem makeFirst_ancestors (h : t.WellFormed) :
    ∀ (fuel : Nat) (p : String) (t' : Tree), ".." ∉ (Path.route p).steps →
      t.makeFirst cwd (ancestors fuel p) = (t', .ok ()) →
      (∃ d, JustMade cwd p t' d) ∨ (t' = t ∧ (p = "" ∨ ∃ d, Reaches t cwd p d)) := by
  intro fuel
  induction fuel with
  | zero =>
    intro p t' _ hmade
    cases hmade
  | succ fuel ih =>
    intro p t' hup hmade
    rcases makeFirst_cases h _ hmade with
      ⟨hempty, hsame⟩ | hjust | ⟨hsame, hreach⟩ | ⟨hlost, habove, d, hreach⟩
    · exact .inr ⟨hsame, .inl hempty⟩
    · exact .inl hjust
    · exact .inr ⟨hsame, .inr hreach⟩
    · -- the path would lead somewhere although its name was missing at first
      exfalso
      cases hparent : Path.parent? p with
      | none =>
        rw [hparent] at habove
        cases habove
      | some q =>
        rw [hparent] at habove
        obtain ⟨-, rest, hsteps, -⟩ := Path.route_parent hparent
        have hupq : ".." ∉ (Path.route q).steps := fun hmem =>
          hup (hsteps ▸ List.mem_append_left _ hmem)
        rcases ih q t' hupq habove with ⟨e, hjust⟩ | ⟨rfl, -⟩
        · obtain ⟨name, hname⟩ := hreach.parent_not_empty hparent hjust.reaches hup
          exact hname (hjust.empty name)
        · exact hlost ⟨d, hreach⟩

/-! ## Removing what is there -/

theorem lookup_of_removeAll (h : t.WellFormed) (hreach : Reaches (t.removeAll cwd p).1 cwd p d) :
    t.lookup cwd false p = .ok d := by
  have hwithin := (h.removeAll cwd p).2
  have hbefore : Reaches t cwd p d := hreach.mono hwithin.keeps
  rcases hbefore.lookup_entry with hlookup | ⟨hslash, d₀, last, target, hnames, hlookup, hlink⟩
  · exact hlookup
  · -- a link in its place is gone, and with it the last step of the way
    exfalso
    have hremoved : (t.removeAll cwd p).1 = t.erase (last :: d₀) := by
      rw [removeAll, hlookup]
      simp only [hlink, hnames.removeFile hslash hlink rfl]
    rw [hremoved] at hreach
    obtain ⟨init, hsteps, m, -, hlead⟩ := hnames.way
    obtain ⟨n, -, hlead'⟩ := hreach.way
    rw [hsteps] at hlead'
    obtain ⟨e, n₁, n₂, h₁, h₂, -⟩ := hlead'.split
    obtain ⟨rfl, -⟩ := hlead.unique (h₁.mono (within_erase t _).keeps)
    have hgone : (t.erase (last :: d₀)).node? (last :: d₀) = none := node?_erase_self t (by simp)
    cases h₂ with
    | stay => exact hnames.isName.ne_dot rfl
    | up => exact hnames.isName.ne_up rfl
    | into _ _ hf =>
      rw [isFolderAt_of_none hgone] at hf
      cases hf
    | through _ _ hlink' =>
      rw [hgone] at hlink'
      cases hlink'

theorem removeAll_bare (h : t.WellFormed) (hreach : Reaches (t.removeAll cwd p).1 cwd p d) :
    Bare (t.removeAll cwd p).1 d := by
  have hlookup := lookup_of_removeAll h hreach
  have hbefore : Reaches t cwd p d := hreach.mono (h.removeAll cwd p).2.keeps
  have hloc : ∀ {loc}, t.lookup cwd false p = .ok loc → d = loc := fun hfind =>
    Except.ok.inj (hlookup.symm.trans hfind)
  intro name node hinner
  cases removal t cwd p with
  | nothing hleft hnot =>
    obtain ⟨old, hnode, hfolder⟩ := isFolderAt_iff.mp hbefore.folder
    rw [hleft] at hinner ⊢
    cases old with
    | folder => exact absurd hnode (hnot d hlookup)
    | «sealed» => exact ⟨hnode, h.guarded hnode hinner⟩
    | _ => cases hfolder
  | link _ hfind hlink =>
    obtain rfl := hloc hfind
    have hfolder := hbefore.folder
    rw [isFolderAt, hlink] at hfolder
    cases hfolder
  | contents hleft hfind =>
    obtain rfl := hloc hfind
    rw [hleft, node?_cleared] at hinner
    cases hinner
  | folder hleft hfind =>
    obtain rfl := hloc hfind
    rw [hleft] at hinner
    have := within_erase _ _ _ _ hinner
    rw [node?_cleared] at this
    cases this

end Tree

/-! ## Resets -/

theorem Workspace.makeFolders_of_reset_ok {ws : Workspace} {cwd : Loc} {t t' : Tree}
    (hreset : ws.reset cwd t = (t', .ok ())) :
    (t.removeAll cwd ws.root).1.makeFolders cwd ws.root = (t', .ok ()) := by
  rw [reset] at hreset
  split at hreset
  · rename_i made hmade
    cases hreset
    exact hmade
  · cases hreset

/-- **A reset that succeeds** leaves a directory with nothing in it. -/
theorem Workspace.reset_bare {ws : Workspace} {cwd : Loc} {t t' : Tree} (h : t.WellFormed)
    (hpath : Path.IsDescent ws.root) (hreset : ws.reset cwd t = (t', .ok ())) :
    ∃ d, t'.Reaches cwd ws.root d ∧ t'.Bare d := by
  have hform := (h.removeAll cwd ws.root).1
  rcases Tree.makeFirst_ancestors hform _ _ _ hpath.no_up (makeFolders_of_reset_ok hreset) with
    ⟨d, hjust⟩ | ⟨rfl, hempty | ⟨d, hreach⟩⟩
  · exact ⟨d, hjust.reaches, hjust.bare⟩
  · obtain ⟨step, hstep, -⟩ := hpath.real
    rw [hempty] at hstep
    cases hstep
  · exact ⟨d, hreach, Tree.removeAll_bare h hreach⟩

theorem Workspace.reset_of_missing {ws : Workspace} {cwd d : Loc} {t : Tree} {name : String}
    (h : t.Names cwd ws.root d name) (hnode : t.node? (name :: d) = none)
    (hd : t.node? d ≠ some .sealed) : ws.reset cwd t = (t.put (name :: d) .folder, .ok ()) := by
  have hremoved : (t.removeAll cwd ws.root).1 = t := by
    rw [Tree.removeAll, h.lookup_none hnode false]
  have hne : ws.root ≠ "" := by
    intro hempty
    have htext := h.text
    rw [hempty] at htext
    cases htext
  rw [reset, hremoved, Tree.makeFolders, Tree.ancestors, Tree.makeFirst, if_neg hne,
    h.makeFolder hnode hd]

end Concolic
