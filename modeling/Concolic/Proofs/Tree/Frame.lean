import Concolic.Proofs.Reset

/-
  What an operation leaves as it is.

  Making the working directory anew changes nothing outside of the place that its path leads to
  (`place?`), as long as the way to the directory above it does not go through that place.  The way
  is looked for in the tree without the place (`without`).
-/

namespace Concolic.Tree

variable {t t' t'' : Tree} {cwd d loc other : Loc} {p q name : String} {node : Node}

/-! ## Adding directories -/

/-- `t'` has all that is in `t`, and besides it directories only. -/
structure Adds (t t' : Tree) : Prop where
  within : Within t t'
  new : ∀ loc, t.node? loc = none → t'.node? loc = none ∨ t'.node? loc = some .folder
  pool : t'.pool = t.pool

theorem Adds.refl (t : Tree) : Adds t t := ⟨.refl t, fun _ h => .inl h, rfl⟩

theorem Adds.trans (h : Adds t t') (h' : Adds t' t'') : Adds t t'' := by
  refine ⟨h.within.trans h'.within, fun loc hnone => ?_, h'.pool.trans h.pool⟩
  rcases h.new loc hnone with hnone' | hfolder
  · exact h'.new loc hnone'
  · exact .inr (h'.within _ _ hfolder)

theorem Adds.keeps (h : Adds t t') : Keeps t t' := h.within.keeps

theorem Adds.node?_of_some (h : Adds t t') (hnode : t'.node? loc = some node)
    (hne : node ≠ .folder) : t.node? loc = some node := by
  cases hold : t.node? loc with
  | some old => rw [← hnode, h.within _ _ hold]
  | none =>
    rcases h.new loc hold with hnone | hfolder
    · rw [hnone] at hnode
      cases hnode
    · rw [hfolder] at hnode
      exact absurd (Option.some.inj hnode).symm hne

theorem adds_put_folder (h : t.node? (name :: d) = none) : Adds t (t.put (name :: d) .folder) := by
  refine ⟨fun loc node hnode => ?_, fun loc hnone => ?_, rfl⟩
  · have hne : loc ≠ name :: d := by
      rintro rfl
      rw [h] at hnode
      cases hnode
    rw [node?_put_ne t hne, hnode]
  · by_cases heq : loc = name :: d
    · subst heq
      exact .inr (node?_put_self t (by simp) _)
    · exact .inl (by rw [node?_put_ne t heq, hnone])

theorem adds_makeFolder (h : t.makeFolder cwd p = .ok t') : Adds t t' := by
  obtain ⟨d, name, -, hnone, -, rfl⟩ := makeFolder_eq_ok h
  exact adds_put_folder hnone

theorem adds_makeFirst (t : Tree) (cwd : Loc) (ps : List String) : Adds t (t.makeFirst cwd ps).1 :=
  makeFirst_induction (.refl t) fun _ _ _ _ hu hmade => hu.trans (adds_makeFolder hmade)

/-- Directories are added and nothing else. -/
theorem adds_makeFolders (t : Tree) (cwd : Loc) (p : String) : Adds t (t.makeFolders cwd p).1 :=
  adds_makeFirst t cwd _

theorem makeFolders_empty (t : Tree) (cwd : Loc) : t.makeFolders cwd "" = (t, .ok ()) := rfl

theorem ne_empty_of_text (h : checkText p = .ok ()) : p ≠ "" := by
  rintro rfl
  cases h

theorem Reaches.makeFirst (h : Reaches t cwd p d) (up : List String) :
    t.makeFirst cwd (p :: up) = (t, .ok ()) := by
  have hfolder : t.isFolder cwd p = true := isFolder_iff.mpr ⟨d, h⟩
  have hkind : Fault.alreadyExists.kind ≠ .notFound := by decide
  rw [Tree.makeFirst, if_neg (ne_empty_of_text h.text), h.makeFolder]
  simp only [if_neg hkind, hfolder, if_true]

theorem Reaches.makeFolders (h : Reaches t cwd p d) : t.makeFolders cwd p = (t, .ok ()) :=
  h.makeFirst _

/-! ## Trees without links -/

/-- There are no symbolic links. -/
def LinkFree (t : Tree) : Prop := ∀ loc target, t.node? loc ≠ some (.link target)

theorem linkFree_of_entries (h : ∀ e ∈ t.entries, e.2.isRoad = true → e.2.isFolder = true) :
    t.LinkFree := by
  intro loc target hnode
  cases loc with
  | nil => cases hnode
  | cons name d => exact absurd (h _ (mem_entries_of_node? hnode) rfl) Bool.false_ne_true

theorem LinkFree.adds (hfree : t.LinkFree) (hadds : Adds t t') : t'.LinkFree := by
  intro loc target hnode
  exact hfree loc target (hadds.node?_of_some hnode (by simp))

theorem LinkFree.within (hfree : t.LinkFree) (hwithin : Within t' t) : t'.LinkFree :=
  fun loc target hnode => hfree loc target (hwithin _ _ hnode)

theorem LinkFree.not_isRoad (hfree : t.LinkFree)
    (hnode : t.node? loc = some node) (hfolder : node.isFolder = false) : node.isRoad = false := by
  cases node with
  | link target => exact absurd hnode (hfree loc target)
  | folder => cases hfolder
  | «sealed» => cases hfolder
  | _ => rfl

/-! ## The tree without a place -/

/-- The tree without what is at `loc` and all that is inside it. -/
def without (t : Tree) (loc : Loc) : Tree := (t.clear loc).erase loc

/-- The two trees are the same outside of `loc`. -/
def SameOutside (loc : Loc) (t t' : Tree) : Prop :=
  ∀ other, ¬ loc <:+ other → t'.node? other = t.node? other

theorem isBelow_eq_false {dir : Loc} (h : ¬ dir <:+ loc) : isBelow dir loc = false := by
  simp [isBelow, h]

theorem node?_without (t : Tree) (h : ¬ loc <:+ other) :
    (t.without loc).node? other = t.node? other := by
  have hne : other ≠ loc := by
    rintro rfl
    exact h (List.suffix_refl _)
  rw [without, node?_erase_ne _ hne, node?_clear, isBelow_eq_false h, if_neg Bool.false_ne_true]

theorem node?_without_inside (t : Tree) (h : loc <:+ other) (hne : other ≠ []) :
    (t.without loc).node? other = none := by
  by_cases heq : other = loc
  · rw [heq] at hne ⊢
    exact node?_erase_self _ hne
  · have hbelow : isBelow loc other = true := by
      simp [isBelow, h, Ne.symm heq]
    rw [without, node?_erase_ne _ heq, node?_clear, hbelow, if_pos rfl]

theorem within_without (t : Tree) (loc : Loc) : Within (t.without loc) t :=
  (within_erase _ _).trans (within_clear t loc)

theorem outside_of_without
    (h : (t.without loc).node? other = some node) : ¬ loc <:+ other ∨ other = [] := by
  by_cases hin : loc <:+ other
  · refine .inr (Classical.byContradiction fun hne => ?_)
    rw [node?_without_inside t hin hne] at h
    cases h
  · exact .inl hin

theorem SameOutside.refl (loc : Loc) (t : Tree) : SameOutside loc t t := fun _ _ => rfl

theorem SameOutside.trans (h : SameOutside loc t t') (h' : SameOutside loc t' t'') :
    SameOutside loc t t'' := fun other hout => (h' other hout).trans (h other hout)

/-- **What a path leads to outside of a place** does not depend on the place. -/
theorem SameOutside.keeps_without (h : SameOutside loc t t') : Keeps (t.without loc) t' := by
  intro other node hnode _
  rcases outside_of_without hnode with hout | rfl
  · rw [h other hout, ← node?_without t hout, hnode]
  · exact hnode

theorem Keeps.without (h : Keeps t t') (loc : Loc) : Keeps (t.without loc) (t'.without loc) := by
  intro other node hnode hroad
  rcases outside_of_without hnode with hout | rfl
  · rw [node?_without t hout] at hnode
    rw [node?_without t' hout, h other node hnode hroad]
  · exact hnode

theorem SameOutside.keeps_without_both (h : SameOutside loc t t') :
    Keeps (t.without loc) (t'.without loc) := by
  intro other node hnode _
  rcases outside_of_without hnode with hout | rfl
  · rw [node?_without t' hout, h other hout, ← node?_without t hout, hnode]
  · exact hnode

/-! ## The place of a path -/

/-- The place that a path ends at, whether or not something is there.  A link at the end is gone
    through only if a slash follows it. -/
def place? (t : Tree) (cwd : Loc) (p : String) : Option Loc :=
  match t.resolve cwd (Path.route p).slash p with
  | .ok a => some a.spot.loc
  | .error _ => none

theorem place?_eq_some (h : t.place? cwd p = some loc) :
    ∃ a, t.resolve cwd (Path.route p).slash p = .ok a ∧ a.spot.loc = loc := by
  rw [place?] at h
  split at h
  · rename_i a hres
    exact ⟨a, hres, Option.some.inj h⟩
  · cases h

theorem place?_of_lookup (h : t.lookup cwd false p = .ok loc) : t.place? cwd p = some loc := by
  obtain ⟨a, hres, rfl, -⟩ := lookup_eq_ok h
  rw [Bool.false_or] at hres
  rw [place?, hres]

theorem place?_of_names (h : Names t cwd p d name)
    (hlink : ∀ target, t.node? (name :: d) ≠ some (.link target)) :
    t.place? cwd p = some (name :: d) := by
  rw [place?, h.resolve _ fun _ => hlink]
  rfl

/-- Where the path leads nowhere, nothing is removed. -/
theorem removeAll_unplaced (h : t.place? cwd p = none) : (t.removeAll cwd p).1 = t := by
  rw [removeAll]
  split
  · rfl
  · rename_i loc hfind
    rw [place?_of_lookup hfind] at h
    cases h

/-- Removing changes nothing outside of the place. -/
theorem sameOutside_removeAll (h : t.place? cwd p = some loc) :
    SameOutside loc t (t.removeAll cwd p).1 := by
  have herase : ∀ u : Tree, SameOutside loc u (u.erase loc) := fun u other hout =>
    node?_erase_ne u (by rintro rfl; exact hout (List.suffix_refl _))
  have hclear : SameOutside loc t (t.clear loc) := fun other hout => by
    rw [node?_clear, isBelow_eq_false hout, if_neg Bool.false_ne_true]
  have hplace : ∀ {found}, t.lookup cwd false p = .ok found → loc = found := fun hfind =>
    Option.some.inj (h.symm.trans (place?_of_lookup hfind))
  cases removal t cwd p with
  | nothing hleft =>
    rw [hleft]
    exact .refl loc t
  | link hleft hfind =>
    rw [hleft, ← hplace hfind]
    exact herase t
  | contents hleft hfind =>
    rw [hleft, ← hplace hfind]
    exact hclear
  | folder hleft hfind =>
    rw [hleft, ← hplace hfind]
    exact hclear.trans (herase _)

/-! ## Directories below one that is there -/

theorem Names.parent (h : Names t cwd (Path.join q name) d name) (hplain : Path.IsPlain name) :
    t.isFolderAt d = true ∧ (∃ n ≤ maxLinks, Leads t (start cwd q) (Path.route q).steps d n) ∧
      (q = "" ∨ Reaches t cwd q d) := by
  obtain ⟨init, hsteps, n, hn, hlead⟩ := h.way
  rw [Path.route_join q hplain] at hsteps
  obtain ⟨rfl, -⟩ := List.append_inj' hsteps rfl
  rw [start, Path.isAbsolute_join q hplain] at hlead
  refine ⟨h.folder, ⟨n, hn, hlead⟩, ?_⟩
  by_cases hempty : q = ""
  · exact .inl hempty
  · exact .inr ⟨checkText_of_join h.text hplain hempty, h.folder, n, hn, hlead⟩

/-- **Making a directory below one that is there** makes one directory or none. -/
theorem makeFolders_of_parent (hp : p ≠ "") (hparent : Path.parent? p = some q)
    (hq : q = "" ∨ ∃ d, Reaches t cwd q d) :
    (∃ made, t.makeFolder cwd p = .ok made ∧ t.makeFolders cwd p = (made, .ok ())) ∨
      ∃ f, t.makeFolder cwd p = .error f ∧
        t.makeFolders cwd p = (t, if t.isFolder cwd p then .ok () else .error f) := by
  obtain ⟨fuel, hfuel⟩ : ∃ fuel, p.length = fuel + 1 := by
    refine ⟨p.length - 1, ?_⟩
    have hlength : p.length ≠ 0 := by
      rw [← String.length_toList]
      simpa using hp
    omega
  have hup : t.makeFirst cwd (ancestors p.length q) = (t, .ok ()) := by
    rw [hfuel, ancestors]
    rcases hq with rfl | ⟨d, hreach⟩
    · rfl
    · exact hreach.makeFirst _
  rw [makeFolders, ancestors, hparent, makeFirst, if_neg hp]
  cases hmade : t.makeFolder cwd p with
  | ok made => exact .inl ⟨made, rfl, rfl⟩
  | error f =>
    refine .inr ⟨f, rfl, ?_⟩
    simp only [hup, hmade]
    split <;> rfl

end Concolic.Tree
