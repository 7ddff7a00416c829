import Concolic.Proofs.Keyed
import Concolic.Proofs.Tree.Reach

/-
  Well-formed trees.

  Nothing in a finite map forces an entry to stand in a directory.  Each operation of a session
  keeps that: it is one of the changes `put`, `erase` and `clear` at a place that its own checks
  allow.
-/

namespace Concolic.Tree

/-- Every entry stands in a directory, and a sealed directory holds devices and sealed directories
    only. -/
structure WellFormed (t : Tree) : Prop where
  placed : ∀ {name : String} {dir : Loc} {node : Node}, t.node? (name :: dir) = some node →
    t.isFolderAt dir = true
  guarded : ∀ {name : String} {dir : Loc} {node : Node}, t.node? dir = some .sealed →
    t.node? (name :: dir) = some node → node = .sealed ∨ ∃ device, node = .device device

/-- All that is in `t'` is in `t`. -/
def Within (t' t : Tree) : Prop := ∀ loc node, t'.node? loc = some node → t.node? loc = some node

variable {t t' : Tree} {cwd d : Loc} {p name : String}

theorem Within.refl (t : Tree) : Within t t := fun _ _ h => h

theorem Within.trans {t'' : Tree} (h : Within t'' t') (h' : Within t' t) : Within t'' t :=
  fun loc node hnode => h' loc node (h loc node hnode)

theorem Within.keeps (h : Within t' t) : Keeps t' t := fun loc node hnode _ => h loc node hnode

theorem within_erase (t : Tree) (loc : Loc) : Within (t.erase loc) t := by
  intro loc' node h
  by_cases heq : loc' = loc
  · subst heq
    cases loc' with
    | nil => exact h
    | cons n d => rw [node?_erase_self t (by simp)] at h; cases h
  · rwa [node?_erase_ne t heq] at h

/-! ## What stands below a directory -/

theorem node?_setShared (t : Tree) (id : Nat) (b : Blob) (loc : Loc) :
    (t.setShared id b).node? loc = t.node? loc := by
  cases loc <;> rfl

theorem lookup_setShared_ne (t : Tree) {id other : Nat} (h : other ≠ id) (b : Blob) :
    (t.setShared id b).pool.lookup other = t.pool.lookup other := by
  rw [setShared, List.lookup_cons, beq_false_of_ne h]
  exact lookup_filter_of_pos t.pool (fun k => decide (k ≠ id)) (by simpa using h)

theorem not_isBelow_nil (dir : Loc) : isBelow dir [] = false := by
  by_cases h : dir = [] <;> simp [isBelow, h]

theorem isBelow_cons {dir loc : Loc} (name : String) (h : dir <:+ loc) :
    isBelow dir (name :: loc) = true := by
  have hne : dir ≠ name :: loc := by
    rintro rfl
    exact Nat.not_succ_le_self _ h.length_le
  simp [isBelow, h.trans (List.suffix_cons name loc), hne]

/-- Clearing takes away what is below. -/
theorem node?_clear (t : Tree) (dir loc : Loc) :
    (t.clear dir).node? loc = if isBelow dir loc then none else t.node? loc := by
  cases loc with
  | nil => rw [not_isBelow_nil]; rfl
  | cons name up =>
    show (t.entries.filter fun e => !isBelow dir e.1).lookup (name :: up) = _
    cases hb : isBelow dir (name :: up) with
    | true => exact lookup_filter_of_neg t.entries (fun loc => !isBelow dir loc) (by simp [hb])
    | false => exact lookup_filter_of_pos t.entries (fun loc => !isBelow dir loc) (by simp [hb])

theorem within_clear (t : Tree) (dir : Loc) : Within (t.clear dir) t := by
  intro loc node h
  rw [node?_clear] at h
  split at h
  · cases h
  · exact h

/-! ## The changes that keep a tree well formed -/

theorem wellFormed_empty : Tree.empty.WellFormed := by
  constructor
  · intro _ _ _ h
    cases h
  · intro _ _ _ _ h
    cases h

theorem mem_entries_of_node? {node : Node} (h : t.node? (name :: d) = some node) :
    (name :: d, node) ∈ t.entries := by
  obtain ⟨before, after, hentries, -⟩ := List.lookup_eq_some_iff.mp h
  rw [hentries]
  exact List.mem_append_right _ List.mem_cons_self

theorem wellFormed_of_entries
    (h : ∀ e ∈ t.entries, t.isFolderAt e.1.tail = true ∧ t.node? e.1.tail ≠ some .sealed) :
    t.WellFormed := by
  constructor
  · intro name dir node hnode
    exact (h _ (mem_entries_of_node? hnode)).1
  · intro name dir node hsealed hnode
    exact absurd hsealed (h _ (mem_entries_of_node? hnode)).2

theorem WellFormed.node?_below (h : t.WellFormed) (hd : t.isFolderAt d = false) (name : String) :
    t.node? (name :: d) = none := by
  cases hnode : t.node? (name :: d) with
  | none => rfl
  | some node =>
    rw [h.placed hnode] at hd
    cases hd

theorem isFolderAt_of_none {loc : Loc} (h : t.node? loc = none) : t.isFolderAt loc = false := by
  rw [isFolderAt, h]
  rfl

theorem WellFormed.put_new (h : t.WellFormed) (hd : t.isFolderAt d = true)
    (hseal : t.node? d ≠ some .sealed) (hnone : t.node? (name :: d) = none) (node : Node) :
    (t.put (name :: d) node).WellFormed := by
  have hk : Keeps t (t.put (name :: d) node) :=
    keeps_put node fun old hold => by rw [hnone] at hold; cases hold
  constructor
  · intro name' dir node' hnode
    by_cases heq : name' :: dir = name :: d
    · cases heq
      exact hk.isFolderAt hd
    · rw [node?_put_ne t heq] at hnode
      exact hk.isFolderAt (h.placed hnode)
  · intro name' dir node' hsealed hnode
    by_cases hdir : dir = name :: d
    · -- the new entry is empty
      subst hdir
      rw [node?_put_ne t (by simp), h.node?_below (isFolderAt_of_none hnone)] at hnode
      cases hnode
    · rw [node?_put_ne t hdir] at hsealed
      by_cases heq : name' :: dir = name :: d
      · cases heq
        exact absurd hsealed hseal
      · rw [node?_put_ne t heq] at hnode
        exact h.guarded hsealed hnode

theorem WellFormed.put_file (h : t.WellFormed) {loc : Loc} {b : Blob}
    (hfile : t.node? loc = some (.file b)) (b' : Blob) : (t.put loc (.file b')).WellFormed := by
  have hk : Keeps t (t.put loc (.file b')) := keeps_put _ fun old hold => by
    rw [hfile] at hold
    cases hold
    rfl
  have hloc : loc ≠ [] := by
    rintro rfl
    cases hfile
  constructor
  · intro name dir node hnode
    by_cases heq : name :: dir = loc
    · rw [← heq] at hfile
      exact hk.isFolderAt (h.placed hfile)
    · rw [node?_put_ne t heq] at hnode
      exact hk.isFolderAt (h.placed hnode)
  · intro name dir node hsealed hnode
    have hdir : dir ≠ loc := by
      rintro rfl
      rw [node?_put_self t hloc] at hsealed
      cases hsealed
    rw [node?_put_ne t hdir] at hsealed
    by_cases heq : name :: dir = loc
    · rw [← heq] at hfile
      rcases h.guarded hsealed hfile with hbad | ⟨device, hbad⟩ <;> cases hbad
    · rw [node?_put_ne t heq] at hnode
      exact h.guarded hsealed hnode

/-- Entries may go as long as nothing is left without its directory. -/
theorem WellFormed.within (h : t.WellFormed) (hsub : Within t' t)
    (hplaced : ∀ name dir node, t'.node? (name :: dir) = some node → t.isFolderAt dir = true →
      t'.isFolderAt dir = true) : t'.WellFormed :=
  ⟨fun hnode => hplaced _ _ _ hnode (h.placed (hsub _ _ hnode)),
    fun hsealed hnode => h.guarded (hsub _ _ hsealed) (hsub _ _ hnode)⟩

theorem WellFormed.erase (h : t.WellFormed) {loc : Loc}
    (hbare : ∀ name, t.node? (name :: loc) = none) : (t.erase loc).WellFormed := by
  refine h.within (within_erase t loc) fun name dir node hnode hfolder => ?_
  have hne : dir ≠ loc := by
    rintro rfl
    have := within_erase t dir _ _ hnode
    rw [hbare] at this
    cases this
  rwa [isFolderAt, node?_erase_ne t hne]

theorem WellFormed.clear (h : t.WellFormed) (dir : Loc) : (t.clear dir).WellFormed := by
  refine h.within (within_clear t dir) fun name up node hnode hfolder => ?_
  have hup : isBelow dir up = false := by
    cases hb : isBelow dir up with
    | false => rfl
    | true =>
      have hsuffix : dir <:+ up := by
        simp only [isBelow, Bool.and_eq_true, decide_eq_true_eq] at hb
        exact hb.1
      rw [node?_clear, isBelow_cons name hsuffix] at hnode
      cases hnode
  rw [isFolderAt, node?_clear, hup]
  exact hfolder

/-! ## The operations -/

theorem makeFolder_eq_ok (h : t.makeFolder cwd p = .ok t') :
    ∃ d name, Names t cwd p d name ∧ t.node? (name :: d) = none ∧ t.node? d ≠ some .sealed ∧
      t' = t.put (name :: d) .folder := by
  obtain ⟨loc, hloc, h⟩ := bind_eq_ok h
  cases h
  obtain ⟨d, name, rfl, hnames, hnone, hseal, -⟩ := names_of_newLoc hloc
  exact ⟨d, name, hnames, hnone, hseal, rfl⟩

theorem removeFile_eq_ok (h : t.removeFile cwd p = .ok t') :
    ∃ d name node, Names t cwd p d name ∧ t.node? (name :: d) = some node ∧
      node.isFolder = false ∧ (Path.route p).slash = false ∧ t' = t.erase (name :: d) := by
  obtain ⟨⟨spot, slash⟩, hres, h⟩ := bind_eq_ok h
  cases spot with
  | here e => cases h
  | entry d name =>
    simp only at h
    split at h
    · cases h
    · rename_i node hnode
      split at h
      · cases h
      · rename_i hfolder
        split at h
        · cases h
        · rename_i hslash
          cases h
          obtain ⟨hnames, rfl⟩ := names_of_resolve hres
          exact ⟨d, name, node, hnames, hnode, by simpa using hfolder, by simpa using hslash, rfl⟩

theorem removeFolder_eq_ok (h : t.removeFolder cwd p = .ok t') :
    ∃ d name, Names t cwd p d name ∧ t.node? (name :: d) = some .folder ∧
      t.isEmptyAt (name :: d) = true ∧ t' = t.erase (name :: d) := by
  obtain ⟨⟨spot, slash⟩, hres, h⟩ := bind_eq_ok h
  cases spot with
  | here e =>
    simp only at h
    split at h <;> cases h
  | entry d name =>
    simp only at h
    split at h
    · cases h
    · rename_i hnode
      split at h
      · rename_i hempty
        cases h
        exact ⟨d, name, (names_of_resolve hres).1, hnode, hempty, rfl⟩
      · cases h
    · cases h
    · cases h

/-! ## Making directories -/

/-- Makes a directory, or finds it. -/
def attempt (t : Tree) (cwd : Loc) (p : String) : Tree × Except Fault Unit :=
  match t.makeFolder cwd p with
  | .ok made => (made, .ok ())
  | .error f => (t, if t.isFolder cwd p then .ok () else .error f)

/-- Goes on if nothing has failed. -/
def onward (r : Tree × Except Fault Unit) (next : Tree → Tree × Except Fault Unit) :
    Tree × Except Fault Unit :=
  match r with
  | (t, .ok ()) => next t
  | (t, .error f) => (t, .error f)

/-- A path of which something is missing is tried once more after the others. -/
theorem makeFirst_of_missing {f : Fault} (hp : p ≠ "") (hmake : t.makeFolder cwd p = .error f)
    (hkind : f.kind = .notFound) (up : List String) :
    t.makeFirst cwd (p :: up) = onward (t.makeFirst cwd up) fun t' => t'.attempt cwd p := by
  rw [makeFirst, if_neg hp, hmake]
  simp only [if_pos hkind]
  cases t.makeFirst cwd up with
  | mk t₁ r =>
    cases r with
    | error f' => rfl
    | ok =>
      cases hmade : t₁.makeFolder cwd p with
      | ok made => simp only [onward, attempt, hmade]
      | error f' => simp only [onward, attempt, hmade]

theorem makeFirst_of_found (hp : p ≠ "")
    (hkind : ∀ f, t.makeFolder cwd p = .error f → f.kind ≠ .notFound) (up : List String) :
    t.makeFirst cwd (p :: up) = t.attempt cwd p := by
  rw [makeFirst, if_neg hp, attempt]
  cases hmake : t.makeFolder cwd p with
  | ok made => rfl
  | error f => simp only [if_neg (hkind f hmake)]

/-- What holds of the tree, and still holds after a directory of the list has been made, holds after
    any of them have been made. -/
theorem makeFirst_induction {P : Tree → Prop} {ps : List String} (ht : P t)
    (hmake : ∀ u u' p, p ∈ ps → P u → u.makeFolder cwd p = .ok u' → P u') :
    P (t.makeFirst cwd ps).1 := by
  induction ps with
  | nil => exact ht
  | cons p up ih =>
    have hup := ih fun u u' q hq => hmake u u' q (List.mem_cons_of_mem p hq)
    have hattempt : ∀ u, P u → P (u.attempt cwd p).1 := by
      intro u hu
      rw [attempt]
      cases hmade : u.makeFolder cwd p with
      | ok u' => exact hmake u u' p List.mem_cons_self hu hmade
      | error f => exact hu
    by_cases hempty : p = ""
    · rw [makeFirst, if_pos hempty]
      exact ht
    by_cases hmissing : ∃ f, t.makeFolder cwd p = .error f ∧ f.kind = .notFound
    · obtain ⟨f, hfails, hkind⟩ := hmissing
      rw [makeFirst_of_missing hempty hfails hkind]
      revert hup
      cases t.makeFirst cwd up with
      | mk u r =>
        intro hup
        cases r with
        | error f' => exact hup
        | ok => exact hattempt u hup
    · rw [makeFirst_of_found hempty fun f hfails hkind => hmissing ⟨f, hfails, hkind⟩]
      exact hattempt t ht

theorem WellFormed.makeFolder (h : t.WellFormed) (ht : t.makeFolder cwd p = .ok t') :
    t'.WellFormed := by
  obtain ⟨d, name, hnames, hnone, hseal, rfl⟩ := makeFolder_eq_ok ht
  exact h.put_new hnames.folder hseal hnone .folder

theorem WellFormed.removeFile (h : t.WellFormed) (ht : t.removeFile cwd p = .ok t') :
    t'.WellFormed := by
  obtain ⟨d, name, node, -, hnode, hfolder, -, rfl⟩ := removeFile_eq_ok ht
  refine h.erase fun inner => h.node?_below ?_ inner
  rw [isFolderAt, hnode]
  exact hfolder

theorem WellFormed.makeFirst (h : t.WellFormed) (cwd : Loc) (ps : List String) :
    (t.makeFirst cwd ps).1.WellFormed :=
  makeFirst_induction h fun _ _ _ _ hu hmade => hu.makeFolder hmade

/-! ## Removing directories -/

/-- What removing all that is at a path leaves. -/
inductive Removal (cwd : Loc) (p : String) (t t₁ : Tree) : Prop where
  | nothing (hleft : t₁ = t)
      (hnot : ∀ loc, t.lookup cwd false p = .ok loc → t.node? loc ≠ some .folder)
  | link {loc : Loc} {target : String} (hleft : t₁ = t.erase loc)
      (hfind : t.lookup cwd false p = .ok loc) (hlink : t.node? loc = some (.link target))
  /-- The directory is empty, but it is still there. -/
  | contents {loc : Loc} (hleft : t₁ = t.clear loc) (hfind : t.lookup cwd false p = .ok loc)
      (hfolder : t.node? loc = some .folder)
        (hfails : ∀ u, (t.clear loc).removeFolder cwd p ≠ .ok u)
  | folder {loc : Loc} (hleft : t₁ = (t.clear loc).erase loc)
      (hfind : t.lookup cwd false p = .ok loc) (hfolder : t.node? loc = some .folder)

/-- What removing a directory with all in it can do. -/
theorem removal (t : Tree) (cwd : Loc) (p : String) : Removal cwd p t (t.removeAll cwd p).1 := by
  rw [removeAll]
  cases hfind : t.lookup cwd false p with
  | error f => exact .nothing rfl fun loc h => by rw [hfind] at h; cases h
  | ok loc =>
    have hnot : t.node? loc ≠ some .folder →
        ∀ other, t.lookup cwd false p = .ok other → t.node? other ≠ some .folder := by
      intro hnode other hother
      rw [hfind] at hother
      cases hother
      exact hnode
    dsimp only
    split
    · rename_i target hlink
      split
      · rename_i removed hremoved
        obtain ⟨d, name, node, hnames, -, -, hslash, rfl⟩ := removeFile_eq_ok hremoved
        rw [← hnames.eq_of_lookup (by simp [hslash]) hfind]
        exact .link rfl hfind hlink
      · exact .nothing rfl (hnot (by simp [hlink]))
    · rename_i hfolder
      split
      · rename_i removed hremoved
        -- the directory that is removed at last is the one that has been cleared
        obtain ⟨d, name, hnames, hthere, -, rfl⟩ := removeFolder_eq_ok hremoved
        have hsame := (hnames.mono (within_clear t loc).keeps).eq_of_lookup (fun _ target => by
          rw [within_clear t loc _ _ hthere]
          simp) hfind
        rw [← hsame]
        exact .folder rfl hfind hfolder
      · rename_i f hfails
        exact .contents rfl hfind hfolder fun u hu => by rw [hfails] at hu; cases hu
    · rename_i hfolder
      exact .nothing rfl (hnot hfolder)

theorem node?_cleared (t : Tree) (d : Loc) (name : String) :
    (t.clear d).node? (name :: d) = none := by
  rw [node?_clear, isBelow_cons name (List.suffix_refl d), if_pos rfl]

theorem within_removeAll (t : Tree) (cwd : Loc) (p : String) : Within (t.removeAll cwd p).1 t := by
  cases removal t cwd p with
  | nothing hleft => rw [hleft]; exact .refl t
  | link hleft => rw [hleft]; exact within_erase t _
  | contents hleft => rw [hleft]; exact within_clear t _
  | folder hleft => rw [hleft]; exact (within_erase _ _).trans (within_clear t _)

/-- Removing keeps the form and only takes away. -/
theorem WellFormed.removeAll (h : t.WellFormed) (cwd : Loc) (p : String) :
    (t.removeAll cwd p).1.WellFormed ∧ Within (t.removeAll cwd p).1 t := by
  refine ⟨?_, within_removeAll t cwd p⟩
  cases removal t cwd p with
  | nothing hleft => rwa [hleft]
  | link hleft _ hlink =>
    rw [hleft]
    refine h.erase fun inner => h.node?_below ?_ inner
    rw [isFolderAt, hlink]
    rfl
  | contents hleft => rw [hleft]; exact h.clear _
  | folder hleft => rw [hleft]; exact (h.clear _).erase (node?_cleared t _)

end Concolic.Tree
