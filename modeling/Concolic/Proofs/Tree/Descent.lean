import Concolic.Proofs.Survival

/-
  Paths that go down, in a tree without links.

  Such a path stands for one location whatever is in the tree (`goal`).  An operation on it looks at
  the nodes on the way to that location and at no others.  What is needed of a path to find the same
  in two trees is `Meets`: it resolves alike, to a place on which they agree.
-/

namespace Concolic.Tree

variable {t u v : Tree} {cwd d e : Loc} {p name : String} {ss rest : List String}

/-! ## Where a path leads -/

/-- Where the steps lead from `d`, if they lead down. -/
def descend (d : Loc) : List String → Loc
  | [] => d
  | step :: rest => descend (if step = "." then d else step :: d) rest

/-- The location that a path stands for. -/
def goal (cwd : Loc) (p : String) : Loc := descend (start cwd p) (Path.route p).steps

theorem descend_name (h : IsName name) (d : Loc) (rest : List String) :
    descend d (name :: rest) = descend (name :: d) rest := by
  rw [descend, if_neg h.ne_dot]

theorem suffix_descend (d : Loc) (ss : List String) : d <:+ descend d ss := by
  induction ss generalizing d with
  | nil => exact List.suffix_refl d
  | cons step rest ih =>
    rw [descend]
    split
    · exact ih d
    · exact (List.suffix_cons step d).trans (ih (step :: d))

theorem descend_append (d : Loc) (ss rest : List String) :
    descend d (ss ++ rest) = descend (descend d ss) rest := by
  induction ss generalizing d with
  | nil => rfl
  | cons step ss ih =>
    rw [List.cons_append, descend, descend]
    exact ih _

theorem descend_dots (h : ∀ step ∈ ss, step = ".") (d : Loc) : descend d ss = d := by
  induction ss generalizing d with
  | nil => rfl
  | cons step ss ih =>
    rw [descend, if_pos (h step List.mem_cons_self)]
    exact ih (fun other hmem => h other (List.mem_cons_of_mem _ hmem)) d

/-- There are no symbolic links below `d` on the way to `e`. -/
def FreeBetween (t : Tree) (d e : Loc) : Prop :=
  ∀ loc target, d <:+ loc → loc <:+ e → t.node? loc ≠ some (.link target)

theorem LinkFree.between (h : t.LinkFree) (d e : Loc) : FreeBetween t d e :=
  fun loc target _ _ => h loc target

theorem FreeBetween.step (h : FreeBetween t d e) (name : String) : FreeBetween t (name :: d) e :=
  fun loc target hd => h loc target ((List.suffix_cons name d).trans hd)

/-- **A scan that arrives** has gone down to where its steps lead. -/
theorem FreeBetween.descend_of_scan {follow slash : Bool}
    {jump : Loc → List String → Bool → Except Fault Arrival} {a : Arrival}
    (h : FreeBetween t d (descend d ss)) (hup : ".." ∉ ss)
    (hscan : t.scan follow jump slash d ss = .ok a) :
    a.spot.loc = descend d ss ∧ a.slash = slash := by
  induction ss generalizing d with
  | nil =>
    cases hscan
    exact ⟨rfl, rfl⟩
  | cons step rest ih =>
    have hrest := List.not_mem_of_not_mem_cons hup
    have hstep := (List.ne_of_not_mem_cons hup).symm
    rw [scan] at hscan
    rw [descend] at h ⊢
    split at hscan
    · cases hscan
    split at hscan
    · rename_i hdot
      rw [if_pos hdot] at h ⊢
      exact ih h hrest hscan
    rename_i hdot
    rw [if_neg hdot] at h ⊢
    split at hscan
    · cases hscan
    cases hnode : t.node? (step :: d) with
    | none =>
      simp only [hnode] at hscan
      split at hscan
      · rename_i hend
        cases hscan
        rw [hend]
        exact ⟨rfl, rfl⟩
      · cases hscan
    | some node =>
      have hgo : (if rest = [] then Except.ok ⟨.entry d step, slash⟩
          else if node.isFolder then t.scan follow jump slash (step :: d) rest
          else .error .notADirectory) = Except.ok a := by
        cases node with
        | link target =>
          exact absurd hnode (h _ _ (List.suffix_cons step d) (suffix_descend (step :: d) rest))
        | _ =>
          simp only [hnode] at hscan
          exact hscan
      split at hgo
      · rename_i hend
        cases hgo
        rw [hend]
        exact ⟨rfl, rfl⟩
      · split at hgo
        · exact ih (h.step step) hrest hgo
        · cases hgo

theorem resolve_of_bad_text {f : Fault} (h : checkText p = .error f) (t : Tree) (cwd : Loc)
    (follow : Bool) : t.resolve cwd follow p = .error f := by
  rw [resolve, h]
  rfl

theorem resolveNew_of_bad_text {f : Fault} (h : checkText p = .error f) (t : Tree) (cwd : Loc) :
    t.resolveNew cwd p = .error f := by
  rw [resolveNew, h]
  rfl

section LinkFree

variable (h : t.LinkFree) (hup : ".." ∉ (Path.route p).steps)
include h hup

/-- A path leads to its goal. -/
theorem LinkFree.goal_of_resolve {follow : Bool}
    {a : Arrival} (hres : t.resolve cwd follow p = .ok a) :
    a.spot.loc = goal cwd p ∧ a.slash = (Path.route p).slash := by
  rw [resolve_of_text (text_of_resolve hres), walk_eq_scan] at hres
  exact (h.between _ _).descend_of_scan hup hres

theorem LinkFree.goal_of_resolveNew {a : Arrival} (hres : t.resolveNew cwd p = .ok a) :
    a.spot.loc = goal cwd p ∧ a.slash = (Path.route p).slash := by
  rw [resolveNew_of_text (text_of_resolveNew hres), walk_eq_scan] at hres
  exact (h.between _ _).descend_of_scan hup hres

theorem LinkFree.goal_of_names (hnames : Names t cwd p d name) : name :: d = goal cwd p :=
  (h.goal_of_resolve hup (hnames.resolve false (fun hf => by cases hf))).1

theorem LinkFree.goal_of_lookup {follow : Bool}
    {loc : Loc} (hlook : t.lookup cwd follow p = .ok loc) : loc = goal cwd p := by
  obtain ⟨a, hres, rfl, -⟩ := lookup_eq_ok hlook
  exact (h.goal_of_resolve hup hres).1

end LinkFree

/-! ## Trees that agree on a territory -/

/-- The trees have the same nodes in `K`, and the same contents of files with several names. -/
structure Agree (K : Loc → Prop) (u v : Tree) : Prop where
  nodes : ∀ loc, K loc → u.node? loc = v.node? loc
  pool : ∀ loc id, K loc → u.node? loc = some (.shared id) → u.pool.lookup id = v.pool.lookup id

/-- The path goes down, and all that it comes by is in `K`. -/
structure Stays (K : Loc → Prop) (cwd : Loc) (p : String) : Prop where
  no_up : ".." ∉ (Path.route p).steps
  inside : ∀ loc, loc <:+ goal cwd p → K loc

section Agree

variable {K : Loc → Prop} {loc : Loc}

section Nodes

variable (h : Agree K u v)
include h

theorem Agree.isFolderAt (hloc : K loc) : u.isFolderAt loc = v.isFolderAt loc := by
  rw [Tree.isFolderAt, Tree.isFolderAt, h.nodes loc hloc]

theorem Agree.device? (hloc : K loc) : u.device? loc = v.device? loc := by
  rw [Tree.device?, Tree.device?, h.nodes loc hloc]

theorem Agree.blob? (hloc : K loc) : u.blob? loc = v.blob? loc := by
  rw [Tree.blob?, Tree.blob?, ← h.nodes loc hloc]
  cases hnode : u.node? loc with
  | none => rfl
  | some node =>
    cases node with
    | shared id => simp only [Option.bind_some, blobOf, h.pool loc id hloc hnode]
    | _ => rfl

theorem Agree.put (loc : Loc) {node : Node} (hnode : ∀ id, node ≠ .shared id) :
    Agree K (u.put loc node) (v.put loc node) := by
  refine ⟨fun other hother => ?_, fun other id hother hshared => ?_⟩
  · by_cases heq : other = loc
    · subst heq
      cases other with
      | nil => rfl
      | cons name d => rw [node?_put_self u (by simp), node?_put_self v (by simp)]
    · rw [node?_put_ne u heq, node?_put_ne v heq, h.nodes other hother]
  · by_cases heq : other = loc
    · subst heq
      cases other with
      | nil => cases hshared
      | cons name d =>
        rw [node?_put_self u (by simp)] at hshared
        exact absurd (Option.some.inj hshared) (hnode id)
    · rw [node?_put_ne u heq] at hshared
      exact h.pool other id hother hshared

theorem Agree.within {u' v' : Tree} (hu : Within u' u) (hpool : u'.pool = u.pool)
    (hpool' : v'.pool = v.pool) (hnodes : ∀ loc, K loc → u'.node? loc = v'.node? loc) :
    Agree K u' v' := by
  refine ⟨hnodes, fun loc id hloc hshared => ?_⟩
  rw [hpool, hpool', h.pool loc id hloc (hu _ _ hshared)]

theorem Agree.erase (loc : Loc) : Agree K (u.erase loc) (v.erase loc) := by
  refine h.within (within_erase u loc) rfl rfl fun other hother => ?_
  by_cases heq : other = loc
  · subst heq
    cases other with
    | nil => rfl
    | cons name d => rw [node?_erase_self u (by simp), node?_erase_self v (by simp)]
  · rw [node?_erase_ne u heq, node?_erase_ne v heq, h.nodes other hother]

theorem Agree.clear (loc : Loc) : Agree K (u.clear loc) (v.clear loc) := by
  refine h.within (within_clear u loc) rfl rfl fun other hother => ?_
  rw [node?_clear, node?_clear, h.nodes other hother]

theorem Agree.setBlob (hloc : K loc) (b : Blob) : Agree K (u.setBlob loc b) (v.setBlob loc b) := by
  rw [Tree.setBlob, Tree.setBlob, h.nodes loc hloc]
  split
  · rename_i id hid
    refine ⟨fun other hother => ?_, fun other id' hother hshared => ?_⟩
    · -- the pool is no part of what `node?` shows
      cases other with
      | nil => rfl
      | cons name d => exact h.nodes _ hother
    · have hold : u.node? other = some (.shared id') := by
        cases other with
        | nil => cases hshared
        | cons name d => exact hshared
      by_cases heq : id' = id
      · rw [heq, setShared, setShared, List.lookup_cons, List.lookup_cons, beq_self_eq_true]
      · rw [lookup_setShared_ne u heq, lookup_setShared_ne v heq, h.pool other id' hother hold]
  · exact h.put loc (by simp)

end Nodes

/-! ## What a path shows -/

/-- Nodes off the way do not matter. -/
theorem scan_agree (follow slash : Bool)
    (jump jump' : Loc → List String → Bool → Except Fault Arrival) (hup : ".." ∉ ss)
    (hu : FreeBetween u d (descend d ss))
    (hsame : ∀ loc, d <:+ loc → loc <:+ descend d ss → u.node? loc = v.node? loc) :
    u.scan follow jump slash d ss = v.scan follow jump' slash d ss := by
  induction ss generalizing d with
  | nil => rfl
  | cons step rest ih =>
    have hrest := List.not_mem_of_not_mem_cons hup
    have hstep := (List.ne_of_not_mem_cons hup).symm
    have hd : u.node? d = v.node? d := hsame d (List.suffix_refl d) (suffix_descend d _)
    rw [scan, scan, Tree.isFolderAt, Tree.isFolderAt, folderFault, folderFault, hd]
    rw [descend] at hsame hu
    by_cases hdot : step = "."
    · rw [if_pos hdot] at hsame hu
      rw [if_pos hdot, if_pos hdot, ih hrest hu hsame]
    rw [if_neg hdot] at hsame hu
    have hon := ih hrest (hu.step step) fun loc hin =>
      hsame loc ((List.suffix_cons step d).trans hin)
    rw [if_neg hdot, if_neg hdot, if_neg hstep, if_neg hstep, hon]
    have hnode : u.node? (step :: d) = v.node? (step :: d) :=
      hsame _ (List.suffix_cons step d) (suffix_descend _ _)
    rw [hnode]
    cases hv : v.node? (step :: d) with
    | none => rfl
    | some node =>
      cases node with
      | link target =>
        rw [hv] at hnode
        exact absurd hnode (hu _ _ (List.suffix_cons step d) (suffix_descend _ _))
      | _ => rfl

/-- The spot is in `K`, and so is the directory that an entry is in. -/
def SpotIn (K : Loc → Prop) : Spot → Prop
  | .here d => K d
  | .entry d name => K (name :: d) ∧ K d

theorem loc_of_spotIn {spot : Spot} (h : SpotIn K spot) : K spot.loc := by
  cases spot with
  | here d => exact h
  | entry d name => exact h.1

/-- The path comes to the same spot in both trees, and that is in `K`. -/
structure Meets (K : Loc → Prop) (u v : Tree) (cwd : Loc) (p : String) : Prop where
  resolve : ∀ follow, u.resolve cwd follow p = v.resolve cwd follow p
  inside : ∀ follow a, u.resolve cwd follow p = .ok a → SpotIn K a.spot
  resolveNew : (Path.route p).slash = false → u.resolveNew cwd p = v.resolveNew cwd p
  insideNew : ∀ a, (Path.route p).slash = false → u.resolveNew cwd p = .ok a → SpotIn K a.spot

theorem Stays.spotIn (h : Stays K cwd p) {spot : Spot} (hspot : spot.loc = Tree.goal cwd p) :
    SpotIn K spot := by
  cases spot with
  | here d => exact h.inside d (hspot ▸ List.suffix_refl d)
  | entry d name =>
    exact ⟨h.inside _ (hspot ▸ List.suffix_refl _), h.inside d (hspot ▸ List.suffix_cons name d)⟩

/-- **A path that stays where the trees agree** shows the same in both, if there are no links. -/
theorem Agree.meets (h : Agree K u v) (hu : u.LinkFree) (hp : Stays K cwd p) :
    Meets K u v cwd p := by
  have hscan : ∀ follow jump jump' slash,
      u.scan follow jump slash (start cwd p) (Path.route p).steps =
        v.scan follow jump' slash (start cwd p) (Path.route p).steps :=
          fun follow jump jump' slash =>
    scan_agree follow slash jump jump' hp.no_up (hu.between _ _) fun loc _ hloc =>
      h.nodes loc (hp.inside loc hloc)
  refine ⟨fun follow => ?_, fun follow a hres => hp.spotIn (hu.goal_of_resolve hp.no_up hres).1,
    fun _ => ?_, fun a _ hres => hp.spotIn (hu.goal_of_resolveNew hp.no_up hres).1⟩
  · cases htext : checkText p with
    | error f => rw [resolve_of_bad_text htext, resolve_of_bad_text htext]
    | ok =>
      rw [resolve_of_text htext, resolve_of_text htext, walk_eq_scan, walk_eq_scan]
      exact hscan _ _ _ _
  · cases htext : checkText p with
    | error f => rw [resolveNew_of_bad_text htext, resolveNew_of_bad_text htext]
    | ok =>
      rw [resolveNew_of_text htext, resolveNew_of_text htext, walk_eq_scan, walk_eq_scan]
      exact hscan _ _ _ _

/-- What is found is where the trees agree. -/
theorem Meets.of_lookup (hp : Meets K u v cwd p) {follow : Bool}
    (h : u.lookup cwd follow p = .ok loc) : K loc := by
  obtain ⟨a, hres, rfl, -⟩ := lookup_eq_ok h
  exact loc_of_spotIn (hp.inside _ a hres)

section Meeting

variable (h : Agree K u v) (hp : Meets K u v cwd p)
include h hp

/-- The same is found in both trees. -/
theorem Agree.lookup (follow : Bool) : u.lookup cwd follow p = v.lookup cwd follow p := by
  rw [Tree.lookup, Tree.lookup, ← hp.resolve]
  cases hres : u.resolve cwd (follow || (Path.route p).slash) p with
  | error f => rfl
  | ok a => simp only [bind, Except.bind, h.nodes _ (loc_of_spotIn (hp.inside _ a hres))]

theorem Agree.hasEntry : u.hasEntry cwd p = v.hasEntry cwd p := by
  rw [Tree.hasEntry, Tree.hasEntry, h.lookup hp]

theorem Agree.isFolder : u.isFolder cwd p = v.isFolder cwd p := by
  rw [Tree.isFolder, Tree.isFolder, ← h.lookup hp]
  cases hlook : u.lookup cwd true p with
  | error f => rfl
  | ok loc => exact h.isFolderAt (hp.of_lookup hlook)

theorem Agree.isFile : u.isFile cwd p = v.isFile cwd p := by
  rw [Tree.isFile, Tree.isFile, ← h.lookup hp]
  cases hlook : u.lookup cwd true p with
  | error f => rfl
  | ok loc => exact congrArg Option.isSome (h.blob? (hp.of_lookup hlook))

theorem Agree.readText : u.readText cwd p = v.readText cwd p := by
  have hblob : u.readBlob cwd p = v.readBlob cwd p := by
    rw [readBlob, readBlob, ← h.lookup hp]
    cases hlook : u.lookup cwd true p with
    | error f => rfl
    | ok loc =>
      have hloc := hp.of_lookup hlook
      show u.readAt _ = v.readAt _
      rw [readAt, readAt, h.blob? hloc, h.device? hloc]
  rw [Tree.readText, Tree.readText, hblob]

theorem Agree.newLoc (folder : Bool) : u.newLoc cwd p folder = v.newLoc cwd p folder := by
  rw [Tree.newLoc, Tree.newLoc, ← hp.resolve]
  cases hres : u.resolve cwd false p with
  | error f => rfl
  | ok a =>
    have hin := hp.inside false a hres
    obtain ⟨spot, slash⟩ := a
    cases spot with
    | here d => rfl
    | entry d name => simp only [bind, Except.bind, sealFault, h.nodes d hin.2, h.nodes _ hin.1]

theorem Agree.writeLoc
    (hslash : (Path.route p).slash = false) : u.writeLoc cwd p = v.writeLoc cwd p := by
  rw [Tree.writeLoc, Tree.writeLoc, ← hp.resolveNew hslash]
  cases hres : u.resolveNew cwd p with
  | error f => rfl
  | ok a =>
    have hin := hp.insideNew a hslash hres
    obtain ⟨spot, slash⟩ := a
    cases spot with
    | here d => rfl
    | entry d name => simp only [bind, Except.bind, sealFault, h.nodes d hin.2, h.nodes _ hin.1]

end Meeting

theorem Meets.of_writeLoc (hp : Meets K u v cwd p) (hslash : (Path.route p).slash = false)
    (h : u.writeLoc cwd p = .ok loc) : K loc := by
  obtain ⟨a, hres, rfl⟩ := resolveNew_of_writeLoc h
  exact loc_of_spotIn (hp.insideNew a hslash hres)

end Agree

end Concolic.Tree
