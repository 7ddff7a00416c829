import Concolic.Tree.Walk

/-
  Ways through a tree.

  `Leads t d ss e n` says that the steps `ss` lead from the directory `d` to the directory `e`
  through `n` symbolic links.  It is the relation that `walk` computes.  A way depends on the
  directories and links of the tree only, which makes paths stable while files come and go.
-/

namespace Concolic

/-- A walk can go on from the node. -/
def Node.isRoad : Node → Bool
  | folder => true
  | sealed => true
  | link _ => true
  | _ => false

namespace Tree

/-- `t'` has all directories and links of `t`. -/
def Keeps (t t' : Tree) : Prop :=
  ∀ loc node, t.node? loc = some node → node.isRoad = true → t'.node? loc = some node

/-- The step is a name, and not too long for one. -/
structure IsName (name : String) : Prop where
  ne_dot : name ≠ "."
  ne_up : name ≠ ".."
  fits : name.utf8ByteSize ≤ maxName

/-- The steps lead from one directory to another through `n` links. -/
inductive Leads (t : Tree) : Loc → List String → Loc → Nat → Prop where
  | nil (d : Loc) : Leads t d [] d 0
  | stay {d e : Loc} {ss : List String} {n : Nat} :
      t.isFolderAt d = true → Leads t d ss e n → Leads t d ("." :: ss) e n
  | up {d e : Loc} {ss : List String} {n : Nat} :
      t.isFolderAt d = true → Leads t d.tail ss e n → Leads t d (".." :: ss) e n
  | into {d e : Loc} {name : String} {ss : List String} {n : Nat} :
      t.isFolderAt d = true → IsName name → t.isFolderAt (name :: d) = true →
      Leads t (name :: d) ss e n → Leads t d (name :: ss) e n
  | through {d e : Loc} {name target : String} {ss : List String} {n : Nat} :
      t.isFolderAt d = true → IsName name → t.node? (name :: d) = some (.link target) →
      Leads t (if (Path.route target).absolute then [] else d)
        ((Path.route target).steps ++ ss) e n → Leads t d (name :: ss) e (n + 1)

variable {t t' : Tree} {d e loc : Loc} {name target : String} {ss rest : List String}
  {n links : Nat} {a : Arrival} {spot : Spot} {creating follow slash : Bool}
  {jump : Loc → List String → Bool → Except Fault Arrival}

/-! ## Keeping directories and links -/

theorem Keeps.refl (t : Tree) : Keeps t t := fun _ _ h _ => h

theorem Keeps.trans {t'' : Tree} (h : Keeps t t') (h' : Keeps t' t'') : Keeps t t'' :=
  fun loc node hnode hroad => h' loc node (h loc node hnode hroad) hroad

theorem isFolderAt_iff :
    t.isFolderAt loc = true ↔ ∃ node, t.node? loc = some node ∧ node.isFolder = true := by
  rw [isFolderAt, Option.any_eq_true]

theorem isRoad_of_isFolder {node : Node} (h : node.isFolder = true) : node.isRoad = true := by
  cases node <;> first | rfl | cases h

theorem Keeps.isFolderAt (h : Keeps t t') (hf : t.isFolderAt loc = true) :
    t'.isFolderAt loc = true := by
  obtain ⟨node, hnode, hfolder⟩ := isFolderAt_iff.mp hf
  exact isFolderAt_iff.mpr ⟨node, h loc node hnode (isRoad_of_isFolder hfolder), hfolder⟩

theorem keeps_put (node : Node)
    (h : ∀ old, t.node? loc = some old → old.isRoad = false) : Keeps t (t.put loc node) := by
  intro loc' old hold hroad
  by_cases heq : loc' = loc
  · subst heq
    rw [h old hold] at hroad
    cases hroad
  · rw [node?_put_ne t heq, hold]

theorem keeps_erase
    (h : ∀ old, t.node? loc = some old → old.isRoad = false) : Keeps t (t.erase loc) := by
  intro loc' old hold hroad
  by_cases heq : loc' = loc
  · subst heq
    rw [h old hold] at hroad
    cases hroad
  · rw [node?_erase_ne t heq, hold]

/-- **Ways are stable.**  A tree that keeps all directories and links keeps all ways. -/
theorem Leads.mono (hk : Keeps t t') (h : Leads t d ss e n) : Leads t' d ss e n := by
  induction h with
  | nil d => exact .nil d
  | stay hd _ ih => exact .stay (hk.isFolderAt hd) ih
  | up hd _ ih => exact .up (hk.isFolderAt hd) ih
  | into hd hname he _ ih => exact .into (hk.isFolderAt hd) hname (hk.isFolderAt he) ih
  | through hd hname hlink _ ih => exact .through (hk.isFolderAt hd) hname (hk _ _ hlink rfl) ih

theorem Leads.append {f : Loc} {ss' : List String} {m : Nat}
    (h : Leads t d ss e n) (h' : Leads t e ss' f m) : Leads t d (ss ++ ss') f (n + m) := by
  induction h with
  | nil d => simpa using h'
  | stay hd _ ih => exact .stay hd (ih h')
  | up hd _ ih => exact .up hd (ih h')
  | into hd hname he _ ih => exact .into hd hname he (ih h')
  | @through d e name target ss n hd hname hlink _ ih =>
    have hrest := ih h'
    rw [List.append_assoc] at hrest
    rw [show n + 1 + m = n + m + 1 by omega]
    exact .through hd hname hlink hrest

/-- Ways can be cut anywhere. -/
theorem Leads.split {f : Loc} {ss' : List String} (h : Leads t d (ss ++ ss') f n) :
    ∃ e n₁ n₂, Leads t d ss e n₁ ∧ Leads t e ss' f n₂ ∧ n₁ + n₂ = n := by
  generalize hall : ss ++ ss' = all at h
  induction h generalizing ss with
  | nil d =>
    obtain ⟨rfl, rfl⟩ := List.append_eq_nil_iff.mp hall
    exact ⟨d, 0, 0, .nil d, .nil d, rfl⟩
  | @stay d f rest n hd hrest ih =>
    cases ss with
    | nil =>
      obtain rfl : ss' = "." :: rest := hall
      exact ⟨d, 0, n, .nil d, .stay hd hrest, Nat.zero_add n⟩
    | cons s ss =>
      obtain ⟨rfl, rfl⟩ := List.cons.inj hall
      obtain ⟨e, n₁, n₂, h₁, h₂, hn⟩ := ih rfl
      exact ⟨e, n₁, n₂, .stay hd h₁, h₂, hn⟩
  | @up d f rest n hd hrest ih =>
    cases ss with
    | nil =>
      obtain rfl : ss' = ".." :: rest := hall
      exact ⟨d, 0, n, .nil d, .up hd hrest, Nat.zero_add n⟩
    | cons s ss =>
      obtain ⟨rfl, rfl⟩ := List.cons.inj hall
      obtain ⟨e, n₁, n₂, h₁, h₂, hn⟩ := ih rfl
      exact ⟨e, n₁, n₂, .up hd h₁, h₂, hn⟩
  | @into d f name rest n hd hname he hrest ih =>
    cases ss with
    | nil =>
      obtain rfl : ss' = name :: rest := hall
      exact ⟨d, 0, n, .nil d, .into hd hname he hrest, Nat.zero_add n⟩
    | cons s ss =>
      obtain ⟨rfl, rfl⟩ := List.cons.inj hall
      obtain ⟨e, n₁, n₂, h₁, h₂, hn⟩ := ih rfl
      exact ⟨e, n₁, n₂, .into hd hname he h₁, h₂, hn⟩
  | @through d f name target rest n hd hname hlink hrest ih =>
    cases ss with
    | nil =>
      obtain rfl : ss' = name :: rest := hall
      exact ⟨d, 0, n + 1, .nil d, .through hd hname hlink hrest, Nat.zero_add _⟩
    | cons s ss =>
      -- the text of the link belongs to the first part
      obtain ⟨rfl, rfl⟩ := List.cons.inj hall
      obtain ⟨e, n₁, n₂, h₁, h₂, hn⟩ := ih (List.append_assoc _ _ _)
      exact ⟨e, n₁ + 1, n₂, .through hd hname hlink h₁, h₂, by omega⟩

theorem isFolderAt_of_link (h : t.node? loc = some (.link target)) : t.isFolderAt loc = false := by
  rw [isFolderAt, h]
  rfl

/-- No place is a directory in one tree and a link in the other, or a link with two texts. -/
structure Concordant (t t' : Tree) : Prop where
  same : ∀ {loc : Loc} {a b : String}, t.node? loc = some (.link a) →
    t'.node? loc = some (.link b) → a = b
  left : ∀ {loc : Loc} {a : String}, t.node? loc = some (.link a) → t'.isFolderAt loc = false
  right : ∀ {loc : Loc} {a : String}, t'.node? loc = some (.link a) → t.isFolderAt loc = false

theorem Concordant.refl (t : Tree) : Concordant t t where
  same ha hb := by
    rw [ha] at hb
    cases hb
    rfl
  left := isFolderAt_of_link
  right := isFolderAt_of_link

/-- **Steps lead to one place** in all trees that agree on their links, as far as they lead there at
    all. -/
theorem Leads.agree (hc : Concordant t t') {e' : Loc}
    {n' : Nat} (h : Leads t d ss e n) (h' : Leads t' d ss e' n') : e = e' ∧ n = n' := by
  induction h generalizing e' n' with
  | nil d =>
    cases h'
    exact ⟨rfl, rfl⟩
  | stay _ _ ih =>
    generalize hstep : "." = step at h'
    cases h' with
    | stay _ h' => exact ih h'
    | up => exact absurd hstep (by decide)
    | into _ hname => exact absurd hstep.symm hname.ne_dot
    | through _ hname => exact absurd hstep.symm hname.ne_dot
  | up _ _ ih =>
    generalize hstep : ".." = step at h'
    cases h' with
    | stay => exact absurd hstep (by decide)
    | up _ h' => exact ih h'
    | into _ hname => exact absurd hstep.symm hname.ne_up
    | through _ hname => exact absurd hstep.symm hname.ne_up
  | into _ hname he _ ih =>
    cases h' with
    | stay => exact absurd rfl hname.ne_dot
    | up => exact absurd rfl hname.ne_up
    | into _ _ _ h' => exact ih h'
    | through _ _ hlink =>
      rw [hc.right hlink] at he
      cases he
  | through _ hname hlink _ ih =>
    cases h' with
    | stay => exact absurd rfl hname.ne_dot
    | up => exact absurd rfl hname.ne_up
    | into _ _ he =>
      rw [hc.left hlink] at he
      cases he
    | through _ _ hlink' h' =>
      obtain rfl := hc.same hlink hlink'
      obtain ⟨rfl, rfl⟩ := ih h'
      exact ⟨rfl, rfl⟩

/-- Steps lead to one directory at most. -/
theorem Leads.unique {e' : Loc} {n' : Nat}
    (h : Leads t d ss e n) (h' : Leads t d ss e' n') : e = e' ∧ n = n' :=
  h.agree (.refl t) h'

/-! ## One step of a walk -/

theorem scan_dot (hd : t.isFolderAt d = true) :
    t.scan follow jump slash d ("." :: rest) = t.scan follow jump slash d rest := by
  rw [scan]
  simp [hd]

theorem scan_up (hd : t.isFolderAt d = true) :
    t.scan follow jump slash d (".." :: rest) = t.scan follow jump slash d.tail rest := by
  rw [scan]
  simp [hd]

theorem scan_name (hd : t.isFolderAt d = true) (hname : IsName name) :
    t.scan follow jump slash d (name :: rest) =
      match t.node? (name :: d) with
      | none => if rest = [] then .ok ⟨.entry d name, slash⟩ else .error .notFound
      | some (.link target) =>
        if rest = [] ∧ follow = false then .ok ⟨.entry d name, slash⟩
        else jump (if (Path.route target).absolute then [] else d)
          ((Path.route target).steps ++ rest) (slash || (rest.isEmpty && (Path.route target).slash))
      | some node =>
        if rest = [] then .ok ⟨.entry d name, slash⟩
        else if node.isFolder then t.scan follow jump slash (name :: d) rest
        else .error .notADirectory := by
  have hsize : ¬ name.utf8ByteSize > maxName := Nat.not_lt.mpr hname.fits
  have hopen : ¬ (!t.isFolderAt d) = true := by simp [hd]
  have hscan := @scan.eq_2 t follow jump slash d name rest
  simp only [if_neg hopen, if_neg hname.ne_dot, if_neg hname.ne_up, if_neg hsize] at hscan
  exact hscan

/-! ## Walks follow ways -/

/-- What a walk does with a link that it goes through. -/
def walkOn (t : Tree) (creating : Bool) (links : Nat) (follow : Bool) :
    Loc → List String → Bool → Except Fault Arrival :=
  match links with
  | 0 => fun _ _ _ => .error .linkLoop
  | links + 1 => fun d ss b => t.walk creating links (follow && !(creating && b)) d ss b

/-- A walk is a scan that goes on behind each link. -/
theorem walk_eq_scan (t : Tree) (creating : Bool) (links : Nat) (follow : Bool) (d : Loc)
    (ss : List String) (slash : Bool) :
    t.walk creating links follow d ss slash =
      t.scan follow (t.walkOn creating links follow) slash d ss := by
  cases links <;> rfl

/-- **A walk follows the way that its first steps lead**, and goes on from there. -/
theorem walk_append (hc : (creating && slash) = false) (h : Leads t d ss e n) (follow : Bool)
    (hrest : rest ≠ []) : ∀ links, n ≤ links → t.walk creating links follow d (ss ++ rest) slash =
      t.walk creating (links - n) follow e rest slash := by
  induction h with
  | nil d => intro links _; rfl
  | stay hd _ ih =>
    intro links hn
    rw [walk_eq_scan, List.cons_append, scan_dot hd, ← walk_eq_scan]
    exact ih links hn
  | up hd _ ih =>
    intro links hn
    rw [walk_eq_scan, List.cons_append, scan_up hd, ← walk_eq_scan]
    exact ih links hn
  | @into d e name ss n hd hname he _ ih =>
    intro links hn
    have hne : ss ++ rest ≠ [] := by simp [hrest]
    obtain ⟨node, hnode, hfolder⟩ := isFolderAt_iff.mp he
    have hlink : ∀ target, node ≠ .link target := by
      rintro target rfl
      cases hfolder
    rw [walk_eq_scan, List.cons_append, scan_name hd hname, hnode]
    cases node with
    | link target => exact absurd rfl (hlink target)
    | _ =>
      simp only [hne, hfolder, if_false, if_true]
      rw [← walk_eq_scan]
      exact ih links hn
  | @through d e name target ss n hd hname hlink _ ih =>
    intro links hn
    have hne : ss ++ rest ≠ [] := by simp [hrest]
    obtain ⟨links, rfl⟩ : ∃ k, links = k + 1 := ⟨links - 1, by omega⟩
    rw [walk_eq_scan, List.cons_append, scan_name hd hname, hlink]
    simp only [hne, false_and, if_false, List.isEmpty_eq_false_iff.mpr hne, Bool.false_and,
      Bool.or_false, walkOn, hc, Bool.not_false, Bool.and_true]
    rw [← List.append_assoc, ih links (by omega), show links + 1 - (n + 1) = links - n by omega]

/-- A walk along a way arrives. -/
theorem walk_of_leads (h : Leads t d ss e n) (he : t.isFolderAt e = true) :
    ∀ links slash, n ≤ links →
      ∃ a, t.walk false links true d ss slash = .ok a ∧ a.spot.loc = e := by
  induction h with
  | nil d => intro links slash _; cases links <;> exact ⟨⟨.here d, slash⟩, rfl, rfl⟩
  | stay hd _ ih =>
    intro links slash hn
    rw [walk_eq_scan, scan_dot hd, ← walk_eq_scan]
    exact ih he links slash hn
  | up hd _ ih =>
    intro links slash hn
    rw [walk_eq_scan, scan_up hd, ← walk_eq_scan]
    exact ih he links slash hn
  | @into d e name ss n hd hname hf hlead ih =>
    intro links slash hn
    obtain ⟨node, hnode, hfolder⟩ := isFolderAt_iff.mp hf
    rw [walk_eq_scan, scan_name hd hname, hnode]
    by_cases hss : ss = []
    · subst hss
      cases hlead
      refine ⟨⟨.entry d name, slash⟩, ?_, rfl⟩
      cases node with
      | link target => cases hfolder
      | _ => rfl
    · cases node with
      | link target => cases hfolder
      | _ =>
        simp only [hss, hfolder, if_false, if_true]
        rw [← walk_eq_scan]
        exact ih he links slash hn
  | @through d e name target ss n hd hname hlink _ ih =>
    intro links slash hn
    obtain ⟨links, rfl⟩ : ∃ k, links = k + 1 := ⟨links - 1, by omega⟩
    rw [walk_eq_scan, scan_name hd hname, hlink]
    simp only [Bool.true_eq_false, and_false, if_false, walkOn, Bool.false_and, Bool.not_false,
      Bool.and_true]
    exact ih he links _ (by omega)

/-! ## Walks have followed ways -/

/-- A step that does not fail starts at a directory, and is a dot, two dots or a name. -/
theorem step_of_scan (h : t.scan follow jump slash d (name :: rest) = .ok a) :
    t.isFolderAt d = true ∧ (name = "." ∨ name = ".." ∨ IsName name) := by
  rw [scan] at h
  by_cases hd : t.isFolderAt d = true
  · refine ⟨hd, ?_⟩
    by_cases hdot : name = "."
    · exact .inl hdot
    · by_cases hup : name = ".."
      · exact .inr (.inl hup)
      · by_cases hsize : name.utf8ByteSize > maxName
        · simp [hd, hdot, hup, hsize] at h
        · exact .inr (.inr ⟨hdot, hup, Nat.not_lt.mp hsize⟩)
  · simp [hd] at h

/-- How the steps of a scan lead from `d` to the arrival `a`: by entries of directories up to the
    last step, or up to a link, from which `jump` goes on. -/
inductive Scans (t : Tree) (follow : Bool) (jump : Loc → List String → Bool → Except Fault Arrival)
    (slash : Bool) (a : Arrival) : Loc → List String → Prop
  | here {d : Loc} (ha : a = ⟨.here d, slash⟩) : Scans t follow jump slash a d []
  | stay {d : Loc} {rest : List String} (hd : t.isFolderAt d = true)
      (hrest : Scans t follow jump slash a d rest) : Scans t follow jump slash a d ("." :: rest)
  | up {d : Loc} {rest : List String} (hd : t.isFolderAt d = true)
      (hrest : Scans t follow jump slash a d.tail rest) : Scans t follow jump slash a
        d (".." :: rest)
  | last {d : Loc} {name : String} (hd : t.isFolderAt d = true) (hname : IsName name)
      (hlink : follow = true → ∀ target, t.node? (name :: d) ≠ some (.link target))
      (ha : a = ⟨.entry d name, slash⟩) : Scans t follow jump slash a d [name]
  | into {d : Loc} {name : String} {rest : List String} (hd : t.isFolderAt d = true)
      (hname : IsName name) (hne : rest ≠ []) (hin : t.isFolderAt (name :: d) = true)
      (hrest : Scans t follow jump slash a (name :: d) rest) :
      Scans t follow jump slash a d (name :: rest)
  | through {d : Loc} {name target : String} {rest : List String} (hd : t.isFolderAt d = true)
      (hname : IsName name) (hlink : t.node? (name :: d) = some (.link target))
      (hon : rest = [] → follow = true)
      (hjump : jump (if (Path.route target).absolute then [] else d)
        ((Path.route target).steps ++ rest)
        (slash || (rest.isEmpty && (Path.route target).slash)) = .ok a) :
      Scans t follow jump slash a d (name :: rest)

theorem scans_of_scan : ∀ (ss : List String) (d : Loc), t.scan follow jump slash d ss = .ok a →
    Scans t follow jump slash a d ss := by
  intro ss
  induction ss with
  | nil =>
    intro d h
    exact .here (Except.ok.inj h).symm
  | cons name rest ih =>
    intro d h
    obtain ⟨hd, rfl | rfl | hname⟩ := step_of_scan h
    · rw [scan_dot hd] at h
      exact .stay hd (ih d h)
    · rw [scan_up hd] at h
      exact .up hd (ih d.tail h)
    · rw [scan_name hd hname] at h
      split at h
      · rename_i hnone
        split at h
        · rename_i hrest
          subst hrest
          exact .last hd hname (fun _ target => by rw [hnone]; simp) (Except.ok.inj h).symm
        · cases h
      · rename_i target hnode
        split at h
        · rename_i hstop
          obtain ⟨rfl, rfl⟩ := hstop
          exact .last hd hname (fun hf => by cases hf) (Except.ok.inj h).symm
        · rename_i hstop
          refine .through hd hname hnode (fun hrest => ?_) h
          cases follow with
          | true => rfl
          | false => exact absurd ⟨hrest, rfl⟩ hstop
      · rename_i node hlink hnode
        split at h
        · rename_i hrest
          subst hrest
          refine .last hd hname (fun _ target heq => ?_) (Except.ok.inj h).symm
          rw [hnode] at heq
          exact hlink target (Option.some.inj heq)
        · rename_i hne
          split at h
          · rename_i hfolder
            exact .into hd hname hne (isFolderAt_iff.mpr ⟨node, hnode, hfolder⟩) (ih (name :: d) h)
          · cases h

theorem Scans.scan (h : Scans t follow jump slash a d ss) :
    t.scan follow jump slash d ss = .ok a := by
  induction h with
  | here ha => rw [ha, Tree.scan]
  | stay hd _ ih => rw [scan_dot hd, ih]
  | up hd _ ih => rw [scan_up hd, ih]
  | last hd hname hlink ha =>
    rw [scan_name hd hname, ha]
    split
    · rfl
    · rename_i target hnode
      cases follow with
      | false => rfl
      | true => exact absurd hnode (hlink rfl target)
    · rfl
  | @into d name rest hd hname hne hin _ ih =>
    obtain ⟨node, hnode, hfolder⟩ := isFolderAt_iff.mp hin
    rw [scan_name hd hname, hnode]
    cases node with
    | link target => cases hfolder
    | _ => simp only [hne, hfolder, if_false, if_true, ih]
  | through hd hname hlink hon hjump =>
    rw [scan_name hd hname, hlink]
    dsimp only
    rw [if_neg fun hstop => ?_, hjump]
    rw [hon hstop.1] at hstop
    cases hstop.2

/-- **Where a scan arrives** is where its steps lead. -/
theorem scan_eq_ok_iff : t.scan follow jump slash d ss = .ok a ↔ Scans t follow jump slash a d ss :=
  ⟨scans_of_scan ss d, Scans.scan⟩

theorem leads_of_scan
    (hjump : ∀ d ss b, jump d ss b = .ok a → ∃ n < links, Leads t d ss a.spot.loc n)
    (ha : t.isFolderAt a.spot.loc = true) :
    ∀ (ss : List String) (d : Loc), t.scan true jump slash d ss = .ok a →
      ∃ n ≤ links, Leads t d ss a.spot.loc n := by
  intro ss d h
  rw [scan_eq_ok_iff] at h
  induction h with
  | here heq =>
    subst heq
    exact ⟨0, Nat.zero_le _, .nil _⟩
  | stay hd _ ih =>
    obtain ⟨n, hn, hlead⟩ := ih
    exact ⟨n, hn, .stay hd hlead⟩
  | up hd _ ih =>
    obtain ⟨n, hn, hlead⟩ := ih
    exact ⟨n, hn, .up hd hlead⟩
  | last hd hname _ heq =>
    subst heq
    exact ⟨0, Nat.zero_le _, .into hd hname ha (.nil _)⟩
  | into hd hname _ hin _ ih =>
    obtain ⟨n, hn, hlead⟩ := ih
    exact ⟨n, hn, .into hd hname hin hlead⟩
  | through hd hname hlink _ hon =>
    obtain ⟨n, hn, hlead⟩ := hjump _ _ _ hon
    exact ⟨n + 1, hn, .through hd hname hlink hlead⟩

/-- Every walk that arrives at a directory has followed a way. -/
theorem leads_of_walk (ha : t.isFolderAt a.spot.loc = true) :
    ∀ (links : Nat) (d : Loc) (ss : List String) (slash : Bool),
      t.walk false links true d ss slash = .ok a → ∃ n ≤ links, Leads t d ss a.spot.loc n := by
  intro links
  induction links with
  | zero =>
    intro d ss slash h
    exact leads_of_scan (fun _ _ _ hj => by cases hj) ha ss d h
  | succ links ih =>
    intro d ss slash h
    refine leads_of_scan (fun d ss b hj => ?_) ha ss d h
    obtain ⟨n, hn, hlead⟩ := ih d ss b hj
    exact ⟨n, Nat.lt_succ_of_le hn, hlead⟩

theorem leads_of_scan_append (hrest : rest ≠ [])
    (hjump : ∀ d ss b, jump d (ss ++ rest) b = .ok a → ∃ e, ∃ n < links, Leads t d ss e n) :
    ∀ (ss : List String) (d : Loc), t.scan follow jump slash d (ss ++ rest) = .ok a →
      ∃ e, ∃ n ≤ links, Leads t d ss e n := by
  intro ss
  induction ss with
  | nil => exact fun d _ => ⟨d, 0, Nat.zero_le _, .nil d⟩
  | cons name ss ih =>
    intro d h
    rw [List.cons_append, scan_eq_ok_iff] at h
    generalize hall : ss ++ rest = all at h
    cases h with
    | stay hd h =>
      obtain ⟨e, n, hn, hlead⟩ := ih d (hall ▸ h.scan)
      exact ⟨e, n, hn, .stay hd hlead⟩
    | up hd h =>
      obtain ⟨e, n, hn, hlead⟩ := ih d.tail (hall ▸ h.scan)
      exact ⟨e, n, hn, .up hd hlead⟩
    | last => exact absurd (List.append_eq_nil_iff.mp hall).2 hrest
    | into hd hname _ hin h =>
      obtain ⟨e, n, hn, hlead⟩ := ih (name :: d) (hall ▸ h.scan)
      exact ⟨e, n, hn, .into hd hname hin hlead⟩
    | through hd hname hlink _ hon =>
      rw [← hall, ← List.append_assoc] at hon
      obtain ⟨e, n, hn, hlead⟩ := hjump _ _ _ hon
      exact ⟨e, n + 1, hn, .through hd hname hlink hlead⟩

theorem leads_of_walk_append (hrest : rest ≠ []) :
    ∀ (links : Nat) (follow : Bool) (d : Loc) (ss : List String) (slash : Bool),
      t.walk creating links follow d (ss ++ rest) slash = .ok a →
      ∃ e, ∃ n ≤ links, Leads t d ss e n := by
  intro links
  induction links with
  | zero =>
    intro follow d ss slash h
    exact leads_of_scan_append hrest (fun _ _ _ hj => by cases hj) ss d h
  | succ links ih =>
    intro follow d ss slash h
    refine leads_of_scan_append hrest (fun d ss b hj => ?_) ss d h
    obtain ⟨e, n, hn, hlead⟩ := ih _ d ss b hj
    exact ⟨e, n, Nat.lt_succ_of_le hn, hlead⟩

/-- Where a walk ends that does not go through a link at its end: at a directory that its steps lead
    to, or at a name, its last step, in one that the steps before lead to. -/
def EndsAt (t : Tree) (d : Loc) (ss : List String) (n : Nat) : Spot → Prop
  | .here e => Leads t d ss e n
  | .entry e name => ∃ init, ss = init ++ [name] ∧ Leads t d init e n ∧
      t.isFolderAt e = true ∧ IsName name

theorem EndsAt.cons {d' : Loc} (hstep : ∀ {ss e}, Leads t d' ss e n → Leads t d (name :: ss) e n)
    (h : EndsAt t d' ss n spot) : EndsAt t d (name :: ss) n spot := by
  cases spot with
  | here e => exact hstep h
  | entry e last =>
    obtain ⟨init, rfl, hlead, he, hlast⟩ := h
    exact ⟨name :: init, rfl, hstep hlead, he, hlast⟩

theorem EndsAt.through (hd : t.isFolderAt d = true) (hname : IsName name)
    (hlink : t.node? (name :: d) = some (.link target)) (hss : ss ≠ [])
    (h : EndsAt t (if (Path.route target).absolute then [] else d) ((Path.route target).steps ++ ss)
      n spot) : EndsAt t d (name :: ss) (n + 1) spot := by
  cases spot with
  | here e => exact Leads.through hd hname hlink h
  | entry e last =>
    obtain ⟨init, heq, hlead, he, hlast⟩ := h
    -- the last step is one of the path itself, not of the link
    obtain ⟨ss', last', rfl⟩ := (List.eq_nil_or_concat ss).resolve_left hss
    rw [List.concat_eq_append, ← List.append_assoc] at heq
    obtain ⟨rfl, hl⟩ := List.append_inj' heq rfl
    cases hl
    exact ⟨name :: ss', by simp, .through hd hname hlink hlead, he, hlast⟩

theorem endsAt_of_scan
    (hjump : ∀ d ss b, jump d ss b = .ok a → a.slash = b ∧ ∃ n < links, EndsAt t d ss n a.spot) :
    ∀ (ss : List String) (d : Loc), t.scan false jump slash d ss = .ok a →
      a.slash = slash ∧ ∃ n ≤ links, EndsAt t d ss n a.spot := by
  intro ss d h
  rw [scan_eq_ok_iff] at h
  induction h with
  | here heq =>
    subst heq
    exact ⟨rfl, 0, Nat.zero_le _, .nil _⟩
  | stay hd _ ih =>
    obtain ⟨hslash, n, hn, hend⟩ := ih
    exact ⟨hslash, n, hn, hend.cons fun hlead => .stay hd hlead⟩
  | up hd _ ih =>
    obtain ⟨hslash, n, hn, hend⟩ := ih
    exact ⟨hslash, n, hn, hend.cons fun hlead => .up hd hlead⟩
  | @last d name hd hname _ heq =>
    subst heq
    exact ⟨rfl, 0, Nat.zero_le _, [], rfl, .nil d, hd, hname⟩
  | into hd hname _ hin _ ih =>
    obtain ⟨hslash, n, hn, hend⟩ := ih
    exact ⟨hslash, n, hn, hend.cons fun hlead => .into hd hname hin hlead⟩
  | @through d name target rest hd hname hlink hstop hon =>
    -- a link at the end would not have been gone through
    have hrest : rest ≠ [] := fun heq => by cases hstop heq
    obtain ⟨hslash, n, hn, hend⟩ := hjump _ _ _ hon
    rw [List.isEmpty_eq_false_iff.mpr hrest, Bool.false_and, Bool.or_false] at hslash
    exact ⟨hslash, n + 1, hn, hend.through hd hname hlink hrest⟩

/-- A walk that does not go through a link at its end has followed a way up to its last step. -/
theorem endsAt_of_walk :
    ∀ (links : Nat) (d : Loc) (ss : List String) (slash : Bool),
      t.walk creating links false d ss slash = .ok a →
      a.slash = slash ∧ ∃ n ≤ links, EndsAt t d ss n a.spot := by
  intro links
  induction links with
  | zero =>
    intro d ss slash h
    exact endsAt_of_scan (fun _ _ _ hj => by cases hj) ss d h
  | succ links ih =>
    intro d ss slash h
    refine endsAt_of_scan (fun d ss b hj => ?_) ss d h
    obtain ⟨hslash, n, hn, hend⟩ := ih d ss b hj
    exact ⟨hslash, n, Nat.lt_succ_of_le hn, hend⟩

end Tree

end Concolic
