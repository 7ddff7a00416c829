import Concolic.Proofs.Tree.Descent

/-
  Making a directory and those above it.

  The operation tries a path, fails if a directory is missing, tries the path without its last
  component, and comes back.  If somebody else has made some of the directories in the meantime
  (`Sprouts`), it finds them instead of making them.
-/

namespace Concolic

namespace Path

/-- Nothing but a name ends the path, unless it has dots only. -/
def IsTrim (p : String) : Prop :=
  (∀ step ∈ (route p).steps, step = ".") ∨
    ∃ init last, (route p).steps = init ++ [last] ∧ last ≠ "."

theorem isTrim_of_parent? {p q : String} (h : parent? p = some q) : IsTrim q := by
  rcases trimmed_cases (Text.splitOn '/' (anchor p.toList).2) with
    ⟨hnil, -⟩ | ⟨init, seg, before, after, htrim, -, hbody, -⟩
  · rw [parent?_of_trimmed_nil hnil] at h
    split at h
    · cases h
      exact .inl (by decide)
    · cases h
  · rw [parent?_of_trimmed_concat htrim] at h
    cases h
    have hpre : trimmed init <+: Text.splitOn '/' (anchor p.toList).2 := ⟨_, hbody.symm⟩
    rw [IsTrim, route_steps, String.toList_ofList, segments_rebuilt hpre]
    rcases List.eq_nil_or_concat (trimmed init) with hnil | ⟨init', seg', hlast⟩
    · left
      intro step hstep
      rw [hnil, anchorSegments] at hstep
      split at hstep
      · simpa using hstep
      · simp at hstep
    · right
      rw [List.concat_eq_append] at hlast
      have hidle := not_isIdle_of_trimmed hlast
      simp only [isIdle, Bool.or_eq_false_iff, decide_eq_false_iff_not] at hidle
      refine ⟨(anchorSegments (anchor p.toList).1 ++ init'.filter (· ≠ [])).map String.ofList,
        String.ofList seg', ?_, fun hdot => hidle.2 ?_⟩
      · simp [hlast, hidle.1]
      · rw [← String.toList_ofList (l := seg'), hdot]
        rfl

theorem route_fileName_of_trim {p last : String} {init : List String} (hup : ".." ∉ (route p).steps)
    (hlast : (route p).steps = init ++ [last]) (hreal : last ≠ ".") :
    ∃ q before stem, parent? p = some q ∧ isAbsolute q = isAbsolute p ∧
      (route p).steps = (route q).steps ++ (before ++ [stem]) ∧ (∀ step ∈ before, step = ".") ∧
      stem ≠ "." ∧ stem ≠ ".." := by
  have hdescent : IsDescent p := ⟨⟨last, by simp [hlast], hreal⟩, hup⟩
  obtain ⟨stem, hstem⟩ := hdescent.fileName?
  obtain ⟨q, before, after, hparent, habs, hsteps, hbefore, hafter, hdot, hup'⟩ :=
    route_fileName hstem
  rcases List.eq_nil_or_concat after with rfl | ⟨after', dot, rfl⟩
  · exact ⟨q, before, stem, hparent, habs, hsteps, hbefore, hdot, hup'⟩
  · exfalso
    have hsame : init ++ [last] = ((route q).steps ++ (before ++ stem :: after')) ++ [dot] := by
      simpa [hlast] using hsteps
    obtain ⟨-, hend⟩ := List.append_inj' hsame rfl
    cases hend
    exact hreal (hafter last (by simp))

theorem length_parent? {p q : String} (h : parent? p = some q) (hp : p ≠ "") :
    q.length < p.length := by
  have hpre := isPrefix_of_parent? h
  rw [← String.length_toList, ← String.length_toList]
  refine Nat.lt_of_le_of_ne hpre.length_le fun hlength => ?_
  obtain rfl : q = p := String.toList_inj.mp (hpre.eq_of_length hlength)
  obtain ⟨-, rest, hsteps, ⟨step, hstep, -⟩ | ⟨hempty, -⟩⟩ := route_parent h
  · rw [List.self_eq_append_right.mp hsteps] at hstep
    cases hstep
  · exact hp hempty

end Path

namespace Tree

variable {t t' u v : Tree} {cwd d e : Loc} {p q name : String} {ss rest : List String}

/-! ## Making directories on the way down -/

/-- Goes down from a directory and makes each directory that is missing. -/
def dig (t : Tree) (d : Loc) : List String → Tree × Except Fault Unit
  | [] => (t, .ok ())
  | step :: rest =>
    if step = "." then dig t d rest
    else if step.utf8ByteSize > maxName then (t, .error .nameTooLong)
    else match t.node? (step :: d) with
      | none =>
        if t.node? d = some .sealed then (t, .error .notFound)
        else dig (t.put (step :: d) .folder) (step :: d) rest
      | some node =>
        if node.isFolder then dig t (step :: d) rest
        else (t, .error (if rest = [] then .alreadyExists else .notADirectory))

/-- Below a name that is free on the way to `e` nothing stands. -/
def Rooted (e : Loc) (t : Tree) : Prop :=
  ∀ name loc, name :: loc <:+ e → t.node? loc = none → t.node? (name :: loc) = none

theorem WellFormed.rooted (h : t.WellFormed) (e : Loc) : Rooted e t :=
  fun name _ _ hnone => h.node?_below (isFolderAt_of_none hnone) name

theorem dig_dots (h : ∀ step ∈ ss, step = ".") (t : Tree) (d : Loc) (rest : List String) :
    t.dig d (ss ++ rest) = t.dig d rest := by
  induction ss with
  | nil => rfl
  | cons step ss ih =>
    rw [List.cons_append, dig, if_pos (h step List.mem_cons_self)]
    exact ih fun other hmem => h other (List.mem_cons_of_mem _ hmem)

theorem leads_dots (h : ∀ step ∈ ss, step = ".") (hd : t.isFolderAt d = true) :
    Leads t d ss d 0 := by
  induction ss with
  | nil => exact .nil d
  | cons step ss ih =>
    rw [h step List.mem_cons_self]
    exact .stay hd (ih fun other hmem => h other (List.mem_cons_of_mem _ hmem))

/-- Digging adds directories and nothing else. -/
theorem adds_dig (t : Tree) (d : Loc) (ss : List String) : Adds t (t.dig d ss).1 := by
  induction ss generalizing t d with
  | nil => exact .refl t
  | cons step rest ih =>
    rw [dig]
    split
    · exact ih t d
    · split
      · exact .refl t
      · split
        · rename_i hnone
          split
          · exact .refl t
          · exact (adds_put_folder hnone).trans (ih _ _)
        · split
          · exact ih t _
          · exact .refl t

/-- **Digging that succeeds** has laid the way. -/
theorem leads_of_dig (hd : t.isFolderAt d = true) (hup : ".." ∉ ss)
    (hdig : t.dig d ss = (t', .ok ())) :
    Leads t' d ss (descend d ss) 0 ∧ t'.isFolderAt (descend d ss) = true := by
  induction ss generalizing t d with
  | nil =>
    cases hdig
    exact ⟨.nil d, hd⟩
  | cons step rest ih =>
    have hrest := List.not_mem_of_not_mem_cons hup
    have hstep := (List.ne_of_not_mem_cons hup).symm
    have hkept : t'.isFolderAt d = true := by
      have hadds := adds_dig t d (step :: rest)
      rw [hdig] at hadds
      exact hadds.keeps.isFolderAt hd
    rw [dig] at hdig
    rw [descend]
    by_cases hdot : step = "."
    · rw [if_pos hdot] at hdig
      rw [if_pos hdot, hdot]
      obtain ⟨hlead, hfolder⟩ := ih hd hrest hdig
      exact ⟨.stay hkept hlead, hfolder⟩
    rw [if_neg hdot] at hdig
    rw [if_neg hdot]
    split at hdig
    · cases hdig
    rename_i hsize
    have hname : IsName step := ⟨hdot, hstep, Nat.le_of_not_lt hsize⟩
    -- whether it was there or is made now, the directory is there in the end
    have hinto : ∀ {t₁ : Tree}, t₁.isFolderAt (step :: d) = true →
        t₁.dig (step :: d) rest = (t', .ok ()) →
        Leads t' d (step :: rest) (descend (step :: d) rest) 0 ∧
          t'.isFolderAt (descend (step :: d) rest) = true := by
      intro t₁ hfolder hdig₁
      obtain ⟨hlead, hend⟩ := ih hfolder hrest hdig₁
      have hadds := adds_dig t₁ (step :: d) rest
      rw [hdig₁] at hadds
      exact ⟨.into hkept hname (hadds.keeps.isFolderAt hfolder) hlead, hend⟩
    split at hdig
    · split at hdig
      · cases hdig
      · refine hinto ?_ hdig
        rw [Tree.isFolderAt, node?_put_self t (by simp)]
        rfl
    · rename_i node hnode
      split at hdig
      · rename_i hfolder
        refine hinto ?_ hdig
        rw [Tree.isFolderAt, hnode]
        exact hfolder
      · cases hdig

theorem dig_append_of_free (hfree : ∀ loc, d <:+ loc → loc ≠ d → loc <:+ descend d (ss ++ rest) →
    t.node? loc = none) :
    t.dig d (ss ++ rest) = onward (t.dig d ss) fun t' => t'.dig (descend d ss) rest := by
  induction ss generalizing t d with
  | nil => rfl
  | cons step ss ih =>
    rw [List.cons_append, dig, dig, descend]
    rw [List.cons_append, descend] at hfree
    by_cases hdot : step = "."
    · rw [if_pos hdot] at hfree
      rw [if_pos hdot, if_pos hdot, if_pos hdot]
      exact ih hfree
    rw [if_neg hdot] at hfree
    rw [if_neg hdot, if_neg hdot, if_neg hdot]
    split
    · rfl
    have hnone : t.node? (step :: d) = none :=
      hfree _ (List.suffix_cons step d) (by simp) (suffix_descend _ _)
    simp only [hnone]
    split
    · rfl
    · refine ih fun loc hin hne hway => ?_
      rw [node?_put_ne t hne]
      refine hfree loc ((List.suffix_cons step d).trans hin) ?_ hway
      rintro rfl
      exact Nat.not_succ_le_self _ hin.length_le

theorem Rooted.free {loc other : Loc} (h : Rooted e t) (hnone : t.node? loc = none)
    (hin : loc <:+ other) (hway : other <:+ e) : t.node? other = none := by
  induction other with
  | nil =>
    rw [← List.suffix_nil.mp hin]
    exact hnone
  | cons name up ih =>
    rcases List.suffix_cons_iff.mp hin with rfl | hin'
    · exact hnone
    · exact h name up hway (ih hin' ((List.suffix_cons name up).trans hway))

theorem scan_into {follow slash : Bool} {jump : Loc → List String → Bool → Except Fault Arrival}
    (hd : t.isFolderAt d = true) (hname : IsName name) (hfolder : t.isFolderAt (name :: d) = true)
    (hrest : rest ≠ []) :
    t.scan follow jump slash d (name :: rest) = t.scan follow jump slash (name :: d) rest := by
  obtain ⟨node, hnode, hf⟩ := isFolderAt_iff.mp hfolder
  rw [scan_name hd hname, hnode]
  cases node with
  | folder => simp [hrest, Node.isFolder]
  | «sealed» => simp [hrest, Node.isFolder]
  | _ => cases hf

theorem dig_into (hname : IsName name) (hfolder : t.isFolderAt (name :: d) = true) :
    t.dig d (name :: rest) = t.dig (name :: d) rest := by
  obtain ⟨node, hnode, hf⟩ := isFolderAt_iff.mp hfolder
  rw [dig, if_neg hname.ne_dot, if_neg (Nat.not_lt.mpr hname.fits), hnode]
  exact if_pos hf

/-- How a walk through `ss` to something after it goes, and how digging goes: the way is there, or
    it is blocked, or it is there up to a name that is missing. -/
theorem dig_append_cases (h : t.LinkFree) (hd : t.isFolderAt d = true) (hup : ".." ∉ ss)
    (hrest : rest ≠ []) (hroot : Rooted (descend d (ss ++ rest)) t) :
    (Leads t d ss (descend d ss) 0 ∧ t.isFolderAt (descend d ss) = true ∧ t.dig d ss = (t, .ok ()) ∧
        t.dig d (ss ++ rest) = t.dig (descend d ss) rest) ∨
      (∃ f : Fault, f.kind ≠ .notFound ∧
        (∀ follow jump slash, t.scan follow jump slash d (ss ++ rest) = .error f) ∧
        t.dig d (ss ++ rest) = (t, .error f)) ∨
      (∀ follow jump slash, t.scan follow jump slash d (ss ++ rest) = .error .notFound) ∧
        t.dig d (ss ++ rest) = onward (t.dig d ss) fun t' => t'.dig (descend d ss) rest := by
  induction ss generalizing d with
  | nil => exact .inl ⟨.nil d, hd, rfl, rfl⟩
  | cons step ss ih =>
    have hups := List.not_mem_of_not_mem_cons hup
    have hstep := (List.ne_of_not_mem_cons hup).symm
    have hmore : ss ++ rest ≠ [] := by simp [hrest]
    rw [List.cons_append]
    rw [List.cons_append, descend] at hroot
    by_cases hdot : step = "."
    · rw [if_pos hdot] at hroot
      simp only [dig, descend, if_pos hdot]
      rw [hdot]
      simp only [scan_dot hd]
      rcases ih hd hups hroot with ⟨hlead, hrest⟩ | hother
      · exact .inl ⟨.stay hd hlead, hrest⟩
      · exact .inr hother
    rw [if_neg hdot] at hroot
    by_cases hsize : step.utf8ByteSize > maxName
    · refine .inr (.inl ⟨.nameTooLong, by decide, fun follow jump slash => ?_, ?_⟩)
      · rw [scan]
        simp [hd, hdot, hstep, hsize]
      · rw [dig, if_neg hdot, if_pos hsize]
    have hname : IsName step := ⟨hdot, hstep, Nat.le_of_not_lt hsize⟩
    cases hnode : t.node? (step :: d) with
    | none =>
      refine .inr (.inr ⟨fun follow jump slash => ?_, ?_⟩)
      · rw [scan_name hd hname, hnode]
        exact if_neg hmore
      · simp only [dig, descend, if_neg hdot, if_neg hsize, hnode]
        split
        · rfl
        · refine dig_append_of_free fun loc hin hne hway => ?_
          rw [node?_put_ne t hne]
          exact hroot.free hnode hin hway
    | some node =>
      cases hfolder : node.isFolder with
      | false =>
        refine .inr (.inl ⟨.notADirectory, by decide, fun follow jump slash => ?_, ?_⟩)
        · rw [scan_name hd hname, hnode]
          cases node with
          | link target => exact absurd hnode (h _ _)
          | folder => cases hfolder
          | «sealed» => cases hfolder
          | _ => exact if_neg hmore
        · simp only [dig, if_neg hdot, if_neg hsize, hnode, hfolder, if_neg hmore]
          rfl
      | true =>
        have hinto : t.isFolderAt (step :: d) = true := by
          rw [Tree.isFolderAt, hnode]
          exact hfolder
        simp only [dig_into hname hinto, descend_name hname, scan_into hd hname hinto hmore]
        rcases ih hinto hups hroot with ⟨hlead, hthere⟩ | hother
        · exact .inl ⟨.into hd hname hinto hlead, hthere⟩
        · exact .inr hother

/-- A directory is neither made nor found where the path cannot be followed. -/
theorem makeFolder_of_unresolved {f : Fault} (h : ∀ follow, t.resolve cwd follow p = .error f) :
    t.makeFolder cwd p = .error f ∧ t.attempt cwd p = (t, .error f) := by
  have hmake : t.makeFolder cwd p = .error f := by
    rw [makeFolder, Tree.newLoc, h]
    rfl
  have hfolder : t.isFolder cwd p = false := by
    rw [Tree.isFolder, Tree.lookup, h]
    rfl
  refine ⟨hmake, ?_⟩
  rw [attempt, hmake, hfolder]
  rfl

theorem makeFirst_of_unresolved {f : Fault} (hp : p ≠ "")
    (h : ∀ follow, t.resolve cwd follow p = .error f) (hkind : f.kind ≠ .notFound)
    (rest : List String) : t.makeFirst cwd (p :: rest) = (t, .error f) := by
  obtain ⟨hmake, hattempt⟩ := makeFolder_of_unresolved h
  rw [makeFirst_of_found hp fun f' hmake' => ?_, hattempt]
  rw [hmake] at hmake'
  cases hmake'
  exact hkind

/-- One try is one step of the walk. -/
theorem attempt_eq_dig (h : t.LinkFree) (htext : checkText p = .ok ())
    (hsteps : (Path.route p).steps = ss ++ [name]) (hlead : Leads t (start cwd p) ss d 0)
    (hd : t.isFolderAt d = true) (hdot : name ≠ ".") (hup : name ≠ "..") :
    t.attempt cwd p = t.dig d [name] := by
  have hres : ∀ follow, t.resolve cwd follow p = t.scan false (t.walkOn false maxLinks false)
      (Path.route p).slash d [name] := fun follow => by
    rw [h.resolve_eq, resolve_of_text htext, hsteps,
      walk_append rfl hlead false (by simp) maxLinks (Nat.zero_le _), walk_eq_scan]
    rfl
  by_cases hsize : name.utf8ByteSize > maxName
  · have hlong : ∀ follow, t.resolve cwd follow p = .error .nameTooLong := fun follow => by
      rw [hres, scan]
      simp [hd, hdot, hup, hsize]
    rw [(makeFolder_of_unresolved hlong).2, dig, if_neg hdot, if_pos hsize]
  have hname : IsName name := ⟨hdot, hup, Nat.le_of_not_lt hsize⟩
  have harrive : ∀ follow, t.resolve cwd follow p = .ok ⟨.entry d name, (Path.route p).slash⟩ :=
    fun follow => by
      rw [hres, scan_name hd hname]
      cases t.node? (name :: d) with
      | none => rfl
      | some node => cases node <;> rfl
  rw [attempt, dig, if_neg hdot, if_neg hsize]
  cases hnode : t.node? (name :: d) with
  | none =>
    have hfolder : t.isFolder cwd p = false := by
      rw [Tree.isFolder, Tree.lookup, harrive]
      simp only [bind, Except.bind, Spot.loc, hnode]
    by_cases hseal : t.node? d = some .sealed
    · have hmake : t.makeFolder cwd p = .error .notFound := by
        rw [makeFolder, Tree.newLoc, harrive]
        simp [bind, Except.bind, hnode, sealFault, hseal]
      rw [hmake, hfolder]
      simp [hseal]
    · have hmake : t.makeFolder cwd p = .ok (t.put (name :: d) .folder) := by
        rw [makeFolder, Tree.newLoc, harrive]
        simp [bind, Except.bind, hnode, sealFault, hseal]
        rfl
      rw [hmake]
      simp [hseal, dig]
  | some node =>
    have hmake : t.makeFolder cwd p = .error .alreadyExists := by
      rw [makeFolder, Tree.newLoc, harrive]
      simp [bind, Except.bind, hnode]
    have hfolder : t.isFolder cwd p = node.isFolder := by
      rw [Tree.isFolder, Tree.lookup, harrive]
      simp only [bind, Except.bind, Spot.loc, hnode]
      cases hf : node.isFolder with
      | false => cases hslash : (Path.route p).slash <;> simp [Tree.isFolderAt, hnode, hf]
      | true => simp [Tree.isFolderAt, hnode, hf]
    rw [hmake, hfolder]
    cases hf : node.isFolder <;> simp [dig, hf]

/-- Where the paths above `p` are made by digging to the directory that `p` is in, `p` and these are
    made by digging on from there. -/
theorem makeFirst_cons_eq_dig {up before : List String} (h : t.LinkFree) (hp : p ≠ "")
    (htext : checkText p = .ok ()) (hsteps : (Path.route p).steps = ss ++ (before ++ [name]))
    (hss : ".." ∉ ss) (hbefore : ∀ step ∈ before, step = ".") (hdot : name ≠ ".")
    (hname : name ≠ "..") (hstart : t.isFolderAt (start cwd p) = true)
    (hroot : Rooted (goal cwd p) t) (hup : t.makeFirst cwd up = t.dig (start cwd p) ss) :
    t.makeFirst cwd (p :: up) = t.dig (start cwd p) (Path.route p).steps := by
  -- once the way to it is there, the last step is an attempt
  have hfinish : ∀ {t₁ : Tree}, t₁.LinkFree →
      Leads t₁ (start cwd p) ss (descend (start cwd p) ss) 0 →
      t₁.isFolderAt (descend (start cwd p) ss) = true →
      t₁.attempt cwd p = t₁.dig (descend (start cwd p) ss) (before ++ [name]) := by
    intro t₁ h₁ hlead hfolder
    rw [dig_dots hbefore]
    exact attempt_eq_dig h₁ htext (by rw [hsteps, List.append_assoc])
      (hlead.append (leads_dots hbefore hfolder)) hfolder hdot hname
  have hresolve : ∀ {f : Fault}, (∀ follow jump slash, t.scan follow jump slash (start cwd p)
      (ss ++ (before ++ [name])) = .error f) → ∀ follow, t.resolve cwd follow p = .error f := by
    intro f hscan follow
    rw [resolve_of_text htext, hsteps, walk_eq_scan, hscan]
  rw [goal, hsteps] at hroot
  rw [hsteps]
  rcases dig_append_cases h hstart hss (by simp) hroot with
    ⟨hlead, hfolder, hdig, happend⟩ | ⟨f, hkind, hscan, hdig⟩ | ⟨hscan, hdig⟩
  · -- the directory above is there, and trying twice is trying once
    rw [happend, ← hfinish h hlead hfolder]
    by_cases hmissing : ∃ f, t.makeFolder cwd p = .error f ∧ f.kind = .notFound
    · obtain ⟨f, hmake, hkind⟩ := hmissing
      rw [makeFirst_of_missing hp hmake hkind, hup, hdig]
      rfl
    · exact makeFirst_of_found hp (fun f hmake hkind => hmissing ⟨f, hmake, hkind⟩) _
  · rw [makeFirst_of_unresolved hp (hresolve hscan) hkind, hdig]
  · have hmake := (makeFolder_of_unresolved (hresolve hscan)).1
    rw [makeFirst_of_missing hp hmake rfl, hup, hdig]
    cases hway : t.dig (start cwd p) ss with
    | mk t₁ r =>
      cases r with
      | error f => rfl
      | ok =>
        have hadds := adds_dig t (start cwd p) ss
        rw [hway] at hadds
        obtain ⟨hlead, hfolder⟩ := leads_of_dig hstart hss hway
        exact hfinish (h.adds hadds) hlead hfolder

/-- **Making a directory and those above it** is digging down to it. -/
theorem makeFirst_eq_dig (h : t.LinkFree) :
    ∀ (fuel : Nat) (p : String), p.length < fuel → (p = "" ∨ checkText p = .ok ()) →
      ".." ∉ (Path.route p).steps → Path.IsTrim p → t.isFolderAt (start cwd p) = true →
      Rooted (goal cwd p) t →
      t.makeFirst cwd (ancestors fuel p) = t.dig (start cwd p) (Path.route p).steps := by
  intro fuel
  induction fuel with
  | zero =>
    intro p hfuel
    exact absurd hfuel (Nat.not_lt_zero _)
  | succ fuel ih =>
    intro p hfuel htext hup htrim hstart hroot
    by_cases hempty : p = ""
    · subst hempty
      rfl
    have htext : checkText p = .ok () := htext.resolve_left hempty
    rcases htrim with hdots | ⟨init, last, hlast, hreal⟩
    · -- the path leads to where it starts
      have hreach : Reaches t cwd p (start cwd p) :=
        ⟨htext, hstart, 0, Nat.zero_le _, leads_dots hdots hstart⟩
      have hdig := dig_dots hdots t (start cwd p) []
      rw [List.append_nil] at hdig
      rw [ancestors, hreach.makeFirst, hdig]
      rfl
    obtain ⟨q, before, stem, hparent, habs, hsteps, hbefore, hdot, hstem⟩ :=
      Path.route_fileName_of_trim hup hlast hreal
    have hstartq : start cwd q = start cwd p := by rw [start, start, habs]
    have hupq : ".." ∉ (Path.route q).steps := fun hmem =>
      hup (hsteps ▸ List.mem_append_left _ hmem)
    have hgoal : goal cwd p = descend (goal cwd q) (before ++ [stem]) := by
      rw [goal, hsteps, descend_append, ← hstartq]
      rfl
    rw [ancestors, hparent]
    refine makeFirst_cons_eq_dig h hempty htext hsteps hupq hbefore hdot hstem hstart hroot ?_
    rw [← hstartq]
    refine ih q ?_ ?_ hupq (Path.isTrim_of_parent? hparent) (hstartq ▸ hstart) ?_
    · exact Nat.lt_of_lt_of_le (Path.length_parent? hparent hempty) (Nat.le_of_lt_succ hfuel)
    · by_cases hnil : q = ""
      · exact .inl hnil
      · exact .inr <| checkText_of_prefix htext (Path.isPrefix_of_parent? hparent) hnil
    · intro name loc hway
      exact hroot name loc (hway.trans (hgoal ▸ suffix_descend _ _))

/-- On a path that goes down this is one walk that makes each directory that is missing. -/
theorem makeFolders_eq_dig (h : t.LinkFree) (htext : p = "" ∨ checkText p = .ok ())
    (hup : ".." ∉ (Path.route p).steps) (htrim : Path.IsTrim p)
    (hstart : t.isFolderAt (start cwd p) = true) (hroot : Rooted (goal cwd p) t) :
    t.makeFolders cwd p = t.dig (start cwd p) (Path.route p).steps :=
  makeFirst_eq_dig h _ p (Nat.lt_succ_self _) htext hup htrim hstart hroot

theorem makeFolders_of_bad_text {f : Fault} (hp : p ≠ "") (h : checkText p = .error f) (t : Tree)
    (cwd : Loc) : t.makeFolders cwd p = (t, .error f) := by
  have hkind : f.kind ≠ .notFound := by
    rw [checkText] at h
    split at h
    · cases h
      decide
    · split at h
      · cases h
        decide
      · cases h
  exact makeFirst_of_unresolved hp (resolve_of_bad_text h t cwd) hkind _

/-! ## Directories that somebody else has made -/

/-- A directory that has been made in another one. -/
structure Made (t : Tree) (loc : Loc) : Prop where
  folder : t.node? loc = some .folder
  inside : ∃ name d, loc = name :: d ∧ name.utf8ByteSize ≤ maxName ∧ t.node? d = some .folder

/-- On the way to `e` there is in `u` what is in `v`, and besides it directories that have been
    made. -/
def Sprouts (e : Loc) (v u : Tree) : Prop :=
  ∀ loc, loc <:+ e → u.node? loc = v.node? loc ∨ (v.node? loc = none ∧ Made u loc)

theorem Sprouts.refl (e : Loc) (t : Tree) : Sprouts e t t := fun _ _ => .inl rfl

theorem Sprouts.of_some {loc : Loc} {node : Node} (h : Sprouts e v u) (hway : loc <:+ e)
    (hnode : v.node? loc = some node) : u.node? loc = some node := by
  rcases h loc hway with hsame | ⟨hnone, -⟩
  · rw [hsame, hnode]
  · rw [hnone] at hnode
    cases hnode

theorem Sprouts.isFolderAt {loc : Loc} (h : Sprouts e v u) (hway : loc <:+ e)
    (hfolder : v.isFolderAt loc = true) : u.isFolderAt loc = true := by
  obtain ⟨node, hnode, hf⟩ := isFolderAt_iff.mp hfolder
  exact isFolderAt_iff.mpr ⟨node, h.of_some hway hnode, hf⟩

theorem Sprouts.rooted (h : Sprouts e v u) (hv : Rooted e v) : Rooted e u := by
  intro name loc hway hnone
  have hv' : v.node? loc = none := by
    rcases h loc ((List.suffix_cons name loc).trans hway) with hsame | ⟨hfree, -⟩
    · rw [← hsame, hnone]
    · exact hfree
  rcases h _ hway with hsame | ⟨-, hmade⟩
  · rw [hsame, hv name loc hway hv']
  · obtain ⟨name', d, heq, -, hfolder⟩ := hmade.inside
    cases heq
    rw [hnone] at hfolder
    cases hfolder

theorem Made.put_folder {loc : Loc} (h : Made t loc) (name : String) (d : Loc) :
    Made (t.put (name :: d) .folder) loc := by
  have hkeep : ∀ other, t.node? other = some .folder →
      (t.put (name :: d) .folder).node? other = some .folder := by
    intro other hother
    by_cases heq : other = name :: d
    · subst heq
      exact node?_put_self t (by simp) _
    · rw [node?_put_ne t heq, hother]
  obtain ⟨name', d', heq, hsize, hfolder⟩ := h.inside
  exact ⟨hkeep _ h.folder, name', d', heq, hsize, hkeep _ hfolder⟩

theorem Sprouts.put_folder (h : Sprouts e v u) (name : String) (d : Loc) :
    Sprouts e (v.put (name :: d) .folder) (u.put (name :: d) .folder) := by
  intro loc hway
  by_cases heq : loc = name :: d
  · subst heq
    exact .inl (by rw [node?_put_self u (by simp), node?_put_self v (by simp)])
  · rw [node?_put_ne u heq, node?_put_ne v heq]
    rcases h loc hway with hsame | ⟨hnone, hmade⟩
    · exact .inl hsame
    · exact .inr ⟨hnone, hmade.put_folder name d⟩

theorem Sprouts.catch_up (h : Sprouts e v u) (hmade : Made u (name :: d)) :
    Sprouts e (v.put (name :: d) .folder) u := by
  intro loc hway
  by_cases heq : loc = name :: d
  · subst heq
    exact .inl (by rw [node?_put_self v (by simp), hmade.folder])
  · rw [node?_put_ne v heq]
    exact h loc hway

/-- **Digging does not tell who has made a directory.** -/
theorem Sprouts.dig (h : Sprouts e v u) (hd : v.isFolderAt d = true) (hway : descend d ss <:+ e) :
    (u.dig d ss).2 = (v.dig d ss).2 ∧ Sprouts e (v.dig d ss).1 (u.dig d ss).1 := by
  induction ss generalizing u v d with
  | nil => exact ⟨rfl, h⟩
  | cons step rest ih =>
    rw [Tree.dig, Tree.dig]
    rw [descend] at hway
    by_cases hdot : step = "."
    · rw [if_pos hdot] at hway
      rw [if_pos hdot, if_pos hdot]
      exact ih h hd hway
    rw [if_neg hdot] at hway
    rw [if_neg hdot, if_neg hdot]
    split
    · exact ⟨rfl, h⟩
    have hin : step :: d <:+ e := (suffix_descend _ _).trans hway
    have hd' : u.node? d = v.node? d := by
      obtain ⟨node, hnode, -⟩ := isFolderAt_iff.mp hd
      rw [hnode]
      exact h.of_some ((List.suffix_cons step d).trans hin) hnode
    cases hv : v.node? (step :: d) with
    | some node =>
      rw [h.of_some hin hv]
      dsimp only
      split
      · rename_i hfolder
        exact ih h (isFolderAt_iff.mpr ⟨node, hv, hfolder⟩) hway
      · exact ⟨rfl, h⟩
    | none =>
      have hv' : (v.put (step :: d) .folder).node? (step :: d) = some .folder :=
        node?_put_self v (by simp) _
      have hinto := isFolderAt_iff.mpr ⟨_, hv', rfl⟩
      rcases h _ hin with hsame | ⟨-, hmade⟩
      · rw [hsame, hv, hd']
        dsimp only
        split
        · exact ⟨rfl, h⟩
        · exact ih (h.put_folder step d) hinto hway
      · -- it has been made already, so it could have been made
        have hseal : v.node? d ≠ some .sealed := by
          obtain ⟨name', d', heq, -, hfolder⟩ := hmade.inside
          cases heq
          rw [← hd', hfolder]
          simp
        rw [hmade.folder, if_neg hseal]
        exact ih (h.catch_up hmade) hinto hway

/-- **Making directories does not tell** which of them somebody else has made. -/
theorem Sprouts.makeFolders (h : Sprouts e v u) (hv : v.LinkFree) (hu : u.LinkFree)
    (hroot : Rooted e v)
    (hup : ".." ∉ (Path.route p).steps) (htrim : Path.IsTrim p) (hway : goal cwd p <:+ e)
    (hstart : v.isFolderAt (start cwd p) = true) :
    (u.makeFolders cwd p).2 = (v.makeFolders cwd p).2 ∧
      Sprouts e (v.makeFolders cwd p).1 (u.makeFolders cwd p).1 := by
  have hway' : start cwd p <:+ e := (suffix_descend _ _).trans hway
  have hrooted : ∀ {t : Tree}, Rooted e t → Rooted (goal cwd p) t :=
    fun hr name loc hin => hr name loc (hin.trans hway)
  by_cases htext : p = "" ∨ checkText p = .ok ()
  · rw [makeFolders_eq_dig hv htext hup htrim hstart (hrooted hroot),
      makeFolders_eq_dig hu htext hup htrim (h.isFolderAt hway' hstart) (hrooted (h.rooted hroot))]
    exact h.dig hstart hway
  · obtain ⟨hp, hbad⟩ := not_or.mp htext
    cases hcheck : checkText p with
    | ok => exact absurd hcheck hbad
    | error f =>
      rw [makeFolders_of_bad_text hp hcheck, makeFolders_of_bad_text hp hcheck]
      exact ⟨rfl, h⟩

end Tree

end Concolic
