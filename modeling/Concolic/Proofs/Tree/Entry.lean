import Concolic.Proofs.Tree.Frame

/-
  Files that are written, extended, removed and renamed: an operation on a path that names a free
  entry or a regular file changes that entry and nothing else (`Becomes`).
-/

namespace Concolic.Tree

variable {t t' : Tree} {cwd d loc : Loc} {p q name : String} {node : Option Node}

/-! ## One entry -/

/-- The location is free, or has a regular file with no other name. -/
def IsSlot (t : Tree) (loc : Loc) : Prop := ∀ node, t.node? loc = some node → ∃ b, node = .file b

theorem isSlot_of_none (h : t.node? loc = none) : IsSlot t loc := by
  intro node hnode
  rw [h] at hnode
  cases hnode

theorem isSlot_of_file {b : Blob} (h : t.node? loc = some (.file b)) : IsSlot t loc := by
  intro node hnode
  rw [h] at hnode
  exact ⟨b, (Option.some.inj hnode).symm⟩

theorem IsSlot.cases (h : IsSlot t loc) :
    t.node? loc = none ∨ ∃ b, t.node? loc = some (.file b) := by
  cases hnode : t.node? loc with
  | none => exact .inl rfl
  | some node =>
    obtain ⟨b, rfl⟩ := h node hnode
    exact .inr ⟨b, rfl⟩

/-- Between `t` and `t'` only regular files directly in `d` were created, overwritten or removed. -/
def Rewrites (d : Loc) (t t' : Tree) : Prop :=
  ∀ loc, t'.node? loc ≠ t.node? loc → ∃ name, loc = name :: d ∧ IsSlot t loc ∧ IsSlot t' loc

theorem Rewrites.trans {t'' : Tree} (h : Rewrites d t t') (h' : Rewrites d t' t'') :
    Rewrites d t t'' := by
  intro loc hne
  by_cases hlast : t''.node? loc = t'.node? loc
  · obtain ⟨name, hloc, hold, hnew⟩ := h loc (hlast ▸ hne)
    exact ⟨name, hloc, hold, by rwa [IsSlot, hlast]⟩
  · obtain ⟨name, hloc, hold, hnew⟩ := h' loc hlast
    by_cases hfirst : t'.node? loc = t.node? loc
    · exact ⟨name, hloc, by rwa [IsSlot, ← hfirst], hnew⟩
    · obtain ⟨-, -, hfree, -⟩ := h loc hfirst
      exact ⟨name, hloc, hfree, hnew⟩

theorem IsSlot.not_isRoad (h : IsSlot t loc) :
    ∀ old, t.node? loc = some old → old.isRoad = false := by
  intro old hold
  obtain ⟨b, rfl⟩ := h old hold
  rfl

/-- No directory and no link is lost. -/
theorem Rewrites.keeps (h : Rewrites d t t') : Keeps t t' := by
  intro loc node hnode hroad
  by_cases hsame : t'.node? loc = t.node? loc
  · rw [hsame, hnode]
  · obtain ⟨-, -, hold, -⟩ := h loc hsame
    rw [hold.not_isRoad node hnode] at hroad
    cases hroad

theorem IsSlot.device? (h : IsSlot t loc) : t.device? loc = none := by
  rw [Tree.device?]
  rcases h.cases with hnone | ⟨b, hfile⟩
  · rw [hnone]
  · rw [hfile]

theorem IsSlot.isFolderAt (h : IsSlot t loc) : t.isFolderAt loc = false := by
  rcases h.cases with hnone | ⟨b, hfile⟩
  · exact isFolderAt_of_none hnone
  · rw [Tree.isFolderAt, hfile]
    rfl

theorem IsSlot.node?_of_adds (h : IsSlot t' loc) (hadds : Adds t t') :
    t'.node? loc = t.node? loc := by
  rcases h.cases with hnone | ⟨b, hfile⟩
  · cases hold : t.node? loc with
    | none => exact hnone
    | some old =>
      rw [hadds.within _ _ hold] at hnone
      cases hnone
  · rw [hfile, hadds.node?_of_some hfile (by simp)]

/-- `t'` shows `node` at the location and is like `t` elsewhere. -/
structure Becomes (t : Tree) (loc : Loc) (node : Option Node) (t' : Tree) : Prop where
  here : t'.node? loc = node
  elsewhere : ∀ other, other ≠ loc → t'.node? other = t.node? other

theorem becomes_put (t : Tree) (hloc : loc ≠ []) (node : Node) :
    Becomes t loc (some node) (t.put loc node) :=
  ⟨node?_put_self t hloc node, fun _ hne => node?_put_ne t hne node⟩

theorem becomes_erase (t : Tree) (hloc : loc ≠ []) : Becomes t loc none (t.erase loc) :=
  ⟨node?_erase_self t hloc, fun _ hne => node?_erase_ne t hne⟩

/-! ## Writing -/

theorem Names.writeLoc_slot (h : Names t cwd p d name) (hslash : (Path.route p).slash = false)
    (hslot : IsSlot t (name :: d)) (hd : t.node? d ≠ some .sealed) :
    t.writeLoc cwd p = .ok (name :: d) := by
  rcases hslot.cases with hnone | ⟨b, hfile⟩
  · exact h.writeLoc_none hslash hnone hd
  · exact h.writeLoc_file hslash hfile

theorem IsSlot.setBlob (h : IsSlot t loc) (b : Blob) : t.setBlob loc b = t.put loc (.file b) := by
  refine setBlob_of_not_shared (fun id hshared => ?_) b
  obtain ⟨b', hb⟩ := h _ hshared
  cases hb

/-- **Writing a file** gives it the bytes and changes nothing else. -/
theorem Names.write (h : Names t cwd p d name) (hslash : (Path.route p).slash = false)
    (hslot : IsSlot t (name :: d)) (hd : t.node? d ≠ some .sealed) (bytes : ByteArray) :
    ∃ t' b, t.write cwd p bytes = .ok t' ∧ b.bytes = bytes ∧
      Becomes t (name :: d) (some (.file b)) t' := by
  have hloc : name :: d ≠ [] := List.cons_ne_nil name d
  have hempty : t.emptied (name :: d) =
      t.put (name :: d) (.file ⟨ByteArray.empty, (t.blobAt (name :: d)).runnable⟩) := by
    rw [emptied, hslot.device?]
    exact hslot.setBlob _
  have hwrite : t.write cwd p bytes =
      .ok ((t.put (name :: d) (.file ⟨ByteArray.empty, (t.blobAt (name :: d)).runnable⟩)).put
        (name :: d) (.file ⟨bytes, (t.blobAt (name :: d)).runnable⟩)) := by
    rw [Tree.write, Tree.create, h.writeLoc_slot hslash hslot hd]
    simp only [bind, Except.bind, pure, Except.pure, hempty]
    exact extend_put t hloc _ bytes
  refine ⟨_, _, hwrite, rfl, node?_put_self _ hloc _, fun other hne => ?_⟩
  rw [node?_put_ne _ hne, node?_put_ne t hne]

/-- **Adding to a file** keeps the bytes that it had and changes nothing else. -/
theorem Names.append (h : Names t cwd p d name) (hslash : (Path.route p).slash = false)
    (hslot : IsSlot t (name :: d)) (hd : t.node? d ≠ some .sealed) (bytes : ByteArray) :
    ∃ t' b, t.append cwd p bytes = .ok t' ∧ b.bytes = (t.blobAt (name :: d)).bytes ++ bytes ∧
      Becomes t (name :: d) (some (.file b)) t' := by
  have happend : t.append cwd p bytes = .ok (t.put (name :: d) (.file
      { t.blobAt (name :: d) with bytes := (t.blobAt (name :: d)).bytes ++ bytes })) := by
    rw [Tree.append, h.writeLoc_slot hslash hslot hd]
    simp only [bind, Except.bind, extend, hslot.device?, hslot.setBlob]
  exact ⟨_, _, happend, rfl, becomes_put t (List.cons_ne_nil name d) _⟩

/-- **Copying a file** makes the other the same and changes nothing else. -/
theorem Names.copy {e : Loc} {other : String} {b : Blob} (hp : Names t cwd p d name)
    (hslash : (Path.route p).slash = false) (hfile : t.node? (name :: d) = some (.file b))
    (hq : Names t cwd q e other) (hslash' : (Path.route q).slash = false)
    (hslot : IsSlot t (other :: e)) (he : t.node? e ≠ some .sealed) (hne : name :: d ≠ other :: e) :
    ∃ t', t.copy cwd p q = (t', .ok b.bytes.size) ∧ Becomes t (other :: e) (some (.file b)) t' := by
  have hloc : other :: e ≠ [] := List.cons_ne_nil other e
  have hsource : t.blob? (name :: d) = some b := by
    rw [blob?, hfile]
    rfl
  have hopened : t.truncated (other :: e) b.runnable =
      t.put (other :: e) (.file ⟨ByteArray.empty, b.runnable⟩) := by
    rw [truncated, hslot.device?]
    exact hslot.setBlob _
  have hread : (t.put (other :: e) (.file ⟨ByteArray.empty, b.runnable⟩)).blobAt
      (name :: d) = b := by
    rw [blobAt, blob?, node?_put_ne t hne, hfile]
    rfl
  refine ⟨(t.put (other :: e) (.file ⟨ByteArray.empty, b.runnable⟩)).put (other :: e) (.file b), ?_,
    node?_put_self _ hloc _, fun loc hother => ?_⟩
  · rw [copy_of_landings (hp.lookup_some hslash hfile (by simp) true) hsource
      (hq.writeLoc_slot hslash' hslot he), refill, hopened, hread, extend_put t hloc]
  · rw [node?_put_ne _ hother, node?_put_ne t hother]

theorem Names.sync {b : Blob} (h : Names t cwd p d name) (hslash : (Path.route p).slash = false)
    (hfile : t.node? (name :: d) = some (.file b)) : t.sync cwd p = .ok () := by
  rw [Tree.sync, h.lookup_some hslash hfile (by simp) true]
  simp only [bind, Except.bind, (isSlot_of_file hfile).device?]
  rfl

/-! ## Reading -/

theorem Names.readText_file {b : Blob} (h : Names t cwd p d name)
    (hslash : (Path.route p).slash = false) (hfile : t.node? (name :: d) = some (.file b)) :
    t.readText cwd p = (String.fromUTF8? b.bytes).elim (.error .notText) .ok := by
  refine readText_of_readAt (h.lookup_some hslash hfile (by simp) true) ?_
  rw [readAt, blob?, hfile]
  rfl

theorem Names.readText_none (h : Names t cwd p d name) (hnone : t.node? (name :: d) = none) :
    t.readText cwd p = .error .notFound := by
  rw [readText, readBlob, h.lookup_none hnone true]
  rfl

theorem Names.of_within {loc : Loc} (h : Names t' cwd p d name) (hwithin : Within t t')
    (hfind : t.lookup cwd true p = .ok loc) : Names t cwd p d name := by
  obtain ⟨init, hsteps, n, hn, hlead⟩ := h.way
  obtain ⟨a, hwalk, -, -⟩ := lookup_eq_ok hfind
  rw [resolve_of_text h.text, hsteps] at hwalk
  obtain ⟨e, m, hm, hearly⟩ := leads_of_walk_append (by simp) _ _ _ _ _ hwalk
  obtain ⟨rfl, rfl⟩ := (hearly.mono hwithin.keeps).unique hlead
  -- the walk has gone on from that directory, so it is one
  rw [walk_append rfl hearly _ (by simp) maxLinks hm, walk_eq_scan] at hwalk
  exact ⟨h.text, (step_of_scan hwalk).1, h.isName, init, hsteps, m, hm, hearly⟩

theorem Names.readText_before (h : Names t' cwd p d name) (hnone : t'.node? (name :: d) = none)
    (hwithin : Within t t') : ∃ f, t.readText cwd p = .error f := by
  have hfree : t.node? (name :: d) = none := by
    cases hnode : t.node? (name :: d) with
    | none => rfl
    | some node =>
      rw [hwithin _ _ hnode] at hnone
      cases hnone
  cases hfind : t.lookup cwd true p with
  | error f =>
    refine ⟨f, ?_⟩
    rw [readText, readBlob, hfind]
    rfl
  | ok loc => exact ⟨_, (h.of_within hwithin hfind).readText_none hfree⟩

/-! ## Where nothing can be done -/

theorem Names.removeFile_none (h : Names t cwd p d name) (hnone : t.node? (name :: d) = none) :
    t.removeFile cwd p = .error .notFound := by
  rw [Tree.removeFile, h.resolve false (fun hf => by cases hf)]
  simp only [bind, Except.bind, hnone]

theorem Names.write_folder (h : Names t cwd p d name) (hslash : (Path.route p).slash = false)
    (hfolder : t.node? (name :: d) = some .folder) (bytes : ByteArray) :
    t.write cwd p bytes = .error .isADirectory := by
  have hnew := h.resolveNew hslash fun target => by rw [hfolder]; simp
  rw [Tree.write, Tree.create, writeLoc, hnew]
  simp only [bind, Except.bind, hfolder, Bool.false_eq_true, if_false, Node.isFolder, if_true]

/-! ## Renaming -/

theorem lookup_map_key {α β : Type} [BEq α] [LawfulBEq α] (es : List (α × β)) (f : α → α)
    {key key' : α} (h : ∀ e ∈ es, f e.1 = key ↔ e.1 = key') :
    (es.map fun e => (f e.1, e.2)).lookup key = es.lookup key' := by
  induction es with
  | nil => rfl
  | cons e es ih =>
    have hrest := ih fun e' he' => h e' (List.mem_cons_of_mem _ he')
    have hiff := h e List.mem_cons_self
    rw [List.map_cons, List.lookup_cons, List.lookup_cons, hrest]
    by_cases hkey : e.1 = key'
    · rw [hiff.mpr hkey, hkey, beq_self_eq_true, beq_self_eq_true]
    · have hne : f e.1 ≠ key := fun heq => hkey (hiff.mp heq)
      rw [beq_false_of_ne (Ne.symm hkey), beq_false_of_ne (Ne.symm hne)]

/-- Nothing is inside the location. -/
def IsLeaf (t : Tree) (loc : Loc) : Prop := ∀ other, isBelow loc other = true → t.node? other = none

theorem WellFormed.isLeaf (h : t.WellFormed) {dir : Loc} (hdir : t.isFolderAt dir = false) :
    IsLeaf t dir := by
  intro loc
  induction loc with
  | nil =>
    intro hbelow
    rw [not_isBelow_nil] at hbelow
    cases hbelow
  | cons name up ih =>
    intro hbelow
    by_cases heq : dir = up
    · subst heq
      exact h.node?_below hdir name
    · simp only [isBelow, Bool.and_eq_true, decide_eq_true_eq] at hbelow
      have hup : dir <:+ up := (List.suffix_cons_iff.mp hbelow.1).resolve_left hbelow.2
      have hnone := ih (by simp [isBelow, hup, heq])
      exact h.node?_below (isFolderAt_of_none hnone) name

section Move

variable {old new : Loc}

theorem relocate_of_suffix (h : old <:+ loc) :
    relocate old new loc = loc.take (loc.length - old.length) ++ new := if_pos h

theorem relocate_of_not_suffix (h : ¬ old <:+ loc) : relocate old new loc = loc := if_neg h

theorem suffix_relocate (h : old <:+ loc) : new <:+ relocate old new loc := by
  rw [relocate_of_suffix h]
  exact List.suffix_append _ _

theorem relocate_eq_new (hloc : loc ≠ new) : relocate old new loc = new ↔ loc = old := by
  by_cases hin : old <:+ loc
  · rw [relocate_of_suffix hin]
    constructor
    · intro heq
      have hempty : loc.take (loc.length - old.length) = [] := by
        have hlength := congrArg List.length heq
        rw [List.length_append] at hlength
        exact List.eq_nil_of_length_eq_zero (by omega)
      have hle := hin.length_le
      have hzero : loc.length - old.length = 0 ∨ loc = [] := by
        simpa [List.take_eq_nil_iff] using hempty
      refine (hin.eq_of_length ?_).symm
      rcases hzero with hzero | rfl
      · omega
      · simpa using hle
    · rintro rfl
      simp
  · rw [relocate_of_not_suffix hin]
    exact ⟨fun heq => absurd heq hloc, fun heq => absurd (heq ▸ List.suffix_refl old) hin⟩

theorem outside_of_mem_without {e : Loc × Node} (h : e ∈ (t.without new).entries) :
    ¬ new <:+ e.1 ∧ e ∈ t.entries := by
  simp only [without, erase, clear, List.mem_filter, isBelow] at h
  obtain ⟨⟨hmem, hbelow⟩, hne⟩ := h
  refine ⟨fun hin => ?_, hmem⟩
  have heq : new ≠ e.1 := fun heq => by simp [heq] at hne
  simp [hin, heq] at hbelow

/-- What was under the old name is under the new one. -/
theorem node?_move_new (hnew : new ≠ []) (hout : ¬ new <:+ old) (hold : old ≠ []) :
    (t.move old new).node? new = t.node? old := by
  have hlookup : ((t.without new).entries.map fun e => (relocate old new e.1, e.2)).lookup new =
      (t.without new).entries.lookup old := by
    refine lookup_map_key _ (relocate old new) fun e he => relocate_eq_new ?_
    rintro rfl
    exact (outside_of_mem_without he).1 (List.suffix_refl _)
  rw [← node?_without t hout]
  cases new with
  | nil => exact absurd rfl hnew
  | cons n d =>
    cases old with
    | nil => exact absurd rfl hold
    | cons n' d' => exact hlookup

theorem node?_move_ne (hold : ¬ old <:+ loc) (hnew : ¬ new <:+ loc) :
    (t.move old new).node? loc = t.node? loc := by
  have hlookup : ((t.without new).entries.map fun e => (relocate old new e.1, e.2)).lookup loc =
      (t.without new).entries.lookup loc := by
    refine lookup_map_key _ (relocate old new) fun e _ => ?_
    by_cases hin : old <:+ e.1
    · refine ⟨fun heq => absurd (heq ▸ suffix_relocate hin) hnew, fun heq => ?_⟩
      exact absurd (heq ▸ hin) hold
    · rw [relocate_of_not_suffix hin]
  rw [← node?_without t hnew]
  cases loc with
  | nil => rfl
  | cons n d => exact hlookup

/-- Nothing is left under the old name. -/
theorem node?_move_old (hold : old <:+ loc) (hnew : ¬ new <:+ loc) (hloc : loc ≠ []) :
    (t.move old new).node? loc = none := by
  have hlookup : ((t.without new).entries.map fun e => (relocate old new e.1, e.2)).lookup loc =
      none := by
    rw [List.lookup_eq_none_iff]
    intro e he
    obtain ⟨e', -, rfl⟩ := List.mem_map.mp he
    refine bne_iff_ne.mpr ?_
    by_cases hin : old <:+ e'.1
    · exact fun heq => hnew (heq ▸ suffix_relocate hin)
    · rw [relocate_of_not_suffix hin]
      exact fun heq => hin (heq ▸ hold)
  cases loc with
  | nil => exact absurd rfl hloc
  | cons n d => exact hlookup

theorem node?_move_inside (hleaf : IsLeaf t old) (hbelow : isBelow new loc = true) :
    (t.move old new).node? loc = none := by
  simp only [isBelow, Bool.and_eq_true, decide_eq_true_eq] at hbelow
  have hlookup : ((t.without new).entries.map fun e => (relocate old new e.1, e.2)).lookup loc =
      none := by
    rw [List.lookup_eq_none_iff]
    intro e he
    obtain ⟨e', he', rfl⟩ := List.mem_map.mp he
    obtain ⟨hout, hmem⟩ := outside_of_mem_without he'
    refine bne_iff_ne.mpr fun heq => ?_
    by_cases hin : old <:+ e'.1
    · have hne : e'.1 ≠ old := by
        intro hsame
        refine hbelow.2 ?_
        rw [heq]
        exact ((relocate_eq_new (by rintro rfl; exact hout (List.suffix_refl _))).mpr hsame).symm
      have hnone := hleaf e'.1 (by simp [isBelow, hin, Ne.symm hne])
      cases hkey : e'.1 with
      | nil =>
        rw [hkey] at hnone
        cases hnone
      | cons n d =>
        rw [hkey] at hnone
        have habsent := List.lookup_eq_none_iff.mp hnone e' hmem
        rw [hkey, bne_self_eq_false] at habsent
        cases habsent
    · rw [relocate_of_not_suffix hin] at heq
      exact hout (heq ▸ hbelow.1)
  cases loc with
  | nil => exact absurd (List.suffix_nil.mp hbelow.1) hbelow.2
  | cons n d => exact hlookup

end Move

theorem not_suffix_sibling {name' : String} (h : name ≠ name') : ¬ name :: d <:+ name' :: d :=
  fun hin => h (List.cons.inj (hin.eq_of_length rfl)).1

theorem node?_move_sibling {name' : String} (hne : name ≠ name') (hleaf : IsLeaf t (name :: d))
    (hleaf' : IsLeaf t (name' :: d)) :
    (t.move (name :: d) (name' :: d)).node? (name' :: d) = t.node? (name :: d) ∧
      (t.move (name :: d) (name' :: d)).node? (name :: d) = none ∧
      ∀ other, other ≠ name' :: d → other ≠ name :: d →
        (t.move (name :: d) (name' :: d)).node? other = t.node? other := by
  refine ⟨?_, ?_, fun other hnew hold => ?_⟩
  · exact node?_move_new (List.cons_ne_nil _ _) (not_suffix_sibling hne.symm) (List.cons_ne_nil _ _)
  · exact node?_move_old (List.suffix_refl _) (not_suffix_sibling hne.symm) (List.cons_ne_nil _ _)
  · by_cases hin : name' :: d <:+ other
    · have hbelow : isBelow (name' :: d) other = true := by simp [isBelow, hin, Ne.symm hnew]
      rw [node?_move_inside hleaf hbelow, hleaf' other hbelow]
    · by_cases hin' : name :: d <:+ other
      · have hbelow : isBelow (name :: d) other = true := by simp [isBelow, hin', Ne.symm hold]
        have hother : other ≠ [] := by
          rintro rfl
          exact absurd (List.suffix_nil.mp hin') (List.cons_ne_nil _ _)
        rw [node?_move_old hin' hin hother, hleaf other hbelow]
      · exact node?_move_ne hin' hin

/-- **Renaming a file** to another name in its directory. -/
theorem Names.rename {b : Blob} {name' : String} (ha : Names t cwd p d name)
    (hb : Names t cwd q d name') (hslash : (Path.route p).slash = false)
    (hslash' : (Path.route q).slash = false) (hne : name ≠ name')
    (hfile : t.node? (name :: d) = some (.file b)) (hslot : IsSlot t (name' :: d)) :
    t.rename cwd p q = .ok (t.move (name :: d) (name' :: d)) := by
  have hbelow : isBelow (name :: d) (name' :: d) = false :=
    isBelow_eq_false (not_suffix_sibling hne)
  have hbelow' : isBelow (name' :: d) (name :: d) = false :=
    isBelow_eq_false (not_suffix_sibling hne.symm)
  have hsame : t.sameFile (name :: d) (name' :: d) = false := by
    rw [sameFile, if_neg (fun heq => hne (List.cons.inj heq).1), hfile]
  have hfault : t.renameFault (name :: d) (name' :: d) = none := by
    rw [renameFault, (isSlot_of_file hfile).isFolderAt]
    rcases hslot.cases with hnone | ⟨b', hfile'⟩
    · rw [hnone]
    · rw [hfile']
      rfl
  rw [Tree.rename, ha.resolve false (fun hf => by cases hf),
    hb.resolve false (fun hf => by cases hf), hslash, hslash']
  simp only [bind, Except.bind, hfile, Node.isFolder, Bool.or_self, Bool.and_false,
    Bool.false_eq_true, if_false, hbelow, hbelow', hsame, hfault]

end Concolic.Tree
