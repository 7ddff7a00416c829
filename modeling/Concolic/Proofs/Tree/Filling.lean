import Concolic.Proofs.Locality
import Concolic.Proofs.Tree.Course
import Concolic.Proofs.Tree.Entry
import Concolic.Proofs.Tree.Heading

/-
  Files that are read and written through links.

  A file may have several names.  What is written to it is seen under all of them, and nothing else
  changes: no other entry, and no other file (`Fills`).
-/

namespace Concolic.Tree

variable {t t' t'' : Tree} {cwd d loc : Loc} {p q name : String} {a : Arrival} {b b' : Blob}

/-! ## Neither directories nor links -/

/-- What is at the location, if anything, is neither a directory nor a link. -/
def NoRoad (t : Tree) (loc : Loc) : Prop := ∀ node, t.node? loc = some node → node.isRoad = false

theorem noRoad_of_not_folder (hfolder : t.isFolderAt loc = false)
    (hlink : ∀ target, t.node? loc ≠ some (.link target)) : NoRoad t loc := by
  intro node hnode
  rw [isFolderAt, hnode] at hfolder
  cases node with
  | link target => exact absurd hnode (hlink target)
  | folder => cases hfolder
  | «sealed» => cases hfolder
  | _ => rfl

theorem NoRoad.isFolderAt (h : NoRoad t loc) : t.isFolderAt loc = false := by
  rw [Tree.isFolderAt]
  cases hnode : t.node? loc with
  | none => rfl
  | some node =>
    have hroad := h node hnode
    cases node <;> first | rfl | cases hroad

theorem noRoad_of_blob? (h : t.blob? loc = some b) : NoRoad t loc := by
  intro node hnode
  rw [blob?, hnode, Option.bind_some] at h
  cases node with
  | file | shared => rfl
  | _ => cases h

theorem node?_of_blob? (h : t.blob? loc = some b) : ∃ node, t.node? loc = some node := by
  cases hnode : t.node? loc with
  | none =>
    rw [blob?, hnode] at h
    cases h
  | some node => exact ⟨node, rfl⟩

theorem not_link_of_not_road {node : Node} (h : node.isRoad = false) (target : String) :
    node ≠ .link target := by
  rintro rfl
  cases h

/-! ## Walks that go through links at their end -/

section Scan

variable {follow slash : Bool} {jump jump' : Loc → List String → Bool → Except Fault Arrival}

theorem scan_mono (hk : Keeps t t') (hjump : ∀ d ss b, jump d ss b = .ok a → jump' d ss b = .ok a)
    (hend : ∀ target, t'.node? a.spot.loc = some (.link target) →
      t.node? a.spot.loc = some (.link target)) (ss : List String) (d : Loc)
    (h : t.scan follow jump slash d ss = .ok a) : t'.scan follow jump' slash d ss = .ok a := by
  rw [scan_eq_ok_iff] at h ⊢
  induction h with
  | here ha => exact .here ha
  | stay hd _ ih => exact .stay (hk.isFolderAt hd) ih
  | up hd _ ih => exact .up (hk.isFolderAt hd) ih
  | last hd hname hlink ha =>
    -- what has been put in the place of something else than a link is no link
    subst ha
    exact .last (hk.isFolderAt hd) hname
      (fun hfollow target hnode => hlink hfollow target (hend target hnode)) rfl
  | into hd hname hne hin _ ih => exact .into (hk.isFolderAt hd) hname hne (hk.isFolderAt hin) ih
  | through hd hname hlink hstop hon =>
    exact .through (hk.isFolderAt hd) hname (hk _ _ hlink rfl) hstop (hjump _ _ _ hon)

theorem scan_creating (hjump : ∀ d ss b, jump d ss b = .ok a → b = false ∧ jump' d ss b = .ok a)
    (ha : a.slash = false) (ss : List String) (d : Loc)
    (h : t.scan follow jump slash d ss = .ok a) :
    slash = false ∧ t.scan follow jump' slash d ss = .ok a := by
  rw [scan_eq_ok_iff] at h ⊢
  induction h with
  | here heq =>
    refine ⟨?_, .here heq⟩
    rw [heq] at ha
    exact ha
  | stay hd _ ih => exact ⟨ih.1, .stay hd ih.2⟩
  | up hd _ ih => exact ⟨ih.1, .up hd ih.2⟩
  | last hd hname hlink heq =>
    refine ⟨?_, .last hd hname hlink heq⟩
    rw [heq] at ha
    exact ha
  | into hd hname hne hin _ ih => exact ⟨ih.1, .into hd hname hne hin ih.2⟩
  | through hd hname hlink hstop hon =>
    obtain ⟨hslash, hon'⟩ := hjump _ _ _ hon
    exact ⟨(Bool.or_eq_false_iff.mp hslash).1, .through hd hname hlink hstop hon'⟩

theorem not_link_of_scan {e : Loc} {last : String} {s : Bool}
    (hjump : ∀ d ss b, jump d ss b = .ok ⟨.entry e last, s⟩ →
      ∀ target, t.node? (last :: e) ≠ some (.link target)) (ss : List String) (d : Loc)
    (h : t.scan true jump slash d ss = .ok ⟨.entry e last, s⟩) :
    ∀ target, t.node? (last :: e) ≠ some (.link target) := by
  rw [scan_eq_ok_iff] at h
  induction h with
  | here ha => cases ha
  | stay _ _ ih => exact ih
  | up _ _ ih => exact ih
  | last _ _ hlink ha =>
    cases ha
    exact hlink rfl
  | into _ _ _ _ _ ih => exact ih
  | through _ _ _ _ hon => exact hjump _ _ _ hon

end Scan

/-- **A walk arrives at the same place** in every tree that has the directories and links, if the
    place is not a link there that it was not before. -/
theorem walk_mono {creating : Bool} (hk : Keeps t t')
    (hend : ∀ target, t'.node? a.spot.loc = some (.link target) →
      t.node? a.spot.loc = some (.link target)) :
    ∀ (links : Nat) (follow : Bool) (d : Loc) (ss : List String) (slash : Bool),
      t.walk creating links follow d ss slash = .ok a →
      t'.walk creating links follow d ss slash = .ok a := by
  intro links
  induction links with
  | zero => exact fun _ d ss _ h => scan_mono hk (fun _ _ _ hj => by cases hj) hend ss d h
  | succ links ih =>
    exact fun _ d ss _ h => scan_mono hk (fun d ss b hj => ih _ d ss b hj) hend ss d h

theorem walk_creating {creating : Bool} (creating' : Bool) (ha : a.slash = false) :
    ∀ (links : Nat) (follow : Bool) (d : Loc) (ss : List String) (slash : Bool),
      t.walk creating links follow d ss slash = .ok a →
      slash = false ∧ t.walk creating' links follow d ss slash = .ok a := by
  intro links
  induction links with
  | zero => exact fun _ d ss _ h => scan_creating (fun _ _ _ hj => by cases hj) ha ss d h
  | succ links ih =>
    refine fun _ d ss _ h => scan_creating (fun d ss b hj => ?_) ha ss d h
    obtain ⟨rfl, hwalk⟩ := ih _ d ss b hj
    rw [Bool.and_false] at hwalk ⊢
    exact ⟨rfl, hwalk⟩

theorem not_link_of_walk {e : Loc} {last : String} {s : Bool} :
    ∀ (links : Nat) (d : Loc) (ss : List String) (slash : Bool),
      t.walk false links true d ss slash = .ok ⟨.entry e last, s⟩ →
      ∀ target, t.node? (last :: e) ≠ some (.link target) := by
  intro links
  induction links with
  | zero => exact fun d ss _ h => not_link_of_scan (fun _ _ _ hj => by cases hj) ss d h
  | succ links ih => exact fun d ss _ h => not_link_of_scan (fun d ss b hj => ih d ss b hj) ss d h

/-! ## Reading and writing go to one place -/

theorem lookup_mono {follow : Bool} (hk : Keeps t t') (h : t.lookup cwd follow p = .ok loc)
    (hb : t'.blob? loc = some b) : t'.lookup cwd follow p = .ok loc := by
  obtain ⟨node, hnode⟩ := node?_of_blob? hb
  have hlink := not_link_of_not_road (noRoad_of_blob? hb node hnode)
  obtain ⟨a, hres, rfl, hsome⟩ := lookup_eq_ok h
  have htext := text_of_resolve hres
  rw [resolve_of_text htext] at hres
  refine lookup_of_resolve (a := a) ?_ hnode fun hslash => ?_
  · rw [resolve_of_text htext]
    refine walk_mono hk (fun target htarget => ?_) _ _ _ _ _ hres
    rw [hnode] at htarget
    exact absurd (Option.some.inj htarget) (hlink target)
  · -- what a slash follows is a directory, and stays one
    obtain ⟨old, hold⟩ := Option.isSome_iff_exists.mp hsome
    rw [lookup, resolve_of_text htext, hres] at h
    simp only [bind, Except.bind, hold, hslash, Bool.true_and] at h
    cases hfolder : old.isFolder with
    | false => simp [hfolder] at h
    | true =>
      rw [hk _ _ hold (isRoad_of_isFolder hfolder)] at hnode
      cases hnode
      exact hfolder

/-- **Writing goes where reading comes from**: to what the path leads to, and that is
    no directory. -/
theorem writeLoc_eq_ok (h : t.writeLoc cwd p = .ok loc) :
    ∃ d name, loc = name :: d ∧ t.resolve cwd true p = .ok ⟨.entry d name, false⟩ ∧
      NoRoad t (name :: d) := by
  obtain ⟨arrival, hresolved, rfl⟩ := resolveNew_of_writeLoc h
  obtain ⟨⟨spot, slash⟩, hres, h⟩ := bind_eq_ok h
  obtain rfl := Except.ok.inj (hresolved.symm.trans hres)
  have htext := text_of_resolveNew hres
  cases spot with
  | here e => cases h
  | entry d name =>
    cases slash with
    | true => cases h
    | false =>
      rw [resolveNew_of_text htext] at hres
      obtain ⟨hslash, hwalk⟩ := walk_creating false rfl _ _ _ _ _ hres
      rw [hslash] at hwalk
      have hlink := not_link_of_walk _ _ _ _ hwalk
      refine ⟨d, name, rfl, ?_, fun node hnode => ?_⟩
      · rw [resolve_of_text htext, hslash]
        exact hwalk
      · cases node with
        | folder => simp [hnode, Node.isFolder] at h
        | sealed => simp [hnode, Node.isFolder] at h
        | link target => exact absurd hnode (hlink target)
        | _ => rfl

theorem not_folder_of_writeLoc (h : t.writeLoc cwd p = .ok loc) : t.isFolderAt loc = false := by
  obtain ⟨d, name, rfl, -, hroad⟩ := writeLoc_eq_ok h
  exact hroad.isFolderAt

theorem writeLoc_of_lookup {loc' : Loc} (hread : t.lookup cwd true p = .ok loc)
    (hwrite : t.writeLoc cwd p = .ok loc') : loc' = loc := by
  obtain ⟨a, hres, rfl, -⟩ := lookup_eq_ok hread
  obtain ⟨d, name, rfl, hres', -⟩ := writeLoc_eq_ok hwrite
  rw [Bool.true_or, hres'] at hres
  cases hres
  rfl

/-! ## One file gets new contents -/

/-- The file at `loc` has got the contents `b`.  All of its names show them, and nothing else has
    changed. -/
structure Fills (t : Tree) (loc : Loc) (b : Blob) (t' : Tree) : Prop where
  here : t'.blob? loc = some b
  shared : ∀ id, t'.node? loc = some (.shared id) ↔ t.node? loc = some (.shared id)
  nodes : ∀ other, other ≠ loc → t'.node? other = t.node? other
  others : ∀ other, t.sameFile other loc = false → t'.blob? other = t.blob? other

theorem device?_of_blob? (h : t.blob? loc = some b) : t.device? loc = none := by
  rw [device?]
  split
  · rename_i device hnode
    rw [blob?, hnode] at h
    cases h
  · rfl

theorem sameFile_iff {other : Loc} : t.sameFile other loc = true ↔
    other = loc ∨ ∃ id, t.node? other = some (.shared id) ∧ t.node? loc = some (.shared id) := by
  rw [sameFile]
  by_cases heq : other = loc
  · simp [heq]
  · rw [if_neg heq]
    split
    · rename_i i j hi hj
      simp [heq, hi, hj, eq_comm]
    · rename_i hno
      constructor
      · intro h
        cases h
      · rintro (h | ⟨id, hother, hloc⟩)
        · exact absurd h heq
        · exact absurd hloc (hno id id hother)

theorem sameFile_eq_false_iff {other : Loc} : t.sameFile other loc = false ↔
    other ≠ loc ∧ ∀ id, t.node? other = some (.shared id) → t.node? loc ≠ some (.shared id) := by
  rw [← Bool.not_eq_true, sameFile_iff]
  simp

theorem blob?_of_file (h : t.node? loc = some (.file b)) : t.blob? loc = some b := by
  rw [blob?, h]
  rfl

theorem fills_setBlob (t : Tree) (hloc : loc ≠ []) (b : Blob) :
    Fills t loc b (t.setBlob loc b) := by
  by_cases hshared : ∃ id, t.node? loc = some (.shared id)
  · obtain ⟨id, hid⟩ := hshared
    have hset : t.setBlob loc b = t.setShared id b := by
      rw [setBlob, hid]
    rw [hset]
    refine ⟨?_, fun _ => by rw [node?_setShared], fun other _ => node?_setShared t id b other,
      fun other hother => ?_⟩
    · rw [blob?, node?_setShared, hid]
      simp [blobOf, setShared]
    · rw [blob?, blob?, node?_setShared]
      cases hnode : t.node? other with
      | none => rfl
      | some node =>
        cases node with
        | shared id' =>
          have hne : id' ≠ id := by
            rintro rfl
            exact (sameFile_eq_false_iff.mp hother).2 id' hnode hid
          simp only [Option.bind_some, blobOf, lookup_setShared_ne t hne]
        | _ => rfl
  · have hno : ∀ id, t.node? loc ≠ some (.shared id) := fun id hid => hshared ⟨id, hid⟩
    rw [setBlob_of_not_shared hno]
    have hhere := node?_put_self t hloc (.file b)
    refine ⟨blob?_of_file hhere, fun id => ?_, fun other hne => node?_put_ne t hne _,
      fun other hother => ?_⟩
    · rw [hhere]
      simp [hno id]
    · rw [blob?, blob?, node?_put_ne t (sameFile_eq_false_iff.mp hother).1]
      rfl

section Fills

variable (h : Fills t loc b t')
include h

theorem Fills.sameFile (other : Loc) : t'.sameFile other loc = t.sameFile other loc := by
  rw [Bool.eq_iff_iff, sameFile_iff, sameFile_iff]
  by_cases heq : other = loc
  · simp [heq]
  · simp only [heq, false_or, h.nodes other heq, h.shared]

theorem Fills.trans (h' : Fills t' loc b' t'') : Fills t loc b' t'' :=
  ⟨h'.here, fun id => (h'.shared id).trans (h.shared id),
    fun other hne => (h'.nodes other hne).trans (h.nodes other hne),
    fun other hother => (h'.others other (by rw [h.sameFile, hother])).trans
      (h.others other hother)⟩

/-- The directories and links stay. -/
theorem Fills.keeps (hold : NoRoad t loc) : Keeps t t' := by
  intro other node hnode hroad
  by_cases heq : other = loc
  · subst heq
    rw [hold node hnode] at hroad
    cases hroad
  · rw [h.nodes other heq, hnode]

theorem Fills.kept : Keeps t' t := by
  intro other node hnode hroad
  by_cases heq : other = loc
  · subst heq
    rw [noRoad_of_blob? h.here node hnode] at hroad
    cases hroad
  · rw [← h.nodes other heq, hnode]

theorem Fills.isLeaf {place : Loc} (hleaf : IsLeaf t place)
    (hout : isBelow place loc = false) : IsLeaf t' place := by
  intro other hbelow
  rw [h.nodes other ?_]
  · exact hleaf other hbelow
  · rintro rfl
    rw [hout] at hbelow
    cases hbelow

theorem Fills.file {place : Loc} (hfile : t.blob? place = some b') :
    ∃ b'', t'.blob? place = some b'' := by
  cases hsame : t'.sameFile place loc with
  | false =>
    rw [h.sameFile] at hsame
    exact ⟨b', (h.others place hsame).trans hfile⟩
  | true =>
    rcases sameFile_iff.mp hsame with rfl | ⟨id, hplace, hloc⟩
    · exact ⟨b, h.here⟩
    · refine ⟨b, ?_⟩
      rw [blob?, hplace, ← hloc]
      exact h.here

end Fills

/-- Files at some of the places of `W` have got new contents, and nothing else has changed. -/
structure FillsOnly (W : Loc → Prop) (t t' : Tree) : Prop where
  keeps : Keeps t t'
  kept : Keeps t' t
  shared : ∀ loc id, t'.node? loc = some (.shared id) ↔ t.node? loc = some (.shared id)
  nodes : ∀ loc, ¬ W loc → t'.node? loc = t.node? loc
  others : ∀ loc, (∀ place, W place → t.sameFile loc place = false) → t'.blob? loc = t.blob? loc

theorem FillsOnly.refl (W : Loc → Prop) (t : Tree) : FillsOnly W t t :=
  ⟨.refl t, .refl t, fun _ _ => .rfl, fun _ _ => rfl, fun _ _ => rfl⟩

theorem FillsOnly.trans {W : Loc → Prop} (h : FillsOnly W t t') (h' : FillsOnly W t' t'') :
    FillsOnly W t t'' := by
  refine ⟨h.keeps.trans h'.keeps, h'.kept.trans h.kept,
    fun loc id => (h'.shared loc id).trans (h.shared loc id),
    fun loc hloc => (h'.nodes loc hloc).trans (h.nodes loc hloc), fun loc hloc => ?_⟩
  rw [h'.others loc fun place hplace => ?_, h.others loc hloc]
  -- the names of a file are the same in the tree between
  obtain ⟨hne, hid⟩ := sameFile_eq_false_iff.mp (hloc place hplace)
  refine sameFile_eq_false_iff.mpr ⟨hne, fun id hshared hshared' => ?_⟩
  exact hid id ((h.shared loc id).mp hshared) ((h.shared place id).mp hshared')

theorem Fills.only {W : Loc → Prop} (h : Fills t loc b t')
    (hold : NoRoad t loc) (hloc : W loc) : FillsOnly W t t' := by
  refine ⟨h.keeps hold, h.kept, fun other id => ?_, fun other hother => ?_, fun other hother => ?_⟩
  · by_cases heq : other = loc
    · rw [heq, h.shared]
    · rw [h.nodes other heq]
  · exact h.nodes other fun heq => hother (heq ▸ hloc)
  · exact h.others other (hother loc hloc)

theorem place?_of_kept (hk : Keeps t t') (hk' : Keeps t' t) (h : t.place? cwd p = some loc) :
    t'.place? cwd p = some loc := by
  obtain ⟨a, hres, rfl⟩ := place?_eq_some h
  have htext := text_of_resolve hres
  have hres' : t'.resolve cwd (Path.route p).slash p = .ok a := by
    rw [resolve_of_text htext] at hres ⊢
    exact walk_mono hk (fun target hlink => hk' _ _ hlink rfl) _ _ _ _ _ hres
  rw [place?, hres']

/-! ## Operations that fill a file -/

theorem extend_cases {bytes : ByteArray} (hloc : loc ≠ []) (h : t.extend loc bytes = .ok t') :
    (t.device? loc).isSome = true ∧ t' = t ∨ t.device? loc = none ∧
      Fills t loc { t.blobAt loc with bytes := (t.blobAt loc).bytes ++ bytes } t' := by
  rw [extend] at h
  split at h
  · rename_i hdevice
    split at h
    · cases h
      exact .inl ⟨by rw [hdevice]; rfl, rfl⟩
    · cases h
  · rename_i device _ hdevice
    cases h
    exact .inl ⟨by rw [hdevice]; rfl, rfl⟩
  · rename_i hdevice
    cases h
    exact .inr ⟨hdevice, fills_setBlob t hloc _⟩

theorem extend_of_blob? {bytes : ByteArray} (hloc : loc ≠ []) (hb : t.blob? loc = some b)
    (h : t.extend loc bytes = .ok t') : Fills t loc { b with bytes := b.bytes ++ bytes } t' := by
  rcases extend_cases hloc h with ⟨hdevice, -⟩ | ⟨-, hfills⟩
  · rw [device?_of_blob? hb] at hdevice
    cases hdevice
  · rw [blobAt, hb] at hfills
    exact hfills

/-- **Writing** fills the file that the path leads to, unless it is a device. -/
theorem write_cases {bytes : ByteArray} (h : t.write cwd p bytes = .ok t') :
    ∃ loc, t.writeLoc cwd p = .ok loc ∧
      ((t.device? loc).isSome = true ∧ t' = t ∨ ∃ b, b.bytes = bytes ∧ Fills t loc b t') := by
  obtain ⟨⟨loc, opened⟩, hcreate, hextend⟩ := bind_eq_ok h
  obtain ⟨_, hwrite, hopened⟩ := bind_eq_ok hcreate
  cases hopened
  refine ⟨loc, hwrite, ?_⟩
  obtain ⟨d, name, rfl, -, -⟩ := writeLoc_eq_ok hwrite
  have hloc : name :: d ≠ [] := List.cons_ne_nil name d
  dsimp only at hextend
  rw [emptied] at hextend
  split at hextend
  · rename_i hdevice
    rcases extend_cases hloc hextend with ⟨-, rfl⟩ | ⟨hno, -⟩
    · exact .inl ⟨hdevice, rfl⟩
    · rw [hno] at hdevice
      cases hdevice
  · have hempty := fills_setBlob t hloc { t.blobAt (name :: d) with bytes := ByteArray.empty }
    refine .inr ⟨_, ?_, hempty.trans (extend_of_blob? hloc hempty.here hextend)⟩
    simp

/-- **Copying** fills the file that the path of the copy leads to, unless it is a device. -/
theorem copy_cases {src dst : String} {n : Nat} (h : t.copy cwd src dst = (t', .ok n)) :
    ∃ loc, t.writeLoc cwd dst = .ok loc ∧ (t' = t ∨ ∃ b, Fills t loc b t') := by
  obtain ⟨srcLoc, loc, source, -, -, hwrite, hrefill⟩ := landings_of_copy h
  refine ⟨loc, hwrite, ?_⟩
  obtain ⟨d, name, rfl, -, -⟩ := writeLoc_eq_ok hwrite
  have hset := fun u b => fills_setBlob u (List.cons_ne_nil name d) b
  refine refill_induction (P := fun u => u = t ∨ ∃ b, Fills t (name :: d) b u) hrefill (.inl rfl) ?_
  rintro u b (rfl | ⟨old, hfills⟩)
  · exact .inr ⟨b, hset u b⟩
  · exact .inr ⟨b, hfills.trans (hset u b)⟩

/-- **A renaming that succeeds** finds two names of one file and changes nothing, or it moves what
    is no directory to where none is. -/
theorem rename_eq_ok (h : t.rename cwd p q = .ok t') :
    ∃ a b, t.resolve cwd false p = .ok a ∧ t.resolve cwd false q = .ok b ∧
      (t' = t ∧ t.sameFile a.spot.loc b.spot.loc = true ∨ t' = t.move a.spot.loc b.spot.loc ∧
        (t.isFolderAt a.spot.loc = false → t.isFolderAt b.spot.loc = false)) := by
  rw [rename] at h
  obtain ⟨a, ha, h⟩ := bind_eq_ok h
  obtain ⟨b, hb, h⟩ := bind_eq_ok h
  refine ⟨a, b, ha, hb, ?_⟩
  obtain ⟨spot, slash⟩ := a
  obtain ⟨spot', slash'⟩ := b
  cases spot with
  | here d => cases h
  | entry d name =>
    cases spot' with
    | here d' => cases h
    | entry d' name' =>
      simp only at h
      split at h
      · cases h
      · repeat' split at h
        · cases h
        · cases h
        · cases h
        · rename_i hsame
          cases h
          exact .inl ⟨rfl, hsame⟩
        · cases h
        · rename_i hfault
          cases h
          refine .inr ⟨rfl, fun hsource => ?_⟩
          show t.isFolderAt (name' :: d') = false
          -- a file does not take the place of a directory
          have hsource : t.isFolderAt (name :: d) = false := hsource
          rw [renameFault, hsource] at hfault
          rw [Tree.isFolderAt]
          cases hnew : t.node? (name' :: d') with
          | none => rfl
          | some new =>
            cases hfolder : new.isFolder with
            | false => exact hfolder
            | true =>
              rw [hnew] at hfault
              simp [hfolder] at hfault

/-! ## A name that another file takes -/

theorem Leads.eq_of_walk {e : Loc} {ss : List String} {n : Nat} (h : Leads t d ss e n) :
    ∀ {links : Nat} {slash : Bool}, t.walk false links true d ss slash = .ok a →
      a.spot.loc = e := by
  induction h with
  | nil d =>
    intro links slash hwalk
    rw [walk_eq_scan] at hwalk
    cases hwalk
    rfl
  | stay hd _ ih =>
    intro links slash hwalk
    rw [walk_eq_scan, scan_dot hd, ← walk_eq_scan] at hwalk
    exact ih hwalk
  | up hd _ ih =>
    intro links slash hwalk
    rw [walk_eq_scan, scan_up hd, ← walk_eq_scan] at hwalk
    exact ih hwalk
  | @into d e name ss n hd hname hf hlead ih =>
    intro links slash hwalk
    obtain ⟨node, hnode, hfolder⟩ := isFolderAt_iff.mp hf
    rw [walk_eq_scan, scan_name hd hname, hnode] at hwalk
    cases node with
    | link target => cases hfolder
    | _ =>
      by_cases hss : ss = []
      · subst hss
        cases hlead
        cases hwalk
        rfl
      · simp only [hss, hfolder, if_false, if_true] at hwalk
        rw [← walk_eq_scan] at hwalk
        exact ih hwalk
  | through hd hname hlink _ ih =>
    intro links slash hwalk
    rw [walk_eq_scan, scan_name hd hname, hlink] at hwalk
    simp only [Bool.true_eq_false, and_false, if_false] at hwalk
    cases links with
    | zero => cases hwalk
    | succ links => exact ih hwalk

section Past

variable (hk : ∀ loc node, loc ≠ name :: d → t.node? loc = some node → node.isRoad = true →
  t'.node? loc = some node)
include hk

theorem Leads.past (hfile : ∀ f n, Leads t d [name] f n → t.isFolderAt f = false)
    (hplain : t.isFolderAt (name :: d) = false) {c e : Loc} {ss : List String} {n : Nat}
    (h : Leads t c ss e n) (he : t.isFolderAt e = true) : Leads t' c ss e n := by
  have hfolder : ∀ {loc}, t.isFolderAt loc = true → t'.isFolderAt loc = true := by
    intro loc hloc
    obtain ⟨node, hnode, hnode'⟩ := isFolderAt_iff.mp hloc
    refine isFolderAt_iff.mpr ⟨node, hk loc node ?_ hnode (isRoad_of_isFolder hnode'), hnode'⟩
    rintro rfl
    rw [hplain] at hloc
    cases hloc
  induction h with
  | nil c => exact .nil c
  | stay hc _ ih => exact .stay (hfolder hc) (ih he)
  | up hc _ ih => exact .up (hfolder hc) (ih he)
  | into hc hname hin _ ih => exact .into (hfolder hc) hname (hfolder hin) (ih he)
  | @through c e name' target ss n hc hname hlink hrest ih =>
    by_cases heq : name' :: c = name :: d
    · -- the name would lead to the directory from which the way goes on
      obtain ⟨rfl, rfl⟩ := List.cons.inj heq
      have hway : Leads t c ([name'] ++ ss) e (n + 1) := .through hc hname hlink hrest
      obtain ⟨f, n₁, n₂, hfirst, hsecond, -⟩ := hway.split
      have hno := hfile f n₁ hfirst
      rw [hsecond.isFolderAt_start he] at hno
      cases hno
    · exact .through (hfolder hc) hname (hk _ _ heq hlink rfl) (ih he)

/-- **A path to a file still names it** when the name itself is given to another file, also if it
    was a link. -/
theorem Names.past (h : Names t cwd p d name) (hfind : t.lookup cwd true p = .ok loc)
    (hloc : t.isFolderAt loc = false) : Names t' cwd p d name := by
  obtain ⟨init, hsteps, n, hn, hlead⟩ := h.way
  have hfile : ∀ f m, Leads t d [name] f m → t.isFolderAt f = false := by
    intro f m hlast
    obtain ⟨a, hres, rfl, -⟩ := lookup_eq_ok hfind
    rw [Bool.true_or, resolve_of_text h.text, hsteps] at hres
    rw [← (hlead.append hlast).eq_of_walk hres]
    exact hloc
  have hplain : t.isFolderAt (name :: d) = false := by
    cases hfolder : t.isFolderAt (name :: d) with
    | false => rfl
    | true => exact hfolder ▸ hfile _ _ (.into h.folder h.isName hfolder (.nil _))
  refine ⟨h.text, ?_, h.isName, init, hsteps, n, hn, hlead.past hk hfile hplain h.folder⟩
  obtain ⟨node, hnode, hfolder⟩ := isFolderAt_iff.mp h.folder
  refine isFolderAt_iff.mpr ⟨node, hk d node ?_ hnode (isRoad_of_isFolder hfolder), hfolder⟩
  exact (List.cons_ne_self name d).symm

end Past

theorem Names.place?_of_slash (h : Names t cwd p d name) (hslash : (Path.route p).slash = false) :
    t.place? cwd p = some (name :: d) := by
  rw [Tree.place?, hslash, h.resolve false fun hf => by cases hf]
  rfl

/-- **What is written to is the file of that name**, if the name is no link. -/
theorem names_of_writeLoc {init : List String} (hname : IsName name)
    (hsteps : (Path.route p).steps = init ++ [name]) (hslash : (Path.route p).slash = false)
    (hlink : ∀ place, t.place? cwd p = some place → ∀ target, t.node? place ≠ some (.link target))
    (h : t.writeLoc cwd p = .ok loc) : ∃ d, Names t cwd p d name ∧ loc = name :: d := by
  obtain ⟨e, last, rfl, hres, -⟩ := writeLoc_eq_ok h
  have htext := text_of_resolve hres
  obtain ⟨d, hnames⟩ : ∃ d, Names t cwd p d name := by
    rw [resolve_of_text htext, hslash] at hres
    exact names_of_walk htext hname hsteps hres
  rw [hnames.resolve true fun _ => hlink _ (hnames.place?_of_slash hslash), hslash] at hres
  cases hres
  exact ⟨_, hnames, rfl⟩

/-! ## What is read -/

/-- A path that led to the file leads to it afterwards. -/
theorem Fills.lookup (h : Fills t loc b t') (hold : NoRoad t loc) {d : Loc} {name : String}
    (hloc : loc = name :: d) (hres : t.resolve cwd true p = .ok ⟨.entry d name, false⟩) :
    t'.lookup cwd true p = .ok loc := by
  obtain ⟨node, hnode⟩ := node?_of_blob? h.here
  have hroad := noRoad_of_blob? h.here node hnode
  have htext := text_of_resolve hres
  rw [resolve_of_text htext] at hres
  subst hloc
  refine lookup_of_resolve (a := ⟨.entry d name, false⟩) ?_ hnode (fun hslash => by cases hslash)
  rw [Bool.true_or, resolve_of_text htext]
  refine walk_mono (h.keeps hold) (fun target htarget => ?_) _ _ _ _ _ hres
  rw [Spot.loc, hnode] at htarget
  cases htarget
  cases hroad

theorem contents?_of_blob? (hfind : t.lookup cwd true p = .ok loc) (hb : t.blob? loc = some b) :
    t.contents? cwd p = some b.bytes := by
  have hread : t.readAt loc = .ok b := by
    rw [readAt, hb]
  rw [contents?, readBlob, hfind]
  simp only [bind, Except.bind, hread]
  rfl

/-! ## What is read after a renaming -/

theorem Names.rename_cases {name' : String} (hp : Names t cwd p d name) (hq : Names t cwd q d name')
    (h : t.rename cwd p q = .ok t') :
    t' = t ∧ t.sameFile (name :: d) (name' :: d) = true ∨
      t' = t.move (name :: d) (name' :: d) ∧
        (t.isFolderAt (name :: d) = false → t.isFolderAt (name' :: d) = false) := by
  obtain ⟨a, a', ha, ha', hcases⟩ := rename_eq_ok h
  rw [hp.resolve false fun hf => by cases hf] at ha
  rw [hq.resolve false fun hf => by cases hf] at ha'
  cases ha
  cases ha'
  exact hcases

/-- **A file that has been given a name is read under it**, also if that was a name of the same
    file, or a link. -/
theorem Names.contents?_rename {name' : String} (hp : Names t cwd p d name)
    (hq : Names t cwd q d name') (hslash : (Path.route q).slash = false) (hne : name ≠ name')
    (hb : t.blob? (name :: d) = some b)
    (hleaf : ∀ n, t.isFolderAt (n :: d) = false → IsLeaf t (n :: d))
    (hfind : t.lookup cwd true q = .ok loc) (hloc : t.isFolderAt loc = false)
    (h : t.rename cwd p q = .ok t') : t'.contents? cwd q = some b.bytes := by
  obtain ⟨node, hnode⟩ := node?_of_blob? hb
  have hfile := noRoad_of_blob? hb node hnode
  have hplain := (noRoad_of_blob? hb).isFolderAt
  rcases hp.rename_cases hq h with ⟨rfl, hsame⟩ | ⟨rfl, hfolder⟩
  · rcases sameFile_iff.mp hsame with heq | ⟨id, hid, hid'⟩
    · exact absurd (List.cons.inj heq).1 hne
    · refine contents?_of_blob? (hq.lookup_some hslash hid' (by simp) true) ?_
      rw [blob?, hid', ← hid]
      exact hb
  · obtain ⟨hnew, -, helse⟩ :=
      node?_move_sibling hne (hleaf name hplain) (hleaf name' (hfolder hplain))
    rw [hnode] at hnew
    have hnames : Names (t.move (name :: d) (name' :: d)) cwd q d name' := by
      refine hq.past (fun other node' hother hnode' hroad => ?_) hfind hloc
      rw [helse other hother ?_, hnode']
      rintro rfl
      rw [hnode] at hnode'
      cases hnode'
      rw [hfile] at hroad
      cases hroad
    refine contents?_of_blob? (hnames.lookup_some hslash hnew (not_link_of_not_road hfile) true) ?_
    rw [blob?, hnew, ← hnode]
    exact hb

end Concolic.Tree
