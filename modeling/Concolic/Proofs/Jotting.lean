import Concolic.Proofs.Interruption
import Concolic.Proofs.Ownership
import Concolic.Proofs.Tree.Filling

/-
  What a recorder can change, in whatever condition its state directory is.

  It makes directories on the way to its own, and it writes, renames and removes its four files
  where they are neither directories nor links (`Jots`).  For this the paths of the files have to
  end by going down, without coming by a link (`Charted`).
-/

namespace Concolic

namespace StateDir

open Concolic.Tree (FreeBetween Heads IsLeaf Keeps NoRoad SameOutside descend)

variable {dir : StateDir} {cwd S place loc : Loc} {t t' t'' : Tree} {name : String}
  {bytes : ByteArray}

/-! ## What is changed -/

/-- One of the files is a name of the shared file `id`. -/
def Shares (S : Loc) (t : Tree) (id : Nat) : Prop :=
  ∃ name ∈ fileNames, t.node? (name :: S) = some (.shared id)

/-- The files change, where they are neither directories nor links, and directories are made on the
    way to them.  What has been written elsewhere is what a file shares with its other names. -/
structure Jots (S : Loc) (t t' : Tree) : Prop where
  nodes : ∀ loc, t'.node? loc = t.node? loc ∨
    (∃ name ∈ fileNames, loc = name :: S ∧ NoRoad t loc ∧ NoRoad t' loc) ∨
    (t.node? loc = none ∧ t'.node? loc = some .folder ∧ loc <:+ S)
  shared : ∀ id, Shares S t' id → Shares S t id
  pool : ∀ id, ¬ Shares S t id → t'.pool.lookup id = t.pool.lookup id

theorem Jots.refl (S : Loc) (t : Tree) :
    Jots S t t := ⟨fun _ => .inl rfl, fun _ => id, fun _ _ => rfl⟩

theorem not_on_way (name : String) : ¬ name :: S <:+ S := fun hin =>
  absurd hin.length_le (by rw [List.length_cons]; omega)

theorem Jots.trans (h : Jots S t t') (h' : Jots S t' t'') : Jots S t t'' := by
  refine ⟨fun loc => ?_, fun id hid => h.shared id (h'.shared id hid), fun id hid => ?_⟩
  · rcases h.nodes loc with hsame | ⟨name, hname, rfl, hno, hno'⟩ | ⟨hnone, hfolder, hway⟩
    · rcases h'.nodes loc with hsame' | ⟨name, hname, rfl, hno, hno'⟩ | ⟨hnone, hfolder, hway⟩
      · exact .inl (hsame'.trans hsame)
      · refine .inr (.inl ⟨name, hname, rfl, fun node hnode => hno node ?_, hno'⟩)
        rw [hsame, hnode]
      · exact .inr (.inr ⟨hsame ▸ hnone, hfolder, hway⟩)
    · rcases h'.nodes (name :: S) with hsame' | ⟨_, -, -, -, hno''⟩ | ⟨-, -, hway⟩
      · refine .inr (.inl ⟨name, hname, rfl, hno, fun node hnode => hno' node ?_⟩)
        rw [← hsame', hnode]
      · exact .inr (.inl ⟨name, hname, rfl, hno, hno''⟩)
      · exact absurd hway (not_on_way name)
    · rcases h'.nodes loc with hsame' | ⟨name, -, rfl, -⟩ | ⟨hnone', -⟩
      · exact .inr (.inr ⟨hnone, hsame'.trans hfolder, hway⟩)
      · exact absurd hway (not_on_way name)
      · rw [hnone'] at hfolder
        cases hfolder
  · rw [h'.pool id fun hshares => hid (h.shared id hshares), h.pool id hid]

theorem Jots.keeps (h : Jots S t t') : Keeps t t' := by
  intro loc node hnode hroad
  rcases h.nodes loc with hsame | ⟨_, -, -, hno, -⟩ | ⟨hnone, -⟩
  · rw [hsame, hnode]
  · rw [hno node hnode] at hroad
    cases hroad
  · rw [hnone] at hnode
    cases hnode

theorem Jots.link (h : Jots S t t') {target : String}
    (hlink : t'.node? loc = some (.link target)) : t.node? loc = some (.link target) := by
  rcases h.nodes loc with hsame | ⟨_, -, -, -, hno⟩ | ⟨-, hfolder, -⟩
  · rw [← hsame, hlink]
  · cases hno _ hlink
  · rw [hfolder] at hlink
    cases hlink

theorem Jots.elsewhere (h : Jots S t t') (hfile : ∀ name ∈ fileNames, loc ≠ name :: S)
    (hway : ¬ loc <:+ S) : t'.node? loc = t.node? loc := by
  rcases h.nodes loc with hsame | ⟨name, hname, heq, -⟩ | ⟨-, -, hon⟩
  · exact hsame
  · exact absurd heq (hfile name hname)
  · exact absurd hon hway

/-! ## Where the files are -/

theorem Clear.not_on_way (h : Clear place S) (hin : place <:+ loc) : ¬ loc <:+ S :=
  fun hway => (h currentName (by decide)).1 ((hin.trans hway).trans (List.suffix_cons _ S))

theorem Clear.ne_file (h : Clear place S) (hin : place <:+ loc) :
    ∀ name ∈ fileNames, loc ≠ name :: S := by
  rintro name hname rfl
  exact (h name hname).1 hin

/-- The path of the directory leads, by a way that does not go through the place, to where it only
    goes down, to `S`.  From there on it comes by no link, and neither do the paths of the files.
    What is not a directory has nothing inside. -/
structure Charted (dir : StateDir) (cwd S place : Loc) (t : Tree) : Prop where
  heads : ∃ e rest, Heads (t.without place) cwd dir.root e rest ∧ descend e rest = S ∧
    FreeBetween t e S
  files : ∀ name ∈ fileNames, ∀ target, t.node? (name :: S) ≠ some (.link target)
  leaves : ∀ name ∈ fileNames, t.isFolderAt (name :: S) = false → IsLeaf t (name :: S)

section Charted

variable (h : Charted dir cwd S place t)
include h

/-- **What the recorder does** leaves its directory charted. -/
theorem Charted.jots (hjots : Jots S t t') : Charted dir cwd S place t' := by
  obtain ⟨e, rest, hheads, hgoal, hfree⟩ := h.heads
  have hkeeps : Keeps (t.without place) (t'.without place) := Tree.Keeps.without hjots.keeps place
  refine ⟨⟨e, rest, hheads.mono hkeeps, hgoal, fun loc target hin hway hlink => ?_⟩,
    fun name hname target hlink => h.files name hname target (hjots.link hlink),
    fun name hname hfolder loc hbelow => ?_⟩
  · exact hfree loc target hin hway (hjots.link hlink)
  · have hfolder' : t.isFolderAt (name :: S) = false := by
      cases hold : t.isFolderAt (name :: S) with
      | false => rfl
      | true =>
        rw [hjots.keeps.isFolderAt hold] at hfolder
        cases hfolder
    rw [hjots.elsewhere ?_ ?_, h.leaves name hname hfolder' loc hbelow]
    · rintro n - rfl
      rw [not_isBelow_file] at hbelow
      cases hbelow
    · exact fun hway => not_on_way name ((isSuffix_of_isBelow hbelow).trans hway)

/-- **What happens at a place elsewhere** leaves it charted too. -/
theorem Charted.frame (hclear : Clear place S)
    (hsame : SameOutside place t t') : Charted dir cwd S place t' := by
  obtain ⟨e, rest, hheads, hgoal, hfree⟩ := h.heads
  have hnode : ∀ name ∈ fileNames, ∀ loc, name :: S <:+ loc → t'.node? loc = t.node? loc :=
    fun name hname loc hin => hsame loc (hclear.not_inside hname hin)
  refine ⟨⟨e, rest, hheads.mono hsame.keeps_without_both, hgoal, fun loc target hin hway => ?_⟩,
    fun name hname target => ?_, fun name hname hfolder loc hbelow => ?_⟩
  · rw [hsame loc fun hplace => hclear.not_on_way hplace hway]
    exact hfree loc target hin hway
  · rw [hnode name hname _ (List.suffix_refl _)]
    exact h.files name hname target
  · rw [Tree.isFolderAt, hnode name hname _ (List.suffix_refl _)] at hfolder
    rw [hnode name hname loc (isSuffix_of_isBelow hbelow)]
    exact h.leaves name hname hfolder loc hbelow

theorem Charted.heads_file (hname : name ∈ fileNames) :
    ∃ e rest, Heads t cwd (dir.file name) e rest ∧ rest ≠ [] ∧ descend e rest = name :: S ∧
      FreeBetween t e (descend e rest) := by
  obtain ⟨e, rest, hheads, rfl, hfree⟩ := h.heads
  have hgoal : descend e (rest ++ [name]) = name :: descend e rest := by
    rw [Tree.descend_append, Tree.descend_name (isName_of_mem hname)]
    rfl
  refine ⟨e, rest ++ [name], ?_, by simp, hgoal, fun loc target hin hway hlink => ?_⟩
  · exact (hheads.mono (Tree.within_without t place).keeps).join (isPlain_of_mem hname)
      (isName_of_mem hname).ne_up
  · rw [hgoal] at hway
    rcases List.suffix_cons_iff.mp hway with rfl | hway
    · exact h.files name hname target hlink
    · exact hfree loc target hin hway hlink

theorem Charted.loc_of_resolve (hname : name ∈ fileNames) {follow : Bool}
    {a : Arrival} (hres : t.resolve cwd follow (dir.file name) = .ok a) :
    a.spot.loc = name :: S := by
  obtain ⟨e, rest, hheads, hrest, hgoal, hfree⟩ := h.heads_file hname
  rw [hheads.arrives hrest hfree hres, hgoal]

theorem Charted.of_writeLoc (hname : name ∈ fileNames)
    (hwrite : t.writeLoc cwd (dir.file name) = .ok loc) :
    loc = name :: S ∧ NoRoad t (name :: S) := by
  obtain ⟨e, rest, hheads, hrest, hgoal, hfree⟩ := h.heads_file hname
  obtain ⟨a, hres, rfl⟩ := Tree.resolveNew_of_writeLoc hwrite
  have hloc : a.spot.loc = name :: S := by
    rw [hheads.arrivesNew hrest hfree (slash_file hname) hres, hgoal]
  have hfolder := Tree.not_folder_of_writeLoc hwrite
  rw [hloc] at hfolder
  exact ⟨hloc, Tree.noRoad_of_not_folder hfolder (h.files name hname)⟩

end Charted

/-- No file in the place is, by another name, a file of the state directory. -/
def Unshared (place S : Loc) (t : Tree) : Prop :=
  ∀ id, Shares S t id → ∀ loc, place <:+ loc → t.node? loc ≠ some (.shared id)

theorem Unshared.jots (h : Unshared place S t) (hclear : Clear place S) (hjots : Jots S t t') :
    Unshared place S t' := by
  intro id hid loc hin hshared
  rw [hjots.elsewhere (hclear.ne_file hin) (hclear.not_on_way hin)] at hshared
  exact h id (hjots.shared id hid) loc hin hshared

theorem Unshared.changes (h : Unshared place S t) (hclear : Clear place S)
    (hchange : Tree.ChangesInside place t t') : Unshared place S t' := by
  rintro id ⟨name, hname, hfile⟩ loc hin hshared
  rw [hchange.outside _ (hclear name hname).1] at hfile
  exact h id ⟨name, hname, hfile⟩ loc hin (hchange.aliases loc _ hshared rfl)

/-! ## Single operations -/

theorem jots_of_slot {node? : Option Node} (hname : name ∈ fileNames) (hno : NoRoad t (name :: S))
    (hself : t'.node? (name :: S) = node?) (hother : ∀ loc, loc ≠ name :: S →
      t'.node? loc = t.node? loc) (hroad : ∀ node, node? = some node → node.isRoad = false)
    (hshared : ∀ id, node? = some (.shared id) → Shares S t id) (hpool : t'.pool = t.pool) :
    Jots S t t' := by
  refine ⟨fun loc => ?_, fun id hid => ?_, fun _ _ => by rw [hpool]⟩
  · by_cases heq : loc = name :: S
    · refine .inr (.inl ⟨name, hname, heq, heq ▸ hno, fun node hnode => hroad node ?_⟩)
      rw [← hself, ← heq, hnode]
    · exact .inl (hother loc heq)
  · obtain ⟨n, hn, hnode⟩ := hid
    by_cases heq : n :: S = name :: S
    · rw [heq, hself] at hnode
      exact hshared id hnode
    · rw [hother _ heq] at hnode
      exact ⟨n, hn, hnode⟩

section Slot

variable (hname : name ∈ fileNames) (hno : NoRoad t (name :: S))
include hname hno

theorem jots_put_file (b : Blob) : Jots S t (t.put (name :: S) (.file b)) :=
  jots_of_slot hname hno (Tree.node?_put_self t (by simp) _)
    (fun _ hne => Tree.node?_put_ne t hne _)
    (fun node hnode => by cases hnode; rfl) (fun id hnode => by cases hnode) rfl

theorem jots_erase : Jots S t (t.erase (name :: S)) :=
  jots_of_slot hname hno (Tree.node?_erase_self t (by simp))
    (fun _ hne => Tree.node?_erase_ne t hne)
    (fun node hnode => by cases hnode) (fun id hnode => by cases hnode) rfl

theorem jots_setBlob (b : Blob) :
    Jots S t (t.setBlob (name :: S) b) ∧ NoRoad (t.setBlob (name :: S) b) (name :: S) := by
  rw [Tree.setBlob]
  split
  · rename_i id hshared
    have hsame : ∀ loc, (t.setShared id b).node? loc = t.node? loc := by
      intro loc
      cases loc <;> rfl
    refine ⟨⟨fun loc => .inl (hsame loc), fun id' hid => ?_, fun id' hid => ?_⟩,
      fun node hnode => ?_⟩
    · obtain ⟨n, hn, hnode⟩ := hid
      exact ⟨n, hn, hsame _ ▸ hnode⟩
    · refine Tree.lookup_setShared_ne t ?_ b
      rintro rfl
      exact hid ⟨name, hname, hshared⟩
    · rw [hsame] at hnode
      exact hno node hnode
  · refine ⟨jots_put_file hname hno b, fun node hnode => ?_⟩
    rw [Tree.node?_put_self t (by simp)] at hnode
    cases hnode
    rfl

theorem jots_extend
    (hext : t.extend (name :: S) bytes = .ok t') : Jots S t t' ∧ NoRoad t' (name :: S) := by
  rw [Tree.extend] at hext
  split at hext
  · split at hext
    · cases hext
      exact ⟨.refl S t, hno⟩
    · cases hext
  · cases hext
    exact ⟨.refl S t, hno⟩
  · cases hext
    exact jots_setBlob hname hno _

end Slot

section Charted

variable (h : Charted dir cwd S place t)
include h

theorem Charted.write (hname : name ∈ fileNames)
    (hwrite : t.write cwd (dir.file name) bytes = .ok t') :
    Jots S t t' ∧ NoRoad t' (name :: S) := by
  rw [Tree.write, Tree.create] at hwrite
  obtain ⟨created, hcreate, hext⟩ := Tree.bind_eq_ok hwrite
  obtain ⟨loc, hloc, hempty⟩ := Tree.bind_eq_ok hcreate
  obtain ⟨rfl, hno⟩ := h.of_writeLoc hname hloc
  cases hempty
  have hempty : Jots S t (t.emptied (name :: S)) ∧ NoRoad (t.emptied (name :: S)) (name :: S) := by
    rw [Tree.emptied]
    split
    · exact ⟨.refl S t, hno⟩
    · exact jots_setBlob hname hno _
  obtain ⟨hjots, hno'⟩ := jots_extend hname hempty.2 hext
  exact ⟨hempty.1.trans hjots, hno'⟩

theorem Charted.append (hname : name ∈ fileNames)
    (happend : t.append cwd (dir.file name) bytes = .ok t') : Jots S t t' := by
  rw [Tree.append] at happend
  obtain ⟨loc, hloc, hext⟩ := Tree.bind_eq_ok happend
  obtain ⟨rfl, hno⟩ := h.of_writeLoc hname hloc
  exact (jots_extend hname hno hext).1

theorem Charted.removeFile (hname : name ∈ fileNames)
    (hremove : t.removeFile cwd (dir.file name) = .ok t') : Jots S t t' := by
  obtain ⟨d, n, node, hnames, hnode, hfolder, -, rfl⟩ := Tree.removeFile_eq_ok hremove
  have hloc : n :: d = name :: S :=
    h.loc_of_resolve hname (hnames.resolve false fun hf => by cases hf)
  rw [hloc] at hnode ⊢
  refine jots_erase hname (Tree.noRoad_of_not_folder ?_ (h.files name hname))
  rw [Tree.isFolderAt, hnode]
  exact hfolder

/-- **Renaming a file**, whatever has had the other name. -/
theorem Charted.rename {name' : String} (hname : name ∈ fileNames)
    (hname' : name' ∈ fileNames) (hne : name ≠ name') (hno : NoRoad t (name :: S))
    (hrename : t.rename cwd (dir.file name) (dir.file name') = .ok t') : Jots S t t' := by
  obtain ⟨a, b, ha, hb, hmove⟩ := Tree.rename_eq_ok hrename
  rw [h.loc_of_resolve hname ha, h.loc_of_resolve hname' hb] at hmove
  rcases hmove with ⟨rfl, -⟩ | ⟨rfl, hfile⟩
  · exact .refl S t'
  have hfolder' := hfile hno.isFolderAt
  have hno' : NoRoad t (name' :: S) := Tree.noRoad_of_not_folder hfolder' (h.files name' hname')
  obtain ⟨hnew, hold, helse⟩ := Tree.node?_move_sibling hne (h.leaves name hname hno.isFolderAt)
    (h.leaves name' hname' hfolder')
  refine ⟨fun loc => ?_, fun id hid => ?_, fun _ _ => rfl⟩
  · by_cases heq' : loc = name' :: S
    · refine .inr (.inl ⟨name', hname', heq', heq' ▸ hno', fun node hnode => hno node ?_⟩)
      rw [heq'] at hnode
      rw [← hnew, hnode]
    · by_cases heq : loc = name :: S
      · refine .inr (.inl ⟨name, hname, heq, heq ▸ hno, fun node hnode => ?_⟩)
        rw [heq, hold] at hnode
        cases hnode
      · exact .inl (helse loc heq' heq)
  · -- the file that has moved takes its other names with it
    obtain ⟨n, hn, hnode⟩ := hid
    by_cases heq' : n :: S = name' :: S
    · rw [heq', hnew] at hnode
      exact ⟨name, hname, hnode⟩
    · by_cases heq : n :: S = name :: S
      · rw [heq, hold] at hnode
        cases hnode
      · rw [helse _ heq' heq] at hnode
        exact ⟨n, hn, hnode⟩

theorem Charted.on_way {q : String} {d : Loc} {n : String}
    (hkeeps : Keeps t t') (hlink : ∀ loc target, t'.node? loc = some (.link target) →
      t.node? loc = some (.link target)) (hstart : Tree.start cwd q = Tree.start cwd dir.root)
    (hbegin : (Path.route q).steps <+: (Path.route dir.root).steps)
    (hnames : Tree.Names t' cwd q d n) (hnone : t.node? (n :: d) = none) : n :: d <:+ S := by
  obtain ⟨e, rest, hheads, rfl, hfree⟩ := h.heads
  obtain ⟨init, hsteps, m, -, hlead⟩ := (hheads.mono (Tree.within_without t place).keeps).way
  obtain ⟨initq, hstepsq, k, -, hleadq⟩ := hnames.way
  obtain ⟨more, hmore⟩ := hbegin
  rw [hstart] at hleadq
  rw [hstepsq, hsteps] at hmore
  -- either the path of what is made ends on the way to `e`, or it goes on from there
  have hcases : (∃ between, init = initq ++ [n] ++ between) ∨
      ∃ down, initq = init ++ down ∧ rest = down ++ [n] ++ more := by
    rcases List.append_eq_append_iff.mp hmore with ⟨between, hinit, -⟩ | ⟨between, hlong, hrest⟩
    · exact .inl ⟨between, hinit⟩
    · rcases List.eq_nil_or_concat between with rfl | ⟨down, last, rfl⟩
      · exact .inl ⟨[], by rw [hlong, List.append_nil, List.append_nil]⟩
      · rw [List.concat_eq_append] at hlong hrest
        rw [← List.append_assoc] at hlong
        obtain ⟨hinit, hlast⟩ := List.append_inj' hlong rfl
        rw [List.cons.inj hlast |>.1]
        exact .inr ⟨down, hinit, hrest⟩
  rcases hcases with ⟨between, rfl⟩ | ⟨down, rfl, rfl⟩
  · exfalso
    rw [List.append_assoc] at hlead
    obtain ⟨d', n₁, n₂, hfirst, hlast, -⟩ := hlead.split
    obtain ⟨rfl, -⟩ := hleadq.unique (hfirst.mono hkeeps)
    have hname := hnames.isName
    cases hlast with
    | stay => exact hname.ne_dot rfl
    | up => exact hname.ne_up rfl
    | into _ _ hfolder _ =>
      rw [Tree.isFolderAt, hnone] at hfolder
      cases hfolder
    | through _ _ hnode _ =>
      rw [hnone] at hnode
      cases hnode
  · obtain ⟨e', n₁, n₂, hfirst, hdown, -⟩ := hleadq.split
    obtain ⟨rfl, -⟩ := hfirst.unique (hlead.mono hkeeps)
    have hup : ".." ∉ down := fun hmem =>
      hheads.no_up (List.mem_append_left _ (List.mem_append_left _ hmem))
    have hgoal : descend e' (down ++ [n] ++ more) = descend (n :: descend e' down) more := by
      rw [Tree.descend_append, Tree.descend_append, Tree.descend_name hnames.isName]
      rfl
    have hd : d = descend e' down := by
      refine hdown.eq_descend hup fun loc target hin hway hnode => ?_
      refine hfree loc target hin (hway.trans ?_) (hlink loc target hnode)
      rw [hgoal]
      exact (List.suffix_cons n _).trans (Tree.suffix_descend _ _)
    rw [hgoal, hd]
    exact Tree.suffix_descend _ _

/-- **Making the directory** makes those on the way to it. -/
theorem Charted.makeFolders : Jots S t (t.makeFolders cwd dir.root).1 := by
  have hadds := Tree.adds_makeFolders t cwd dir.root
  have hway : ∀ loc, t.node? loc = none → (t.makeFolders cwd dir.root).1.node? loc ≠ none →
      loc <:+ S := by
    intro loc hnone hsome
    obtain ⟨q, hq, d, n, rfl, hnames⟩ := Tree.named_of_makeFirst _ hnone hsome
    obtain ⟨hstart, hbegin⟩ := Tree.prefix_of_mem_ancestors cwd dir.root _ q hq
    exact h.on_way hadds.keeps (fun loc target hlink => hadds.node?_of_some hlink (by simp)) hstart
      hbegin hnames hnone
  refine ⟨fun loc => ?_, fun id hid => ?_, fun _ _ => by rw [hadds.pool]⟩
  · cases hnode : t.node? loc with
    | some node => exact .inl (hadds.within loc node hnode)
    | none =>
      rcases hadds.new loc hnode with hnone | hfolder
      · exact .inl hnone
      · exact .inr (.inr ⟨rfl, hfolder, hway loc hnode (by rw [hfolder]; simp)⟩)
  · obtain ⟨n, hn, hnode⟩ := hid
    exact ⟨n, hn, hadds.node?_of_some hnode (by simp)⟩

/-! ## What the directory is used for -/

theorem Charted.makeFolders_eq {made : Tree} {r : Except Fault Unit}
    (hmakes : t.makeFolders cwd dir.root = (made, r)) : Jots S t made := by
  have hjots := h.makeFolders
  rwa [hmakes] at hjots

/-- **Replacing a file**, as far as it comes. -/
theorem Charted.replace (hname : name ∈ fileNames)
    (htemp : temporary name ∈ fileNames) (hne : temporary name ≠ name) (bytes : ByteArray) :
    Jots S t (dir.replace cwd name bytes t).1 := by
  unfold StateDir.replace
  split
  · rename_i made f hmakes
    exact h.makeFolders_eq hmakes
  · rename_i made hmakes
    have hmade := h.makeFolders_eq hmakes
    split
    · exact hmade
    · rename_i written hwrite
      obtain ⟨hwritten, hno⟩ := (h.jots hmade).write htemp hwrite
      have hjots := hmade.trans hwritten
      split
      · exact hjots
      · split
        · exact hjots
        · rename_i renamed hrename
          exact hjots.trans ((h.jots hjots).rename htemp hname hne hno hrename)

theorem Charted.recordFinished (entry : Finished) :
    Jots S t (dir.recordFinished cwd entry t).1 := by
  unfold StateDir.recordFinished
  dsimp only
  split
  · exact h.replace (by decide) (by decide) (by decide) _
  · split
    · rename_i made f hmakes
      exact h.makeFolders_eq hmakes
    · rename_i made hmakes
      have hmade := h.makeFolders_eq hmakes
      split
      · exact hmade
      · rename_i added hadd
        exact hmade.trans ((h.jots hmade).append (by decide) hadd)

theorem Charted.clearCurrent : Jots S t (dir.clearCurrent cwd t) := by
  unfold StateDir.clearCurrent
  split
  · rename_i removed hremove
    exact h.removeFile (by decide) hremove
  · exact .refl S t

end Charted

end StateDir

/-- **A recorder jots**, whatever it is told and whatever comes of it. -/
theorem Recorder.jots_notify {r : Recorder} {S place : Loc} {t : Tree}
    (h : r.dir.Charted r.cwd S place t) (e : Event) (c : Current) :
    StateDir.Jots S t (r.notify e c t).2 := by
  cases e with
  | complete outcome invocations =>
    have hrecorded := h.recordFinished (r.entry c outcome invocations)
    exact hrecorded.trans (h.jots hrecorded).clearCurrent
  | _ => exact h.replace (by decide) (by decide) (by decide) _

end Concolic
