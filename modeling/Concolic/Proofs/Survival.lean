import Concolic.Proofs.Confined
import Concolic.Proofs.Handles

/-
  Locks and resets.

  If the path of a directory has a last component, the lock file is a sibling of the directory and
  is spared.  If it has none, as in `.` or `a/..`, the lock file goes into the directory itself, and
  the reset takes it away together with all else.
-/

namespace Concolic

namespace Path

theorem IsDescent.fileName? {p : String} (h : IsDescent p) : ∃ stem, fileName? p = some stem := by
  cases hname : Path.fileName? p with
  | some stem => exact ⟨stem, rfl⟩
  | none =>
    exfalso
    rcases steps_of_no_fileName hname with hdots | ⟨init, after, hsteps, -⟩
    · obtain ⟨step, hstep, hreal⟩ := h.real
      exact hreal (hdots step hstep)
    · exact h.no_up (by simp [hsteps])

end Path

namespace Tree

variable {t : Tree} {cwd d e place : Loc} {p q name stem : String}

/-! ## Ways down, without links -/

theorem LinkFree.scan_eq (h : t.LinkFree) (follow : Bool)
    (jump jump' : Loc → List String → Bool → Except Fault Arrival) (slash : Bool) :
    ∀ (ss : List String) (d : Loc),
      t.scan follow jump slash d ss = t.scan false jump' slash d ss := by
  intro ss
  induction ss with
  | nil => intro d; rfl
  | cons name rest ih =>
    intro d
    rw [scan, scan]
    simp only [ih]
    cases hnode : t.node? (name :: d) with
    | none => rfl
    | some node =>
      cases node with
      | link target => exact absurd hnode (h _ _)
      | _ => rfl

theorem LinkFree.walk_eq (h : t.LinkFree) (creating : Bool) (links : Nat) (follow : Bool) (d : Loc)
    (ss : List String) (slash : Bool) :
    t.walk creating links follow d ss slash = t.walk creating links false d ss slash := by
  rw [walk_eq_scan, walk_eq_scan]
  exact h.scan_eq follow _ _ slash ss d

theorem LinkFree.resolve_eq (h : t.LinkFree) (cwd : Loc) (follow : Bool) (p : String) :
    t.resolve cwd follow p = t.resolve cwd false p := by
  rw [resolve, resolve]
  simp only [h.walk_eq false maxLinks follow]

theorem LinkFree.place? {n : Nat} (h : t.LinkFree) (hplace : t.place? cwd p = some place)
    (hstem : Path.fileName? p = some stem) (hparent : Path.parent? p = some q)
    (hlead : Leads t (start cwd q) (Path.route q).steps d n) : place = stem :: d := by
  obtain ⟨⟨spot, slash⟩, hres, rfl⟩ := place?_eq_some hplace
  rw [h.resolve_eq] at hres
  cases spot with
  | here e =>
    rw [resolve_of_text (text_of_resolve hres)] at hres
    obtain ⟨-, m, -, hend⟩ := endsAt_of_walk _ _ _ _ hres
    exact Leads.eq_fileName hend hstem hparent hlead (h _)
  | entry e name =>
    obtain ⟨rfl, rfl⟩ := (names_of_resolve hres).1.eq_fileName hstem hparent hlead
    rfl

theorem LinkFree.leads_without (h : t.LinkFree) {ss : List String} {n : Nat}
    (hlead : Leads t d ss e n)
    (hup : ".." ∉ ss) (hout : ¬ place <:+ e) : d <:+ e ∧ Leads (t.without place) d ss e n := by
  -- what the end is inside of is kept
  have hkept : ∀ {loc : Loc}, loc <:+ e → t.isFolderAt loc = true →
      (t.without place).isFolderAt loc = true := by
    intro loc hloc hfolder
    rw [isFolderAt, node?_without t fun hin => hout (hin.trans hloc)]
    exact hfolder
  induction hlead with
  | nil d => exact ⟨List.suffix_refl d, .nil d⟩
  | stay hd _ ih =>
    obtain ⟨hsuffix, hrest⟩ := ih (List.not_mem_of_not_mem_cons hup) hout hkept
    exact ⟨hsuffix, .stay (hkept hsuffix hd) hrest⟩
  | up => exact absurd List.mem_cons_self hup
  | @into d e' last ss n hd hname he _ ih =>
    obtain ⟨hsuffix, hrest⟩ := ih (List.not_mem_of_not_mem_cons hup) hout hkept
    have hd' := (List.suffix_cons last d).trans hsuffix
    exact ⟨hd', .into (hkept hd' hd) hname (hkept hsuffix he) hrest⟩
  | through _ _ hlink => exact absurd hlink (h _ _)

theorem LinkFree.names_without (h : t.LinkFree) (hnames : Names t cwd (Path.join q name) d name)
    (hplain : Path.IsPlain name) (hup : ".." ∉ (Path.route q).steps) (hout : ¬ place <:+ d) :
    Names (t.without place) cwd (Path.join q name) d name := by
  obtain ⟨hfolder, ⟨n, hn, hlead⟩, -⟩ := hnames.parent hplain
  obtain ⟨-, hway⟩ := h.leads_without hlead hup hout
  refine ⟨hnames.text, ?_, hnames.isName, (Path.route q).steps, ?_, n, hn, ?_⟩
  · rw [isFolderAt, node?_without t hout]
    exact hfolder
  · rw [Path.route_join q hplain]
  · rw [start, Path.isAbsolute_join q hplain]
    exact hway

end Tree

namespace Lock

open Concolic.Tree (Beside LinkFree Names SameOutside)

variable {h : Host} {t held : Tree} {lock : Lock} {workDir stem name : String} {cwd d place : Loc}

/-! ## What a reset takes away -/

/-- The reset of a directory takes away what is at `loc`: its path leads to a directory above. -/
def ResetTakes (cwd : Loc) (workDir : String) (t : Tree) (loc : Loc) : Prop :=
  ∃ e, t.lookup cwd false workDir = .ok e ∧ t.node? e = some .folder ∧ Tree.isBelow e loc = true

theorem node?_removeAll_file {p : String} {loc : Loc} {b : Blob}
    (hfile : t.node? loc = some (.file b)) :
    (t.removeAll cwd p).1.node? loc = some (.file b) ↔ ¬ ResetTakes cwd p t loc := by
  have htakes : ∀ {e : Loc}, t.lookup cwd false p = .ok e → t.node? e = some .folder →
      (ResetTakes cwd p t loc ↔ Tree.isBelow e loc = true) := by
    intro e hfind hfolder
    refine ⟨fun htakes => ?_, fun hbelow => ⟨e, hfind, hfolder, hbelow⟩⟩
    obtain ⟨e', hfind', -, hbelow⟩ := htakes
    rw [hfind] at hfind'
    cases hfind'
    exact hbelow
  have hcleared : ∀ e, (t.clear e).node? loc = some (.file b) ↔ ¬ Tree.isBelow e loc = true := by
    intro e
    rw [Tree.node?_clear]
    split <;> simp_all
  cases Tree.removal t cwd p with
  | nothing hleft hnot =>
    rw [hleft]
    refine ⟨fun _ htakes => ?_, fun _ => hfile⟩
    obtain ⟨e, hfind, hfolder, -⟩ := htakes
    exact hnot e hfind hfolder
  | @link e target hleft hfind hlink =>
    have hne : loc ≠ e := by
      rintro rfl
      rw [hfile] at hlink
      cases hlink
    rw [hleft, Tree.node?_erase_ne t hne]
    refine ⟨fun _ htakes => ?_, fun _ => hfile⟩
    obtain ⟨e', hfind', hfolder, -⟩ := htakes
    rw [hfind] at hfind'
    cases hfind'
    rw [hlink] at hfolder
    cases hfolder
  | contents hleft hfind hfolder => rw [hleft, htakes hfind hfolder, hcleared]
  | @folder e hleft hfind hfolder =>
    have hne : loc ≠ e := by
      rintro rfl
      rw [hfile] at hfolder
      cases hfolder
    rw [hleft, Tree.node?_erase_ne _ hne, htakes hfind hfolder, hcleared]

/-- **A reset spares a file** unless its path leads to a directory above it. -/
theorem node?_reset_file {loc : Loc} {b : Blob} (hfile : t.node? loc = some (.file b)) :
    ((Workspace.mk workDir).reset cwd t).1.node? loc = some (.file b) ↔
      ¬ ResetTakes cwd workDir t loc := by
  have hadds := Tree.adds_makeFolders (t.removeAll cwd workDir).1 cwd workDir
  rw [Workspace.fst_reset, ← node?_removeAll_file hfile]
  exact ⟨fun hnode => hadds.node?_of_some hnode (by simp), fun hnode => hadds.within _ _ hnode⟩

/-! ## The lock file of the directory -/

theorem pathFor_of_fileName {q : String} (hstem : Path.fileName? workDir = some stem)
    (hparent : Path.parent? workDir = some q) :
    pathFor workDir = Path.join q (stem ++ ".lock") := by
  rw [pathFor, Path.withFileName, hstem, hparent]
  rfl

theorem pathFor_of_no_fileName (hstem : Path.fileName? workDir = none) :
    pathFor workDir = Path.join workDir "workspace.lock" := by
  rw [pathFor, Path.withFileName, hstem]
  rfl

theorem name_of_join {p nm : String} (hnames : Names t cwd (Path.join p nm) d name)
    (hplain : Path.IsPlain nm) : name = nm := by
  obtain ⟨init, hsteps, -⟩ := hnames.way
  rw [Path.route_join p hplain] at hsteps
  simpa using (List.append_inj' hsteps rfl).2.symm

/-- The lock file of a path without a last component is in the directory itself, and
    goes with it. -/
theorem resetTakes_of_no_fileName (hnames : Names held h.cwd (pathFor workDir) d name)
    (hunsealed : held.node? d ≠ some .sealed) (hne : workDir ≠ "")
    (hstem : Path.fileName? workDir = none) : ResetTakes h.cwd workDir held (name :: d) := by
  have hplain : Path.IsPlain "workspace.lock" := ⟨by decide, by decide⟩
  rw [pathFor_of_no_fileName hstem] at hnames
  obtain rfl := name_of_join hnames hplain
  obtain ⟨hd, -, hempty | hreach⟩ := hnames.parent hplain
  · exact absurd hempty hne
  · have hfolder : held.node? d = some .folder := by
      obtain ⟨node, hnode, hisFolder⟩ := Tree.isFolderAt_iff.mp hd
      cases node with
      | folder => exact hnode
      | «sealed» => exact absurd hnode hunsealed
      | _ => cases hisFolder
    rcases hreach.lookup_entry with hfind | ⟨-, d₀, last, target, hlast, -⟩
    · exact ⟨d, hfind, hfolder, Tree.isBelow_cons _ (List.suffix_refl d)⟩
    · -- a link at the end would be a last component
      obtain ⟨init, hsteps, -⟩ := hlast.way
      rcases Path.last_step_of_no_fileName hstem hsteps with rfl | rfl
      · exact absurd rfl hlast.isName.ne_dot
      · exact absurd rfl hlast.isName.ne_up

/-- The lock file of a path with a last component is beside it and is spared, unless the component
    is a link that leads to a directory above. -/
theorem not_resetTakes_of_fileName (hnames : Names held h.cwd (pathFor workDir) d name)
    (hstem : Path.fileName? workDir = some stem)
    (hlink : ∀ target, held.node? (stem :: d) ≠ some (.link target)) :
    ¬ ResetTakes h.cwd workDir held (name :: d) := by
  rintro ⟨e, hfind, hfolder, hbelow⟩
  obtain ⟨q, -, -, hparent, -⟩ := Path.route_fileName hstem
  have hplain := isPlain_lock (Path.no_slash_of_fileName? hstem)
  rw [pathFor_of_fileName hstem hparent] at hnames
  obtain rfl := name_of_join hnames hplain
  obtain ⟨-, ⟨n, -, hlead⟩, -⟩ := hnames.parent hplain
  have hreach := Tree.reaches_of_lookup_entry hfind (by rw [Tree.isFolderAt, hfolder]; rfl)
  obtain ⟨m, -, hway⟩ := hreach.way
  obtain rfl := hway.eq_fileName hstem hparent hlead hlink
  -- a sibling is not inside
  simp only [Tree.isBelow, Bool.and_eq_true, decide_eq_true_eq] at hbelow
  exact hbelow.2 (hbelow.1.eq_of_length rfl)

/-! ## Who wants the lock after the reset -/

/-- The path of the lock leads to its file without going through the directory, which is not above
    it. -/
structure Apart (h : Host) (workDir : String) (t : Tree) (place d : Loc) (name : String) :
    Prop where
  names : (t.without place).Names h.cwd (pathFor workDir) d name
  outside : ¬ place <:+ name :: d

theorem Apart.beside (ha : Apart h workDir t place d name)
    (hstem : Path.fileName? workDir = some stem) : ∃ q, Beside t h.cwd workDir q d place := by
  obtain ⟨q, -, -, hparent, -⟩ := Path.route_fileName hstem
  have hplain := isPlain_lock (Path.no_slash_of_fileName? hstem)
  have hnames := ha.names
  rw [pathFor_of_fileName hstem hparent] at hnames
  obtain rfl := name_of_join hnames hplain
  obtain ⟨hfolder, hway, htext⟩ := hnames.parent hplain
  exact ⟨q, hparent, hway, hfolder, htext.imp_right (·.text),
    fun hin => ha.outside (hin.trans (List.suffix_cons _ d))⟩

theorem Apart.sameOutside_reset (ha : Apart h workDir t place d name) (hform : t.WellFormed)
    (hstem : Path.fileName? workDir = some stem) (hplace : t.place? h.cwd workDir = some place) :
    SameOutside place t ((Workspace.mk workDir).reset h.cwd t).1 := by
  obtain ⟨q, hup⟩ := ha.beside hstem
  exact Workspace.sameOutside_reset hform hplace hup

theorem Owns.reset_unplaced (ho : Owns h t lock d name) (hpath : lock.path = pathFor workDir)
    (hstem : Path.fileName? workDir = some stem) (hplace : t.place? h.cwd workDir = none) :
    ∃ cause, (Workspace.mk workDir).reset h.cwd t = (t, .error cause) := by
  obtain ⟨q, -, -, hparent, -⟩ := Path.route_fileName hstem
  have hplain := isPlain_lock (Path.no_slash_of_fileName? hstem)
  have hnames := ho.names
  rw [hpath, pathFor_of_fileName hstem hparent] at hnames
  obtain rfl := name_of_join hnames hplain
  have hne : workDir ≠ "" := by
    rintro rfl
    exact absurd (show Path.fileName? "" = none by decide) (by rw [hstem]; simp)
  exact Workspace.reset_unplaced hplace hne hparent
    ((hnames.parent hplain).2.2.imp_right fun hreach => ⟨d, hreach⟩)

theorem Owns.reset (ho : Owns h held lock d name) (hpath : lock.path = pathFor workDir)
    (hform : held.WellFormed) (hstem : Path.fileName? workDir = some stem)
    (hapart : ∀ place, held.place? h.cwd workDir = some place → Apart h workDir held place d name) :
    Owns h ((Workspace.mk workDir).reset h.cwd held).1 lock d name := by
  cases hplace : held.place? h.cwd workDir with
  | some place =>
    have ha := hapart place hplace
    have hsame := ha.sameOutside_reset hform hstem hplace
    exact ⟨hpath ▸ ha.names.mono hsame.keeps_without, ho.slash,
      (hsame _ ha.outside).trans ho.file⟩
  | none =>
    obtain ⟨cause, hreset⟩ := ho.reset_unplaced hpath hstem hplace
    rw [hreset]
    exact ho

theorem Owns.refuses (ho : Owns h t lock d name) (hpath : lock.path = pathFor workDir) :
    acquire h workDir t = (t, .error (.workspaceLocked workDir h.pid)) :=
  acquire_of_owned (prepare_of_names (hpath ▸ ho.names)) (hpath ▸ ho.names) ho.file (isAlive_self h)

/-- The lock of a path that goes down is apart from what is beside it, if there are no links. -/
theorem apart_of_names (hnames : Names held h.cwd (pathFor workDir) d name) (hfree : held.LinkFree)
    (hdown : Path.IsDescent workDir) (hstem : Path.fileName? workDir = some stem) :
    Apart h workDir held (stem :: d) d name := by
  obtain ⟨q, before, after, hparent, habs, hsteps, -⟩ := Path.route_fileName hstem
  have hplain := isPlain_lock (Path.no_slash_of_fileName? hstem)
  have hjoin := pathFor_of_fileName hstem hparent
  have hname : name = stem ++ ".lock" := name_of_join (hjoin ▸ hnames) hplain
  subst hname
  have hup : ".." ∉ (Path.route q).steps := fun hmem =>
    hdown.no_up (hsteps ▸ List.mem_append_left _ hmem)
  have hout : ¬ stem :: d <:+ d := fun hin => by
    have := hin.length_le
    simp only [List.length_cons] at this
    omega
  refine ⟨?_, fun hin => ?_⟩
  · rw [hjoin] at hnames ⊢
    exact hfree.names_without hnames hplain hup hout
  · -- the names differ
    have heq : stem = stem ++ ".lock" := (List.cons.inj (hin.eq_of_length rfl)).1
    have hlength := congrArg (fun s : String => s.toList.length) heq
    simp at hlength

theorem apart_of_descent (hnames : Names held h.cwd (pathFor workDir) d name)
    (hfree : held.LinkFree)
    (hdown : Path.IsDescent workDir) (hplace : held.place? h.cwd workDir = some place) :
    Apart h workDir held place d name := by
  obtain ⟨stem, hstem⟩ := hdown.fileName?
  obtain ⟨q, -, -, hparent, -⟩ := Path.route_fileName hstem
  have hplain := isPlain_lock (Path.no_slash_of_fileName? hstem)
  have hjoin := pathFor_of_fileName hstem hparent
  have hname : name = stem ++ ".lock" := name_of_join (hjoin ▸ hnames) hplain
  obtain ⟨-, ⟨n, -, hlead⟩, -⟩ := Names.parent (hname ▸ hjoin ▸ hnames) hplain
  obtain rfl := hfree.place? hplace hstem hparent hlead
  exact apart_of_names hnames hfree hdown hstem

/-! ## The lock and the reset -/

/-- What becomes of the lock of a directory when the directory is made anew. -/
structure AfterReset (h : Host) (workDir : String) (held : Tree) (lock : Lock) (d : Loc)
    (name : String) : Prop where
  /-- While the lock is held, its file is there. -/
  owns : Owns h held lock d name
  /-- It is still there after the reset, with what is in it, unless the path of the directory leads
      to one above it. -/
  spared : ((Workspace.mk workDir).reset h.cwd held).1.node? (name :: d) =
    some (.file (ownerBlob h.pid)) ↔ ¬ ResetTakes h.cwd workDir held (name :: d)
  /-- It goes if the path has no last component. -/
  lost : workDir ≠ "" → Path.fileName? workDir = none → ResetTakes h.cwd workDir held (name :: d)
  /-- It stays if the path has one that is no link. -/
  kept : ∀ stem, Path.fileName? workDir = some stem →
    (∀ target, held.node? (stem :: d) ≠ some (.link target)) →
    ¬ ResetTakes h.cwd workDir held (name :: d)
  /-- As long as its path leads to the file, the lock is refused. -/
  refuses : Owns h ((Workspace.mk workDir).reset h.cwd held).1 lock d name →
    acquire h workDir ((Workspace.mk workDir).reset h.cwd held).1 =
      (((Workspace.mk workDir).reset h.cwd held).1, .error (.workspaceLocked workDir h.pid))
  /-- That is so if the path to the file does not go through the directory. -/
  apart : ∀ stem, Path.fileName? workDir = some stem →
    (∀ place, held.place? h.cwd workDir = some place → Apart h workDir held place d name) →
    Owns h ((Workspace.mk workDir).reset h.cwd held).1 lock d name

/-- **A lock outlives the reset of its directory** if the path of the directory has a last
    component, and does not if it has none; without links, and for a path that goes down only,
    whoever wants the lock after the reset is refused, whether or not the reset succeeds. -/
theorem lock_after_reset (h : Host) (workDir : String) (t held : Tree) (lock : Lock)
    (hform : t.WellFormed) (hacquire : acquire h workDir t = (held, .ok lock)) :
    (∃ d name, AfterReset h workDir held lock d name) ∧
      (t.LinkFree → Path.IsDescent workDir →
        acquire h workDir ((Workspace.mk workDir).reset h.cwd held).1 =
          (((Workspace.mk workDir).reset h.cwd held).1,
            .error (.workspaceLocked workDir h.pid))) := by
  obtain ⟨d, name, htakes⟩ := acquire_eq_ok hacquire
  have hpath := path_of_acquire hacquire
  have hheld := wellFormed_acquire hform hacquire
  have ho : Owns h held lock d name :=
    ⟨hpath ▸ htakes.names, hpath ▸ slash_pathFor workDir, htakes.file⟩
  refine ⟨⟨d, name, ho, node?_reset_file htakes.file,
    fun hne hstem => resetTakes_of_no_fileName htakes.names htakes.unsealed hne hstem,
    fun stem hstem hlink => not_resetTakes_of_fileName htakes.names hstem hlink,
    fun ho' => ho'.refuses hpath, fun stem hstem hapart => ho.reset hpath hheld hstem hapart⟩, ?_⟩
  intro hfree hdown
  have hlinks : held.LinkFree := (spares_taken [] hfree htakes).1.linkFree
  obtain ⟨stem, hstem⟩ := hdown.fileName?
  exact (ho.reset hpath hheld hstem fun place hplace =>
    apart_of_descent htakes.names hlinks hdown hplace).refuses hpath

/-- A directory with something in it. -/
def usedTree : Tree :=
  ((Tree.empty.put ["s"] .folder).put ["w", "s"] .folder).put ["old", "w", "s"] .folder

/-- A process in the directory `s`. -/
def innerHost : Host := ⟨["s"], 7, fun _ => false⟩

theorem wellFormed_usedTree : usedTree.WellFormed :=
  Tree.wellFormed_of_entries (by decide +kernel)

theorem linkFree_usedTree : usedTree.LinkFree :=
  Tree.linkFree_of_entries (by decide +kernel)

theorem acquire_of_toOption (hlock : (acquire h workDir t).2.toOption = some lock) :
    acquire h workDir t = ((acquire h workDir t).1, .ok lock) := by
  cases hacquire : acquire h workDir t with
  | mk held r =>
    rw [hacquire] at hlock
    cases r with
    | error cause => cases hlock
    | ok lock' =>
      cases hlock
      rfl

theorem usedTree_lock_after_reset : ∃ held lock,
    acquire innerHost "w" usedTree = (held, .ok lock) ∧
      (∃ d name, AfterReset innerHost "w" held lock d name) ∧
      ((Workspace.mk "w").reset ["s"] held).1.node? ["old", "w", "s"] = none ∧
      (acquire innerHost "w" ((Workspace.mk "w").reset ["s"] held).1).2 =
        .error (.workspaceLocked "w" 7) := by
  have hacquire := acquire_of_toOption
    (show (acquire innerHost "w" usedTree).2.toOption = some ⟨"w.lock"⟩ by decide +kernel)
  obtain ⟨hafter, hrefused⟩ := lock_after_reset innerHost "w" usedTree _ _
    wellFormed_usedTree hacquire
  refine ⟨_, _, hacquire, hafter, by decide +kernel, ?_⟩
  exact congrArg Prod.snd (hrefused linkFree_usedTree ⟨⟨"w", by decide, by decide⟩, by decide⟩)

/-- **The lock of `.` does not outlive the reset**: it is in the directory, and after the reset the
    same process takes it a second time. -/
theorem dot_lock_taken_twice : ∃ held again,
    acquire innerHost "." usedTree = (held, .ok ⟨"./workspace.lock"⟩) ∧
      held.node? ["workspace.lock", "s"] = some (.file (ownerBlob 7)) ∧
      ((Workspace.mk ".").reset ["s"] held).1.node? ["workspace.lock", "s"] = none ∧
      acquire innerHost "." ((Workspace.mk ".").reset ["s"] held).1 =
        (again, .ok ⟨"./workspace.lock"⟩) := by
  exact ⟨_, _, acquire_of_toOption (by decide +kernel), by decide +kernel, by decide +kernel,
    acquire_of_toOption (by decide +kernel)⟩

end Lock

end Concolic
