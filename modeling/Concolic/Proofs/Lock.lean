import Concolic.Lock
import Concolic.Proofs.Decimal
import Concolic.Proofs.Tree.WellFormed

/-
  The lock file as an entry of the tree.
-/

namespace Concolic

namespace Text

/-! ## Blanks -/

theorem trim_of_no_blank {cs : List Char} (h : ∀ c ∈ cs, isBlank c = false) : trim cs = cs := by
  have hdrop : ∀ ds : List Char, (∀ c ∈ ds, isBlank c = false) → ds.dropWhile isBlank = ds := by
    intro ds hds
    cases ds with
    | nil => rfl
    | cons c ds => simp [hds c (by simp)]
  rw [trim, hdrop cs h, hdrop cs.reverse (by simpa using h), List.reverse_reverse]

theorem isBlank_of_isDigit {c : Char} (h : c.isDigit = true) : isBlank c = false := by
  have hbounds : 48 ≤ c.toNat ∧ c.toNat ≤ 57 := by
    rw [Char.isDigit, Bool.and_eq_true, decide_eq_true_eq, decide_eq_true_eq] at h
    exact ⟨UInt32.le_iff_toNat_le.mp h.1, UInt32.le_iff_toNat_le.mp h.2⟩
  have hranges : ∀ n, 48 ≤ n → n ≤ 57 →
      (blankRanges.any fun r => decide (r.1 ≤ n) && decide (n ≤ r.2)) = false := by
    intro n hlo hhi
    simp [blankRanges]
    omega
  exact hranges c.toNat hbounds.1 hbounds.2

end Text

namespace Lock

open Concolic.Tree (Names)

variable {h : Host} {t t' : Tree} {path workDir : String}

/-! ## Creating the file -/

theorem create_of_newLoc {loc : Loc} (hloc : t.newLoc h.cwd path false = .ok loc) :
    create h t path = ((t.put loc (.file Blob.empty)).put loc
      (.file ⟨(ownerText h.pid).toUTF8, false⟩), .ok ()) := by
  obtain ⟨d, name, rfl, -⟩ := Tree.names_of_newLoc hloc
  have hnew : t.createNew h.cwd path = .ok (name :: d, t.put (name :: d) (.file Blob.empty)) := by
    rw [Tree.createNew, hloc]
    rfl
  rw [create, hnew]
  dsimp only
  rw [Tree.extend_put_empty t (List.cons_ne_nil name d)]

theorem create_of_no_newLoc {f : Fault} (hloc : t.newLoc h.cwd path false = .error f) :
    create h t path = (t, .error f) := by
  have hnew : t.createNew h.cwd path = .error f := by
    rw [Tree.createNew, hloc]
    rfl
  rw [create, hnew]

/-- **The file is created or the tree is as it was**: no lock file is left half written. -/
theorem create_cases (h : Host) (t : Tree) (path : String) :
    (∃ t', create h t path = (t', .ok ())) ∨ ∃ f, create h t path = (t, .error f) := by
  cases hloc : t.newLoc h.cwd path false with
  | ok loc => exact .inl ⟨_, create_of_newLoc hloc⟩
  | error f => exact .inr ⟨f, create_of_no_newLoc hloc⟩

theorem create_eq_ok (hcreate : create h t path = (t', .ok ())) :
    ∃ d name, Names t h.cwd path d name ∧ t.node? (name :: d) = none ∧ t.node? d ≠ some .sealed ∧
      t' = (t.put (name :: d) (.file Blob.empty)).put (name :: d)
        (.file ⟨(ownerText h.pid).toUTF8, false⟩) := by
  cases hloc : t.newLoc h.cwd path false with
  | error f =>
    rw [create_of_no_newLoc hloc] at hcreate
    cases hcreate
  | ok loc =>
    rw [create_of_newLoc hloc] at hcreate
    obtain ⟨d, name, rfl, hnames, hnone, hseal, -⟩ := Tree.names_of_newLoc hloc
    exact ⟨d, name, hnames, hnone, hseal, (congrArg Prod.fst hcreate).symm⟩

theorem discard_cases (h : Host) (t : Tree) (path : String) :
    discard h t path = t ∨ ∃ d name node, Names t h.cwd path d name ∧
      t.node? (name :: d) = some node ∧ node.isFolder = false ∧
      discard h t path = t.erase (name :: d) := by
  rw [discard]
  cases hremove : t.removeFile h.cwd path with
  | error f => exact .inl rfl
  | ok t' =>
    obtain ⟨d, name, node, hnames, hnode, hfolder, -, rfl⟩ := Tree.removeFile_eq_ok hremove
    exact .inr ⟨d, name, node, hnames, hnode, hfolder, rfl⟩

/-! ## How taking a lock goes -/

/-- The five ends of an attempt to take a lock whose directory is there. -/
inductive Seizes (h : Host) (workDir path : String) (t : Tree) :
    Tree × Except Failure Lock → Prop where
  | free {t' : Tree} (hcreate : create h t path = (t', .ok ())) :
      Seizes h workDir path t (t', .ok ⟨path⟩)
  | blocked {f : Fault} (hcreate : create h t path = (t, .error f))
      (hkind : f.kind ≠ .alreadyExists) : Seizes h workDir path t (t, .error (.io f))
  | owned {f : Fault} {pid : UInt32} (hcreate : create h t path = (t, .error f))
      (hkind : f.kind = .alreadyExists) (howner : liveOwner h t path = some pid) :
      Seizes h workDir path t (t, .error (.workspaceLocked workDir pid))
  | stale {f : Fault} {t' : Tree} (hcreate : create h t path = (t, .error f))
      (howner : liveOwner h t path = none)
      (hagain : create h (discard h t path) path = (t', .ok ())) :
      Seizes h workDir path t (t', .ok ⟨path⟩)
  | lost {f : Fault} (howner : liveOwner h t path = none)
      (hagain : create h (discard h t path) path = (discard h t path, .error f)) :
      Seizes h workDir path t (discard h t path, .error (.io f))

theorem seizes {ended : Tree × Except Failure Lock} (hseize : seize h workDir path t = ended) :
    Seizes h workDir path t ended := by
  rw [← hseize, seize]
  rcases create_cases h t path with ⟨t', hcreate⟩ | ⟨f, hcreate⟩
  · rw [hcreate]
    exact .free hcreate
  · rw [hcreate]
    dsimp only
    by_cases hkind : f.kind ≠ .alreadyExists
    · rw [if_pos hkind]
      exact .blocked hcreate hkind
    · rw [if_neg hkind]
      cases howner : liveOwner h t path with
      | some pid => exact .owned hcreate (Classical.not_not.mp hkind) howner
      | none =>
        dsimp only
        rcases create_cases h (discard h t path) path with ⟨t', hagain⟩ | ⟨f', hagain⟩
        · rw [hagain]
          exact .stale hcreate howner hagain
        · rw [hagain]
          exact .lost howner hagain

theorem acquire_of_prepared (hprepare : prepare h t (pathFor workDir) = (t', .ok ())) :
    acquire h workDir t = seize h workDir (pathFor workDir) t' := by
  -- the equation of `acquire` would be proved by evaluating `prepare`
  delta acquire
  rw [hprepare]

theorem acquire_of_unprepared {cause : Failure}
    (hprepare : prepare h t (pathFor workDir) = (t', .error cause)) :
    acquire h workDir t = (t', .error cause) := by
  delta acquire
  rw [hprepare]

/-- A lock that is taken is taken once its directory is there. -/
theorem seizes_of_acquire {held : Tree} {lock : Lock}
    (hacquire : acquire h workDir t = (held, .ok lock)) :
    ∃ made, prepare h t (pathFor workDir) = (made, .ok ()) ∧
      Seizes h workDir (pathFor workDir) made (held, .ok lock) := by
  rcases hprepare : prepare h t (pathFor workDir) with ⟨made, r⟩
  cases r with
  | error e =>
    rw [acquire_of_unprepared hprepare] at hacquire
    cases hacquire
  | ok =>
    rw [acquire_of_prepared hprepare] at hacquire
    exact ⟨made, rfl, seizes hacquire⟩

/-! ## Well-formed trees stay so -/

theorem wellFormed_create (hform : t.WellFormed) (hcreate : create h t path = (t', .ok ())) :
    t'.WellFormed := by
  obtain ⟨d, name, hnames, hnone, hseal, rfl⟩ := create_eq_ok hcreate
  exact (hform.put_new hnames.folder hseal hnone _).put_file (Tree.node?_put_self t (by simp) _) _

theorem wellFormed_discard (hform : t.WellFormed) : (discard h t path).WellFormed := by
  rw [discard]
  split
  · rename_i t' hremove
    exact hform.removeFile hremove
  · exact hform

theorem wellFormed_prepare (hform : t.WellFormed) (h : Host) (path : String) :
    (prepare h t path).1.WellFormed := by
  unfold prepare
  split
  · exact hform
  · rename_i dir _
    split
    · exact hform
    · have hmade := hform.makeFirst h.cwd (Tree.ancestors (dir.length + 1) dir)
      rw [← Tree.makeFolders] at hmade
      split
      · rename_i made heq
        rw [heq] at hmade
        exact hmade
      · rename_i made f heq
        rw [heq] at hmade
        exact hmade

theorem wellFormed_acquire {r : Except Failure Lock} (hform : t.WellFormed)
    (hacquire : acquire h workDir t = (t', r)) : t'.WellFormed := by
  rw [show t' = (acquire h workDir t).1 by rw [hacquire]]
  have hmade := wellFormed_prepare hform h (pathFor workDir)
  rcases hprepare : prepare h t (pathFor workDir) with ⟨made, r⟩
  rw [hprepare] at hmade
  cases r with
  | error e =>
    rw [acquire_of_unprepared hprepare]
    exact hmade
  | ok =>
    rw [acquire_of_prepared hprepare]
    generalize hseize : seize h workDir (pathFor workDir) made = ended
    cases seizes hseize with
    | free hcreate => exact wellFormed_create hmade hcreate
    | blocked _ _ => exact hmade
    | owned _ _ _ => exact hmade
    | stale _ _ hagain => exact wellFormed_create (wellFormed_discard hmade) hagain
    | lost _ _ => exact wellFormed_discard hmade

/-! ## The owner -/

theorem ownerOf?_ownerText (pid : UInt32) : ownerOf? (ownerText pid) = some pid := by
  have hdigit : ∀ c ∈ Nat.toDigits 10 pid.toNat, c.isDigit = true := fun c hc =>
    Nat.isDigit_of_mem_toDigits (by omega) (by omega) hc
  have hunsigned : Text.unsigned? Text.limit32 (Nat.toDigits 10 pid.toNat) = some pid.toNat := by
    unfold Text.unsigned?
    split
    · -- no number begins with a sign
      rename_i rest hsign
      exact absurd (hdigit '+' (hsign ▸ by simp)) (by decide)
    · simp only [Text.ofDigits?_toDigits]
      exact if_pos (UInt32.toNat_lt pid)
  rw [ownerOf?, ownerText, Nat.toList_repr,
    Text.trim_of_no_blank fun c hc => Text.isBlank_of_isDigit (hdigit c hc), hunsigned]
  simp

theorem fromUTF8?_toUTF8 (text : String) : String.fromUTF8? text.toUTF8 = some text := by
  rw [String.fromUTF8?, dif_pos (show text.toUTF8.IsValidUTF8 from text.isValidUTF8)]
  rfl

/-! ## The name of a lock file -/

theorem path_of_acquire {held : Tree} {lock : Lock}
    (hacquire : acquire h workDir t = (held, .ok lock)) : lock.path = pathFor workDir := by
  obtain ⟨made, -, hseizes⟩ := seizes_of_acquire hacquire
  cases hseizes <;> rfl

theorem prepare_of_parent (hparent : Path.parent? path = some "") :
    prepare h t path = (t, .ok ()) := by
  unfold prepare
  rw [hparent]
  rfl

theorem acquire_of_create {made held : Tree}
    (hprepare : prepare h t (pathFor workDir) = (made, .ok ()))
    (hcreate : create h made (pathFor workDir) = (held, .ok ())) :
    acquire h workDir t = (held, .ok ⟨pathFor workDir⟩) := by
  rw [acquire_of_prepared hprepare, seize, hcreate]

theorem isPlain_lock {stem : String} (h : '/' ∉ stem.toList) : Path.IsPlain (stem ++ ".lock") := by
  constructor
  · intro hempty
    have hlength := congrArg (fun s : String => s.toList.length) hempty
    simp at hlength
  · rw [String.toList_append]
    intro hmem
    rcases List.mem_append.mp hmem with hstem | hlock
    · exact h hstem
    · exact absurd hlock (by decide)

theorem pathFor_eq_join (workDir : String) :
    ∃ dir stem, pathFor workDir = Path.join dir (stem ++ ".lock") ∧
      Path.IsPlain (stem ++ ".lock") := by
  have hplain : Path.IsPlain ((Path.fileName? workDir).getD "workspace" ++ ".lock") := by
    cases hname : Path.fileName? workDir with
    | none => exact isPlain_lock (by decide)
    | some stem => exact isPlain_lock (Path.no_slash_of_fileName? hname)
  rw [pathFor, Path.withFileName]
  split
  · exact ⟨_, _, rfl, hplain⟩
  · exact ⟨_, _, rfl, hplain⟩

theorem name_of_pathFor {cwd d : Loc} {name : String}
    (hnames : Names t cwd (pathFor workDir) d name) : ∃ stem, name = stem ++ ".lock" := by
  obtain ⟨dir, stem, hpath, hplain⟩ := pathFor_eq_join workDir
  obtain ⟨init, hsteps, -⟩ := hnames.way
  rw [hpath, Path.route_join dir hplain] at hsteps
  exact ⟨stem, by simpa using (List.append_inj' hsteps rfl).2.symm⟩

theorem pathFor_slashed {dir stem : String} (hne : workDir.toList ≠ [])
    (hname : Path.fileName? workDir = some stem) (hparent : Path.parent? workDir = some dir)
    (n : Nat) : pathFor (Path.slashed workDir n) = Path.join dir (stem ++ ".lock") := by
  rw [pathFor, Path.withFileName, Path.fileName?_slashed hne, Path.parent?_slashed hne, hname,
    hparent]
  rfl

end Lock

end Concolic
