import Concolic.Proofs.Archiving
import Concolic.Proofs.Snapshot

/-
  Copies of artifacts, in any tree.

  Nothing is half done: the destination is opened only once the source is known to be a regular
  file, and the only write that can fail after that goes to a device.  A file that is copied onto
  itself is emptied before it is read.  What can still go wrong is the text of the path: it may be
  too long.
-/

namespace Concolic

namespace Tree

variable {t t' : Tree} {cwd d loc src dst : Loc} {p name : String} {b : Blob} {n : Nat}

/-! ## Where a path comes to through links -/

/-- The place that reading and writing at a path come to, whether or not something is there.  Links
    are gone through, also at the end. -/
def landing? (t : Tree) (cwd : Loc) (p : String) : Option Loc :=
  match t.resolve cwd true p with
  | .ok a => some a.spot.loc
  | .error _ => none

theorem landing?_of_writeLoc (h : t.writeLoc cwd p = .ok loc) : t.landing? cwd p = some loc := by
  obtain ⟨d, name, rfl, hres, -⟩ := writeLoc_eq_ok h
  rw [landing?, hres]
  rfl

theorem isFolderAt_tail (ht : t.WellFormed) (hd : t.isFolderAt d = true) :
    t.isFolderAt d.tail = true := by
  cases d with
  | nil => exact hd
  | cons name up =>
    obtain ⟨node, hnode, -⟩ := isFolderAt_iff.mp hd
    exact ht.placed hnode

theorem folder_of_scan {follow slash s : Bool}
    {jump : Loc → List String → Bool → Except Fault Arrival} {e : Loc} (ht : t.WellFormed)
    (hjump : ∀ d ss b, t.isFolderAt d = true → jump d ss b = .ok ⟨.here e, s⟩ →
      t.isFolderAt e = true) (ss : List String) (d : Loc) (hd : t.isFolderAt d = true)
    (h : t.scan follow jump slash d ss = .ok ⟨.here e, s⟩) : t.isFolderAt e = true := by
  rw [scan_eq_ok_iff] at h
  induction h with
  | here ha =>
    cases ha
    exact hd
  | stay _ _ ih => exact ih hd
  | up _ _ ih => exact ih (isFolderAt_tail ht hd)
  | last _ _ _ ha => cases ha
  | into _ _ _ hin _ ih => exact ih hin
  | through hd' _ _ _ hon =>
    refine hjump _ _ _ ?_ hon
    split
    · rfl
    · exact hd'

theorem folder_of_walk {creating s : Bool} {e : Loc} (ht : t.WellFormed) :
    ∀ (links : Nat) (follow : Bool) (d : Loc) (ss : List String) (slash : Bool),
      t.isFolderAt d = true → t.walk creating links follow d ss slash = .ok ⟨.here e, s⟩ →
      t.isFolderAt e = true := by
  intro links
  induction links with
  | zero => exact fun _ d ss _ hd h => folder_of_scan ht (fun _ _ _ _ hj => by cases hj) ss d hd h
  | succ links ih =>
    exact fun _ d ss _ hd h => folder_of_scan ht (fun d ss b hd' hj => ih _ d ss b hd' hj) ss d hd h

/-- **A regular file can be written to** wherever it can be read. -/
theorem writeLoc_of_blob? (ht : t.WellFormed) (hstart : t.isFolderAt (start cwd p) = true)
    (hfind : t.lookup cwd true p = .ok loc) (hb : t.blob? loc = some b) :
    t.writeLoc cwd p = .ok loc := by
  obtain ⟨⟨spot, slash⟩, hres, rfl, -⟩ := lookup_eq_ok hfind
  obtain ⟨node, hnode⟩ := node?_of_blob? hb
  have hplain : t.isFolderAt spot.loc = false := (noRoad_of_blob? hb).isFolderAt
  have hfolder : node.isFolder = false := by
    rw [isFolderAt, hnode] at hplain
    exact hplain
  have htext := text_of_resolve hres
  rw [Bool.true_or] at hres
  -- a slash would have asked for a directory
  have hslash : slash = false := by
    rw [lookup, Bool.true_or, hres] at hfind
    simp only [bind, Except.bind, hnode, hfolder, Bool.not_false, Bool.and_true] at hfind
    cases slash with
    | false => rfl
    | true => cases hfind
  subst hslash
  rw [resolve_of_text htext] at hres
  obtain ⟨hroute, hwalk⟩ := walk_creating true rfl _ _ _ _ _ hres
  have hnew : t.resolveNew cwd p = .ok ⟨spot, false⟩ := by
    rw [resolveNew_of_text htext, hroute]
    rw [hroute] at hwalk
    exact hwalk
  cases spot with
  | here e =>
    have hdir := folder_of_walk ht _ _ _ _ _ hstart hwalk
    rw [show (Spot.here e).loc = e from rfl, hdir] at hplain
    cases hplain
  | entry d name =>
    rw [writeLoc, hnew]
    have hdevice := device?_of_blob? hb
    rw [Spot.loc, device?] at hdevice
    rw [Spot.loc] at hnode
    simp only [bind, Except.bind, Bool.false_eq_true, if_false, hnode] at hdevice ⊢
    cases node with
    | device device => cases hdevice
    | folder => cases hfolder
    | «sealed» => cases hfolder
    | _ => rfl

/-! ## The bytes of one file in another -/

/-- The contents `b` of the file at `src` have been copied to `dst`, `n` bytes in all, and nothing
    else has changed.  A device in the place of `dst` keeps nothing. -/
structure Copies (t : Tree) (src dst : Loc) (b : Blob) (n : Nat) (t' : Tree) : Prop where
  size : n = b.bytes.size
  source : t'.blob? src = some b
  filled : t.device? dst = none → Fills t dst b t'
  taken : (t.device? dst).isSome = true → t' = t

theorem blobAt_of_blob? (h : t.blob? loc = some b) : t.blobAt loc = b := by
  rw [blobAt, h]
  rfl

/-- **What a copy leaves**, if the two are different files. -/
theorem copies_of_refill (hloc : dst ≠ []) (hb : t.blob? src = some b)
    (hne : t.sameFile src dst = false) (h : t.refill src dst b.runnable = (t', .ok n)) :
    Copies t src dst b n t' := by
  rw [refill] at h
  split at h
  · cases h
  rename_i filled hextend
  cases h
  rw [truncated] at hextend ⊢
  cases hdevice : (t.device? dst).isSome with
  | true =>
    rw [hdevice, if_pos rfl, blobAt_of_blob? hb] at hextend
    rw [if_pos rfl, blobAt_of_blob? hb]
    rcases extend_cases hloc hextend with ⟨-, rfl⟩ | ⟨hno, -⟩
    · refine ⟨rfl, hb, fun hno => ?_, fun _ => rfl⟩
      rw [hno] at hdevice
      cases hdevice
    · rw [hno] at hdevice
      cases hdevice
  | false =>
    rw [hdevice, if_neg Bool.false_ne_true] at hextend
    rw [if_neg Bool.false_ne_true]
    have hempty := fills_setBlob t hloc { bytes := ByteArray.empty, runnable := b.runnable }
    -- the source is another file, so it has its bytes still
    have hread : (t.setBlob dst { bytes := ByteArray.empty, runnable := b.runnable }).blob? src =
        some b := (hempty.others src hne).trans hb
    rw [blobAt_of_blob? hread] at hextend ⊢
    have hfills := hempty.trans (extend_of_blob? hloc hempty.here hextend)
    rw [ByteArray.empty_append] at hfills
    refine ⟨rfl, (hfills.others src hne).trans hb, fun _ => hfills, fun hsome => ?_⟩
    rw [hdevice] at hsome
    cases hsome

theorem refill_of_plain (hdevice : t.device? dst = none) (hloc : dst ≠ []) (src : Loc)
    (runnable : Bool) : ∃ n t', t.refill src dst runnable = (t', .ok n) := by
  have hempty := fills_setBlob t hloc { bytes := ByteArray.empty, runnable }
  have hopened : t.truncated dst runnable =
      t.setBlob dst { bytes := ByteArray.empty, runnable } := by
    rw [truncated, hdevice]
    rfl
  rw [refill, hopened, extend, device?_of_blob? hempty.here]
  exact ⟨_, _, rfl⟩

section Copies

variable {p q : String} (h : Copies t src dst b n t')
include h

theorem Copies.keeps (hroad : NoRoad t dst) : Keeps t t' := by
  cases hdevice : t.device? dst with
  | none => exact (h.filled hdevice).keeps hroad
  | some device =>
    rw [h.taken (by rw [hdevice]; rfl)]
    exact .refl t

theorem Copies.contents?_source (hroad : NoRoad t dst) (hfind : t.lookup cwd true p = .ok src) :
    t'.contents? cwd p = some b.bytes :=
  contents?_of_blob? (lookup_mono (h.keeps hroad) hfind h.source) h.source

theorem Copies.contents?_dst (hwrite : t.writeLoc cwd q = .ok dst)
    (hdevice : t.device? dst = none) : t'.contents? cwd q = some b.bytes := by
  obtain ⟨d, name, rfl, hres, hroad⟩ := writeLoc_eq_ok hwrite
  have hfills := h.filled hdevice
  exact contents?_of_blob? (hfills.lookup hroad rfl hres) hfills.here

end Copies

end Tree

namespace Workspace

open Artifact (IsUsable)
open Concolic.Tree (Copies Names NoRoad)

variable {ws : Workspace} {cwd d loc : Loc} {t t' : Tree} {p q src dst : String}
  {b : Blob} {n : Nat}

/-! ## How a copy is classified -/

theorem copyArtifact_of_ok (h : t.copy cwd p q = (t', .ok n)) :
    copyArtifact cwd t p q = (.copied n, t') := by
  rw [copyArtifact, h]

theorem copyArtifact_of_error {f : Fault} (h : t.copy cwd p q = (t', .error f)) :
    copyArtifact cwd t p q =
      (if f.kind = .notFound && !t.hasEntry cwd p then .absent else .failed f, t) := by
  obtain rfl := Tree.tree_of_copy_error h
  rw [copyArtifact, h]
  dsimp only
  split <;> rfl

theorem copy_of_copied (h : (copyArtifact cwd t p q).1 = .copied n) :
    t.copy cwd p q = ((copyArtifact cwd t p q).2, .ok n) := by
  rcases hcopy : t.copy cwd p q with ⟨t', r⟩
  cases r with
  | error f =>
    rw [copyArtifact_of_error hcopy] at h
    dsimp only at h
    split at h <;> cases h
  | ok m =>
    rw [copyArtifact_of_ok hcopy] at h ⊢
    cases h
    rfl

/-- **Nothing is half done.** -/
theorem copyArtifact_of_not_copied (h : (copyArtifact cwd t p q).1.isCopied = false) :
    (copyArtifact cwd t p q).2 = t := by
  rcases hcopy : t.copy cwd p q with ⟨t', r⟩
  cases r with
  | error f => rw [copyArtifact_of_error hcopy]
  | ok m =>
    rw [copyArtifact_of_ok hcopy] at h
    cases h

/-- **A copy counts as absent** exactly if its source is not found. -/
theorem copyArtifact_eq_absent_iff : (copyArtifact cwd t p q).1 = .absent ↔
    ∃ f, t.lookup cwd true p = .error f ∧ f.kind = .notFound := by
  cases hfind : t.lookup cwd true p with
  | error f =>
    have hentry : t.hasEntry cwd p = false := by rw [Tree.hasEntry, hfind]
    rw [copyArtifact_of_error (Tree.copy_of_missing hfind), hentry]
    by_cases hkind : f.kind = .notFound <;> simp [hkind]
  | ok loc =>
    -- whatever went wrong, the source is there
    have hentry : t.hasEntry cwd p = true := by rw [Tree.hasEntry, hfind]
    constructor
    · intro h
      rcases hcopy : t.copy cwd p q with ⟨t', r⟩
      cases r with
      | error f =>
        rw [copyArtifact_of_error hcopy, hentry] at h
        simp at h
      | ok m =>
        rw [copyArtifact_of_ok hcopy] at h
        cases h
    · rintro ⟨f, hf, -⟩
      cases hf

/-! ## Names in the directory of the source -/

theorem names_of_artifact (husable : IsUsable src)
    (hfind : t.lookup cwd true (ws.artifact src) = .ok loc) :
    ∃ d, Names t cwd (ws.artifact src) d src := by
  obtain ⟨a, hres, -, -⟩ := Tree.lookup_eq_ok hfind
  have htext := Tree.text_of_resolve hres
  rw [Tree.resolve_of_text htext, slash_artifact husable] at hres
  exact Tree.names_of_walk htext husable.isName (steps_artifact husable) hres

theorem checkText_artifact (hsrc : IsUsable src) (hdst : IsUsable dst)
    (h : Tree.checkText (ws.artifact src) = .ok ()) (hroom : ws.HasRoom dst) :
    Tree.checkText (ws.artifact dst) = .ok () := by
  by_cases hroot : ws.root = ""
  · -- the path is the name alone
    have hpath : ws.artifact dst = dst := by
      rw [artifact, hroot, Path.join, hdst.plain.not_absolute]
      simp
    have hsize : ¬ dst.utf8ByteSize > Tree.maxPath := by
      rw [HasRoom, hpath] at hroom
      omega
    rw [hpath, Tree.checkText]
    simp [hdst.no_nul, hdst.plain.ne_empty, hsize]
  · exact Tree.checkText_join (Tree.checkText_of_join h hsrc.plain hroot) hdst.plain
      hdst.no_nul hroom

theorem names_sibling (hsrc : IsUsable src) (hdst : IsUsable dst)
    (h : Names t cwd (ws.artifact src) d src) (hroom : ws.HasRoom dst) :
    Names t cwd (ws.artifact dst) d dst := by
  obtain ⟨init, hsteps, n, hn, hlead⟩ := h.way
  rw [steps_artifact hsrc] at hsteps
  obtain ⟨rfl, -⟩ := List.append_inj' hsteps rfl
  have hstart : Tree.start cwd (ws.artifact dst) = Tree.start cwd (ws.artifact src) := by
    rw [Tree.start, Tree.start, artifact, artifact, Path.isAbsolute_join _ hdst.plain,
      Path.isAbsolute_join _ hsrc.plain]
  refine ⟨checkText_artifact hsrc hdst h.text hroom, h.folder, hdst.isName, _,
    steps_artifact hdst, n, hn, ?_⟩
  rw [hstart]
  exact hlead

/-- The directory of a regular file is not one that the machine keeps. -/
theorem not_sealed_of_names (ht : t.WellFormed) (husable : IsUsable src)
    (h : Names t cwd (ws.artifact src) d src)
    (hfind : t.lookup cwd true (ws.artifact src) = .ok loc) (hb : t.blob? loc = some b) :
    t.node? d ≠ some .sealed := by
  intro hsealed
  cases hnode : t.node? (src :: d) with
  | none =>
    rw [h.lookup_none hnode] at hfind
    cases hfind
  | some node =>
    have hlink : ∀ target, node ≠ .link target := by
      rintro target rfl
      rcases ht.guarded hsealed hnode with hbad | ⟨device, hbad⟩ <;> cases hbad
    rw [h.lookup_some (slash_artifact husable) hnode hlink] at hfind
    cases hfind
    rw [Tree.blob?, hnode] at hb
    rcases ht.guarded hsealed hnode with rfl | ⟨device, rfl⟩ <;> cases hb

/-! ## When a copy is made -/

theorem isCopied_of_writeLoc {place : Loc} (hfind : t.lookup cwd true p = .ok loc)
    (hb : t.blob? loc = some b) (hwrite : t.writeLoc cwd q = .ok place)
    (hdevice : t.device? place = none) : (copyArtifact cwd t p q).1.isCopied = true := by
  obtain ⟨e, last, rfl, -, -⟩ := Tree.writeLoc_eq_ok hwrite
  obtain ⟨n, t', hrefill⟩ := Tree.refill_of_plain hdevice (List.cons_ne_nil last e) loc b.runnable
  rw [← Tree.copy_of_landings hfind hb hwrite] at hrefill
  rw [copyArtifact_of_ok hrefill]
  rfl

/-- **A regular file is copied over another one.** -/
theorem isCopied_of_file (ht : t.WellFormed) (hdst : IsUsable dst)
    (hfind : t.lookup cwd true p = .ok loc) (hb : t.blob? loc = some b)
    (hfile : t.isFile cwd (ws.artifact dst) = true) :
    (copyArtifact cwd t p (ws.artifact dst)).1.isCopied = true := by
  rw [Tree.isFile] at hfile
  split at hfile
  · rename_i place hplace
    obtain ⟨old, hold⟩ := Option.isSome_iff_exists.mp hfile
    obtain ⟨e, hnames⟩ := names_of_artifact hdst hplace
    obtain ⟨init, -, m, -, hlead⟩ := hnames.way
    have hstart := hlead.isFolderAt_start hnames.folder
    have hwrite := Tree.writeLoc_of_blob? ht hstart hplace hold
    exact isCopied_of_writeLoc hfind hb hwrite (Tree.device?_of_blob? hold)
  · cases hfile

/-- **A regular file is copied to a free name** next to it, if the path is not too long. -/
theorem isCopied_of_free (ht : t.WellFormed) (hsrc : IsUsable src) (hdst : IsUsable dst)
    (hnames : Names t cwd (ws.artifact src) d src)
    (hfind : t.lookup cwd true (ws.artifact src) = .ok loc) (hb : t.blob? loc = some b)
    (hnone : t.node? (dst :: d) = none) (hroom : ws.HasRoom dst) :
    (copyArtifact cwd t (ws.artifact src) (ws.artifact dst)).1.isCopied = true := by
  have hseal := not_sealed_of_names ht hsrc hnames hfind hb
  have hwrite := (names_sibling hsrc hdst hnames hroom).writeLoc_none
      (slash_artifact hdst) hnone hseal
  have hdevice : t.device? (dst :: d) = none := by
    rw [Tree.device?, hnone]
  exact isCopied_of_writeLoc hfind hb hwrite hdevice

/-- **Copies are all or nothing.**  A copy that is not made changes nothing, and it is absent
    exactly if the source is not found.  One that is made has read a regular file; if that is not
    the file which the other path leads to as well, then its bytes have been counted and written
    there, unless to a device, and nothing else has changed.  A regular file is copied over any
    other and to any free name, as long as there is room for the path. -/
theorem copyArtifact_all_or_nothing (ws : Workspace) (cwd : Loc) (ht : t.WellFormed)
    (hsrc : IsUsable src) (hdst : IsUsable dst) :
    let made := copyArtifact cwd t (ws.artifact src) (ws.artifact dst)
    (made.1.isCopied = false → made.2 = t) ∧
    (made.1 = .absent ↔
      ∃ f, t.lookup cwd true (ws.artifact src) = .error f ∧ f.kind = .notFound) ∧
    (∀ n, made.1 = .copied n → ∃ source place b,
      t.lookup cwd true (ws.artifact src) = .ok source ∧ t.blob? source = some b ∧
      t.landing? cwd (ws.artifact dst) = some place ∧
      (t.sameFile source place = false →
        Copies t source place b n made.2 ∧
        made.2.contents? cwd (ws.artifact src) = some b.bytes ∧
        (t.device? place = none → made.2.contents? cwd (ws.artifact dst) = some b.bytes))) ∧
    (∀ source b, t.lookup cwd true (ws.artifact src) = .ok source → t.blob? source = some b →
      ∃ d, Names t cwd (ws.artifact src) d src ∧
        (t.node? (dst :: d) = none ∧ ws.HasRoom dst ∨ t.isFile cwd (ws.artifact dst) = true →
          made.1.isCopied = true)) := by
  intro made
  refine ⟨copyArtifact_of_not_copied, copyArtifact_eq_absent_iff, ?_, ?_⟩
  · intro n hmade
    obtain ⟨source, place, b, hfind, hb, hwrite, hrefill⟩ :=
      Tree.landings_of_copy (copy_of_copied hmade)
    refine ⟨source, place, b, hfind, hb, Tree.landing?_of_writeLoc hwrite, fun hne => ?_⟩
    obtain ⟨e, last, hplace, -, hroad⟩ := Tree.writeLoc_eq_ok hwrite
    have hcopies := Tree.copies_of_refill
        (by rw [hplace]; exact List.cons_ne_nil last e) hb hne hrefill
    exact ⟨hcopies, hcopies.contents?_source (hplace ▸ hroad) hfind, hcopies.contents?_dst hwrite⟩
  · intro source b hfind hb
    obtain ⟨d, hnames⟩ := names_of_artifact hsrc hfind
    refine ⟨d, hnames, ?_⟩
    rintro (⟨hnone, hroom⟩ | hfile)
    · exact isCopied_of_free ht hsrc hdst hnames hfind hb hnone hroom
    · exact isCopied_of_file ht hdst hfind hb hfile

/-- Inputs that are a link to a file elsewhere, with an archive that is a link to a free name. -/
def borrowedTree : Tree :=
  (((Tree.empty.put ["w"] .folder).put ["data"] (.file ⟨"12".toUTF8, false⟩)).put
    [Artifact.inputs, "w"] (.link "../data")).put [Artifact.inputsOld, "w"] (.link "../old")

theorem wellFormed_borrowedTree : borrowedTree.WellFormed :=
  Tree.wellFormed_of_entries (by decide +kernel)

theorem borrowedTree_copied : ∃ made,
    copyArtifact [] borrowedTree "w/inputs" "w/inputs.old" = (.copied 2, made) ∧
      Copies borrowedTree ["data"] ["old"] ⟨"12".toUTF8, false⟩ 2 made ∧
      made.contents? [] "w/inputs.old" = some "12".toUTF8 := by
  have hmade : (copyArtifact [] borrowedTree "w/inputs" "w/inputs.old").1 = .copied 2 := by
    decide +kernel
  obtain ⟨-, -, hcopied, -⟩ := copyArtifact_all_or_nothing ⟨"w"⟩ [] wellFormed_borrowedTree
    (Artifact.isUsable_of_mem (show Artifact.inputs ∈ _ by simp))
    (Artifact.isUsable_of_mem (show Artifact.inputsOld ∈ _ by simp))
  obtain ⟨source, place, b, hfind, hb, hplace, hcopies⟩ := hcopied 2 hmade
  obtain rfl : ["data"] = source := Except.ok.inj (hfind.symm.trans (by decide +kernel)).symm
  obtain rfl : ["old"] = place := Option.some.inj (hplace.symm.trans (by decide +kernel)).symm
  obtain rfl : ⟨"12".toUTF8, false⟩ = b := Option.some.inj (hb.symm.trans (by decide +kernel)).symm
  obtain ⟨hcopies, -, hread⟩ := hcopies (by decide +kernel)
  exact ⟨_, Prod.ext hmade rfl, hcopies, hread (by decide +kernel)⟩

/-- A history whose archive is a link to a device. -/
def drainTree : Tree :=
  ((((Tree.empty.put ["w"] .folder).put ["dev"] .folder).put ["null", "dev"] (.device .null)).put
    [Artifact.history, "w"] (.file ⟨"x".toUTF8, false⟩)).put [Artifact.historyOld, "w"]
    (.link "/dev/null")

theorem wellFormed_drainTree : drainTree.WellFormed :=
  Tree.wellFormed_of_entries (by decide +kernel)

/-- A history in a directory without an archive. -/
def bareTree : Tree :=
  Run.madeStand.tree.put [Artifact.history, "w"] (.file ⟨"x".toUTF8, false⟩)

theorem wellFormed_bareTree : bareTree.WellFormed :=
  Tree.wellFormed_of_entries (by decide +kernel)

theorem names_bareTree {n : Nat} (h : n + 9 ≤ Tree.maxPath) :
    Names bareTree [] ((⟨Path.slashed "w" (n + 1)⟩ : Workspace).artifact Artifact.history) ["w"]
      Artifact.history := by
  have hkeeps : Tree.Keeps Run.lockedTree bareTree :=
    (Tree.keeps_put .folder fun old hold => by cases hold).trans
      (Tree.keeps_put _ fun old hold => by cases hold)
  have husable := Artifact.isUsable_of_mem (show Artifact.history ∈ _ by simp)
  have hreaches := ((Run.names_slashed
      (show n + 1 + 1 ≤ Tree.maxPath by omega)).mono hkeeps).reaches
    (show bareTree.isFolderAt ["w"] = true by decide)
  refine hreaches.names husable.plain husable.isName ?_
  refine Tree.checkText_join hreaches.text husable.plain husable.no_nul ?_
  exact (Run.hasRoom_slashed n husable.plain).mpr h

/-- There is room for the path of the history, but not for that of its archive. -/
theorem bareTree_not_copied {n : Nat} (hhistory : n + 9 ≤ Tree.maxPath)
    (harchive : Tree.maxPath < n + 13) :
    bareTree.isFile [] ((⟨Path.slashed "w" (n + 1)⟩ : Workspace).artifact Artifact.history) = true ∧
      (copyArtifact [] bareTree ((⟨Path.slashed "w" (n + 1)⟩ : Workspace).artifact Artifact.history)
        ((⟨Path.slashed "w" (n + 1)⟩ : Workspace).artifact Artifact.historyOld)).1.isCopied =
          false := by
  have hnode : bareTree.node? [Artifact.history, "w"] = some (.file ⟨"x".toUTF8, false⟩) := by
    decide +kernel
  have husable := Artifact.isUsable_of_mem (show Artifact.history ∈ _ by simp)
  have hplain := (Artifact.isUsable_of_mem (show Artifact.historyOld ∈ _ by simp)).plain
  constructor
  · rw [Tree.isFile, (names_bareTree hhistory).lookup_some (slash_artifact husable) hnode (by simp)]
    simp only [Tree.blob?_of_file hnode, Option.isSome_some]
  · have hroom : ¬ (⟨Path.slashed "w" (n + 1)⟩ : Workspace).HasRoom Artifact.historyOld := by
      intro hroom
      have hle := (Run.hasRoom_slashed n hplain).mp hroom
      have hsize : Artifact.historyOld.utf8ByteSize = 11 := by decide
      omega
    obtain ⟨f, hcopy⟩ := copy_to_long hroom
      ((⟨Path.slashed "w" (n + 1)⟩ : Workspace).artifact Artifact.history)
    rw [copyArtifact_of_error hcopy]
    dsimp only
    split <;> rfl

/-- **Where a copy is not what it seems.**  A copy to a device counts as made and leaves nothing
    that could be read.  A copy to a free name is not made where the path of the name
    is too long. -/
theorem drainTree_keeps_nothing :
    drainTree.WellFormed ∧ (copyArtifact [] drainTree "w/history" "w/history.old").1 = .copied 1 ∧
      drainTree.lookup [] true "w/history" = .ok ["history", "w"] ∧
      drainTree.landing? [] "w/history.old" = some ["null", "dev"] ∧
      drainTree.sameFile ["history", "w"] ["null", "dev"] = false ∧
      (copyArtifact [] drainTree "w/history" "w/history.old").2.contents? [] "w/history" =
        some "x".toUTF8 ∧
      (copyArtifact [] drainTree "w/history" "w/history.old").2.contents? [] "w/history.old" =
        some ByteArray.empty ∧
    bareTree.WellFormed ∧ bareTree.node? [Artifact.historyOld, "w"] = none ∧
      bareTree.isFile [] ((⟨Path.slashed "w" 4087⟩ : Workspace).artifact Artifact.history) = true ∧
      (copyArtifact [] bareTree ((⟨Path.slashed "w" 4087⟩ : Workspace).artifact Artifact.history)
        ((⟨Path.slashed "w" 4087⟩ : Workspace).artifact Artifact.historyOld)).1.isCopied = false :=
  ⟨wellFormed_drainTree, by decide +kernel, by decide +kernel, by decide +kernel, by decide +kernel,
    by decide +kernel, by decide +kernel, wellFormed_bareTree, by decide +kernel,
    bareTree_not_copied (n := 4086) (by decide) (by decide)⟩

end Workspace

end Concolic
