import Concolic.Proofs.Tree.Filling
import Mathlib.Computability.Language

/-
  Archiving the inputs before an iteration.

  The marker calls them synthetic if its bytes are a text in the language `\n* f \n* a \n* l \n* s
  \n* e \n*` (`spellings`); the program drops the line feeds and compares, which comes to the same
  by an induction on the word.
-/

namespace Concolic

open scoped Computability

/-! ## Words with line feeds in them -/

namespace InputKind

/-- Any number of line feeds. -/
def feeds : Language Char := {['\n']}∗

/-- The ways to write a word with line feeds before, between and after its letters. -/
def spellings : List Char → Language Char
  | [] => feeds
  | c :: word => feeds * {[c]} * spellings word

theorem mem_feeds {cs : List Char} : cs ∈ feeds ↔ ∀ c ∈ cs, c = '\n' := by
  constructor
  · rintro ⟨lines, rfl, hlines⟩ c hc
    obtain ⟨line, hline, hmem⟩ := List.mem_flatten.mp hc
    obtain rfl : line = ['\n'] := hlines line hline
    exact List.mem_singleton.mp hmem
  · intro h
    have hcs : cs = (cs.map fun c => [c]).flatten := by
      rw [← List.flatMap_def, List.flatMap_singleton']
    refine ⟨cs.map fun c => [c], hcs, fun line hline => ?_⟩
    obtain ⟨c, hc, rfl⟩ := List.mem_map.mp hline
    rw [h c hc]
    rfl

theorem filter_eq_nil_iff_mem_feeds {cs : List Char} : cs.filter (· ≠ '\n') = [] ↔ cs ∈ feeds := by
  rw [mem_feeds, List.filter_eq_nil_iff]
  simp

/-- **The accepted language**: a text spells a word exactly if the word is what is left of it
    without its line feeds. -/
theorem mem_spellings_iff {word : List Char} (hword : '\n' ∉ word) (cs : List Char) :
    cs ∈ spellings word ↔ cs.filter (· ≠ '\n') = word := by
  induction word generalizing cs with
  | nil => exact filter_eq_nil_iff_mem_feeds.symm
  | cons c word ih =>
    have hc : c ≠ '\n' := fun heq => hword (heq ▸ List.mem_cons_self)
    have hrest := ih fun hmem => hword (List.mem_cons_of_mem c hmem)
    rw [spellings, Language.mem_mul]
    constructor
    · rintro ⟨front, hfront, rest, hspelt, rfl⟩
      obtain ⟨gap, hgap, letter, hletter, rfl⟩ := Language.mem_mul.mp hfront
      obtain rfl : letter = [c] := hletter
      rw [List.filter_append, List.filter_append, filter_eq_nil_iff_mem_feeds.mpr hgap,
        (hrest rest).mp hspelt]
      simp [hc]
    · intro h
      obtain ⟨gap, rest, rfl, hgap, -, hfilter⟩ := List.filter_eq_cons_iff.mp h
      have hfeeds : gap ∈ feeds := mem_feeds.mpr fun x hx => by simpa using hgap x hx
      refine ⟨gap ++ [c], Language.append_mem_mul hfeeds rfl, rest, (hrest rest).mpr hfilter, ?_⟩
      simp

theorem ofText_eq_synthetic_iff (text : String) :
    ofText text = .synthetic ↔ text.toList ∈ spellings ['f', 'a', 'l', 's', 'e'] := by
  rw [mem_spellings_iff (by decide), ofText]
  split
  · simp_all
  · simp_all

end InputKind

namespace Workspace

open Artifact (IsArtifact IsUsable)
open Concolic.Tree (Fills FillsOnly NoRoad)

variable {ws : Workspace} {cwd : Loc} {t : Tree} {name : String}

/-! ## The marker -/

/-- The path of the marker leads to a regular file with a text that spells `false`. -/
def IsMarkedSynthetic (ws : Workspace) (cwd : Loc) (t : Tree) : Prop :=
  ∃ loc b text, t.lookup cwd true (ws.artifact Artifact.marker) = .ok loc ∧ t.blob? loc = some b ∧
    String.fromUTF8? b.bytes = some text ∧
    text.toList ∈ InputKind.spellings ['f', 'a', 'l', 's', 'e']

/-- **When inputs are synthetic.** -/
theorem kind_readMarker_iff_marked (ws : Workspace) (cwd : Loc) (t : Tree) :
    (ws.readMarker cwd t).kind = .synthetic ↔ ws.IsMarkedSynthetic cwd t := by
  rw [kind_readMarker_iff]
  constructor
  · rintro ⟨loc, b, hfind, hblob, hsays⟩
    obtain ⟨text, htext, hkind⟩ := saysSynthetic_iff.mp hsays
    exact ⟨loc, b, text, hfind, hblob, htext, (InputKind.ofText_eq_synthetic_iff text).mp hkind⟩
  · rintro ⟨loc, b, text, hfind, hblob, htext, hspelt⟩
    exact ⟨loc, b, hfind, hblob,
      saysSynthetic_iff.mpr ⟨text, htext, (InputKind.ofText_eq_synthetic_iff text).mpr hspelt⟩⟩

/-! ## The two copies -/

theorem copyArtifact_ne_skipped (cwd : Loc) (t : Tree) (src dst : String) :
    (copyArtifact cwd t src dst).1 ≠ .skipped := by
  rw [copyArtifact]
  split
  · simp
  · split <;> simp

/-- The place of one of the archives of the iteration. -/
def IsArchived (ws : Workspace) (cwd : Loc) (iteration : UInt32) (t : Tree) (loc : Loc) : Prop :=
  t.place? cwd (ws.artifact (Artifact.numbered iteration)) = some loc ∨
    t.place? cwd (ws.artifact Artifact.inputsOld) = some loc

/-- No artifact is a symbolic link. -/
def NoLinks (ws : Workspace) (cwd : Loc) (t : Tree) : Prop :=
  ∀ name, IsArtifact name → ∀ loc, t.place? cwd (ws.artifact name) = some loc →
    ∀ target, t.node? loc ≠ some (.link target)

/-- **A copy writes to the file of its name**, if that is no link. -/
theorem copyArtifact_cases (husable : IsUsable name)
    (hlink : ∀ loc, t.place? cwd (ws.artifact name) = some loc →
      ∀ target, t.node? loc ≠ some (.link target)) (src : String) :
    (copyArtifact cwd t src (ws.artifact name)).2 = t ∨
      ∃ loc b, t.place? cwd (ws.artifact name) = some loc ∧ NoRoad t loc ∧
        Fills t loc b (copyArtifact cwd t src (ws.artifact name)).2 := by
  rw [copyArtifact]
  rcases hcopy : t.copy cwd src (ws.artifact name) with ⟨t', r⟩
  cases r with
  | error f =>
    left
    obtain rfl := Tree.tree_of_copy_error hcopy
    dsimp only
    split <;> rfl
  | ok n =>
    obtain ⟨loc, hwrite, rfl | ⟨b, hfills⟩⟩ := Tree.copy_cases hcopy
    · exact .inl rfl
    · right
      have hslash : (Path.route (ws.artifact name)).slash = false := slash_artifact husable
      obtain ⟨d, hnames, rfl⟩ :=
        Tree.names_of_writeLoc husable.isName (steps_artifact husable) hslash hlink hwrite
      obtain ⟨_, _, hloc, -, hroad⟩ := Tree.writeLoc_eq_ok hwrite
      exact ⟨_, b, hnames.place?_of_slash hslash, hloc ▸ hroad, hfills⟩

theorem fillsOnly_copyArtifact {W : Loc → Prop} (husable : IsUsable name)
    (hlink : ∀ loc, t.place? cwd (ws.artifact name) = some loc →
      ∀ target, t.node? loc ≠ some (.link target))
    (hplace : ∀ loc, t.place? cwd (ws.artifact name) = some loc → W loc) (src : String) :
    FillsOnly W t (copyArtifact cwd t src (ws.artifact name)).2 := by
  rcases copyArtifact_cases husable hlink src with heq | ⟨loc, b, hloc, hold, hfills⟩
  · rw [heq]
    exact .refl W t
  · exact hfills.only hold (hplace loc hloc)

/-- **Archiving writes to the two archives only**, where these are no links. -/
theorem fillsOnly_snapshotInputs (hlinks : ws.NoLinks cwd t) (iteration : UInt32) :
    FillsOnly (ws.IsArchived cwd iteration t) t (ws.snapshotInputs cwd iteration t).2 := by
  have hnumber : IsUsable (Artifact.numbered iteration) :=
    Artifact.isUsable_number (UInt32.toNat_lt iteration)
  have hprevious : IsUsable Artifact.inputsOld := Artifact.isUsable_of_mem (by simp)
  have hold : IsArtifact Artifact.inputsOld := .inl (.inr (.inl rfl))
  have hnumbered : IsArtifact (Artifact.numbered iteration) := isArtifact_number _
  -- the second copy is made in a tree with the same directories and links
  have hsecond : ∀ between, FillsOnly (ws.IsArchived cwd iteration t) t between →
      FillsOnly (ws.IsArchived cwd iteration t) t
        (copyArtifact cwd between (ws.artifact Artifact.inputs)
          (ws.artifact Artifact.inputsOld)).2 := by
    intro between hfirst
    refine hfirst.trans (fillsOnly_copyArtifact hprevious (fun loc hloc target hlink => ?_)
      (fun loc hloc => ?_) _)
    · exact hlinks _ hold loc (Tree.place?_of_kept hfirst.kept hfirst.keeps hloc) target
        (hfirst.kept _ _ hlink rfl)
    · exact .inr (Tree.place?_of_kept hfirst.kept hfirst.keeps hloc)
  rw [snapshotInputs]
  cases (ws.readMarker cwd t).kind with
  | real =>
    exact hsecond _ (fillsOnly_copyArtifact hnumber (hlinks _ hnumbered) (fun _ => .inl) _)
  | synthetic => exact hsecond t (.refl _ t)

/-- **When the numbered archive is skipped.**  Exactly if the marker is a regular file that spells
    `false`; otherwise the inputs are copied under the number, and in both cases as the previous
    ones after that.  If no artifact is a link, no entry but those of the two archives changes, and
    no contents but those of their files. -/
theorem snapshot_skipped_iff_marked (ws : Workspace) (cwd : Loc) (iteration : UInt32) (t : Tree) :
    let source := ws.artifact Artifact.inputs
    let taken := ws.snapshotInputs cwd iteration t
    (taken.1.numbered = .skipped ↔ ws.IsMarkedSynthetic cwd t) ∧
    (∃ between, (ws.IsMarkedSynthetic cwd t → between = t) ∧
      (¬ ws.IsMarkedSynthetic cwd t →
        copyArtifact cwd t source (ws.artifact (Artifact.numbered iteration)) =
          (taken.1.numbered, between)) ∧
      copyArtifact cwd between source (ws.artifact Artifact.inputsOld) =
        (taken.1.previous, taken.2)) ∧
    (ws.NoLinks cwd t → ∀ loc, ¬ ws.IsArchived cwd iteration t loc →
      taken.2.node? loc = t.node? loc ∧
      ((∀ place, ws.IsArchived cwd iteration t place → t.sameFile loc place = false) →
        taken.2.blob? loc = t.blob? loc)) := by
  intro source taken
  refine ⟨?_, ?_, fun hlinks loc hloc => ?_⟩
  · rw [← kind_readMarker_iff_marked]
    cases hkind : (ws.readMarker cwd t).kind with
    | real =>
      have hnumbered : taken.1.numbered =
          (copyArtifact cwd t source (ws.artifact (Artifact.numbered iteration))).1 := by
        simp only [taken, snapshotInputs, hkind, source]
      rw [hnumbered]
      simp [copyArtifact_ne_skipped]
    | synthetic => simp [taken, snapshotInputs, hkind]
  · rw [← kind_readMarker_iff_marked]
    cases hkind : (ws.readMarker cwd t).kind with
    | real =>
      refine ⟨(copyArtifact cwd t source (ws.artifact (Artifact.numbered iteration))).2,
        fun h => (by cases h), fun _ => ?_, ?_⟩
      · simp only [taken, snapshotInputs, hkind, source]
      · simp only [taken, snapshotInputs, hkind, source]
    | synthetic =>
      refine ⟨t, fun _ => rfl, fun h => absurd rfl h, ?_⟩
      simp only [taken, snapshotInputs, hkind, source]
  · have honly := fillsOnly_snapshotInputs hlinks iteration
    exact ⟨honly.nodes loc hloc, honly.others loc⟩

/-- Inputs that are called synthetic by a marker with line feeds in it. -/
def markedTree : Tree :=
  ((Tree.empty.put ["w"] .folder).put [Artifact.inputs, "w"] (.file ⟨"12".toUTF8, false⟩)).put
    [Artifact.marker, "w"] (.file ⟨"fa\nlse\n".toUTF8, false⟩)

theorem linkFree_markedTree : markedTree.LinkFree :=
  Tree.linkFree_of_entries (by decide +kernel)

theorem markedTree_archived : ∃ taken, (⟨"w"⟩ : Workspace).snapshotInputs [] 3 markedTree = taken ∧
    (⟨"w"⟩ : Workspace).NoLinks [] markedTree ∧ taken.1.numbered = .skipped ∧
    taken.1.previous = .copied 2 ∧
    ∀ loc, loc ≠ ["inputs3", "w"] → loc ≠ ["inputs.old", "w"] →
      taken.2.node? loc = markedTree.node? loc := by
  have hlinks : (⟨"w"⟩ : Workspace).NoLinks [] markedTree := fun _ _ loc _ =>
      linkFree_markedTree loc
  obtain ⟨hskipped, -, hothers⟩ := snapshot_skipped_iff_marked ⟨"w"⟩ [] 3 markedTree
  refine ⟨_, rfl, hlinks, hskipped.mpr ?_, by decide +kernel, fun loc hnumber hold => ?_⟩
  · refine ⟨[Artifact.marker, "w"], ⟨"fa\nlse\n".toUTF8, false⟩, "fa\nlse\n", by decide +kernel,
      by decide +kernel, by decide +kernel, ?_⟩
    rw [InputKind.mem_spellings_iff (by decide)]
    decide +kernel
  · refine (hothers hlinks loc ?_).1
    have hplaces : markedTree.place? [] "w/inputs3" = some ["inputs3", "w"] ∧
        markedTree.place? [] "w/inputs.old" = some ["inputs.old", "w"] := by decide +kernel
    rintro (hplace | hplace)
    · exact hnumber (Option.some.inj (hplace.symm.trans hplaces.1))
    · exact hold (Option.some.inj (hplace.symm.trans hplaces.2))

end Workspace

end Concolic
