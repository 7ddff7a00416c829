import Concolic.Proofs.Archive

/-
  What the first iteration of a session finds.

  A reset never says whether it has removed anything; it is content if the path leads to a directory
  in the end.  If the path goes up somewhere, that may be one which nobody has emptied (`Rerouted`).
-/

namespace Concolic

namespace Workspace

open Concolic.Tree (Bare Reaches)

variable {ws : Workspace} {cwd d : Loc} {t seen made : Tree} {name : String}

/-! ## What a reset leaves, whatever the path -/

/-- The path of the working directory led to no directory after the removal, and leads to `d` now
    that the directories above it have been made. -/
structure Rerouted (ws : Workspace) (cwd : Loc) (seen made : Tree) (d : Loc) : Prop where
  up : ".." ∈ (Path.route ws.root).steps
  lost : ¬ ∃ e, Reaches (seen.removeAll cwd ws.root).1 cwd ws.root e
  parents : made = ((seen.removeAll cwd ws.root).1.makeFirst cwd
    (Tree.ancestors (ws.root.length + 1) ws.root).tail).1
  reaches : Reaches made cwd ws.root d

/-- **A reset that succeeds** on any path. -/
theorem reset_cases (h : seen.WellFormed) (hreset : ws.reset cwd seen = (made, .ok ())) :
    (ws.root = "" ∧ made = seen) ∨ (∃ d, Reaches made cwd ws.root d ∧ Bare made d) ∨
      ∃ d, Rerouted ws cwd seen made d := by
  by_cases hempty : ws.root = ""
  · refine .inl ⟨hempty, ?_⟩
    have hsame : ws.reset cwd seen = (seen, .ok ()) := by
      rw [reset, hempty]
      rfl
    rw [hsame] at hreset
    exact (congrArg Prod.fst hreset).symm
  refine .inr ?_
  have hform := (h.removeAll cwd ws.root).1
  have hmakes := makeFolders_of_reset_ok hreset
  have hjust : (∃ d, Tree.JustMade cwd ws.root made d) →
      ∃ d, Reaches made cwd ws.root d ∧ Bare made d := by
    rintro ⟨d, hjust⟩
    exact ⟨d, hjust.reaches, hjust.bare⟩
  have hthere : made = (seen.removeAll cwd ws.root).1 →
      (∃ d, Reaches (seen.removeAll cwd ws.root).1 cwd ws.root d) →
      ∃ d, Reaches made cwd ws.root d ∧ Bare made d := by
    rintro rfl ⟨d, hreach⟩
    exact ⟨d, hreach, Tree.removeAll_bare h hreach⟩
  by_cases hup : ".." ∈ (Path.route ws.root).steps
  · rcases Tree.makeFirst_cases hform _ hmakes with
      ⟨hroot, -⟩ | hnew | ⟨hsame, hreach⟩ | ⟨hlost, hparents, d, hreach⟩
    · exact absurd hroot hempty
    · exact .inl (hjust hnew)
    · exact .inl (hthere hsame hreach)
    · exact .inr ⟨d, hup, hlost, (congrArg Prod.fst hparents).symm, hreach⟩
  · rcases Tree.makeFirst_ancestors hform _ _ _ hup hmakes with hnew | ⟨hsame, hroot | hreach⟩
    · exact .inl (hjust hnew)
    · exact absurd hroot hempty
    · exact .inl (hthere hsame hreach)

/-! ## Finding nothing -/

/-- The artifacts that are looked for before an invocation. -/
def sources : List String := [Artifact.marker, Artifact.inputs, Artifact.history]

theorem lookup_source_of_none (h : Reaches t cwd ws.root d) (hname : name ∈ sources)
    (hroom : ws.HasRoom name) (hnone : t.node? (name :: d) = none) :
    t.lookup cwd true (ws.artifact name) = .error .notFound := by
  have husable : Artifact.IsUsable name := by
    refine Artifact.isUsable_of_mem ?_
    rw [sources, List.mem_cons, List.mem_cons, List.mem_singleton] at hname
    rcases hname with rfl | rfl | rfl <;> decide
  have hnames := h.names husable.plain husable.isName
    (Tree.checkText_join h.text husable.plain husable.no_nul hroom)
  exact hnames.lookup_none hnone true

/-- Nothing is found before the invocation, and nothing is written. -/
structure FindsNothing (ws : Workspace) (cwd : Loc) (number : UInt32) (t : Tree) : Prop where
  inputs : ws.snapshotInputs cwd number t = (⟨.absent, .absent, .absent⟩, t)
  history : ws.snapshotHistory cwd t = (.absent, t)

theorem copyArtifact_of_missing {src : String} (h : t.lookup cwd true src = .error .notFound)
    (dst : String) : copyArtifact cwd t src dst = (.absent, t) := by
  have hentry : t.hasEntry cwd src = false := by rw [Tree.hasEntry, h]
  rw [copyArtifact, Tree.copy_of_missing h]
  simp only [hentry]
  rfl

theorem findsNothing_of_missing (number : UInt32)
    (h : ∀ name ∈ sources, t.lookup cwd true (ws.artifact name) = .error .notFound) :
    FindsNothing ws cwd number t := by
  have hmarker : ws.readMarker cwd t = .absent := by
    rw [readMarker, Tree.readText, Tree.readBlob, h _ (by decide)]
    rfl
  have hinputs := copyArtifact_of_missing (h Artifact.inputs (by decide))
  constructor
  · simp only [snapshotInputs, hmarker, Marker.kind, hinputs]
  · exact copyArtifact_of_missing (h Artifact.history (by decide)) _

/-- Why `name` may be found after a reset that has succeeded. -/
inductive Stale (ws : Workspace) (cwd : Loc) (seen made : Tree) (name : String) : Prop where
  /-- The path is empty.  It stands for the current directory, but nothing is removed or made. -/
  | unnamed : ws.root = "" → made = seen → Stale ws cwd seen made name
  /-- The path leads to a directory that has not been emptied. -/
  | rerouted (d : Loc) : Rerouted ws cwd seen made d → made.node? (name :: d) ≠ none →
      Stale ws cwd seen made name
  /-- The path leads to a directory of the machine. -/
  | kept (d : Loc) : Reaches made cwd ws.root d → made.node? d = some .sealed →
      made.node? (name :: d) ≠ none → Stale ws cwd seen made name
  /-- The path of the artifact is too long, so that asking for it fails. -/
  | long : ¬ ws.HasRoom name → Stale ws cwd seen made name

/-- **After a reset that succeeds** nothing is found, for any path, unless a source is there for a
    reason. -/
theorem findsNothing_of_reset (number : UInt32) (h : seen.WellFormed)
    (hreset : ws.reset cwd seen = (made, .ok ())) :
    FindsNothing ws cwd number made ∨ ∃ name ∈ sources,
      made.lookup cwd true (ws.artifact name) ≠ .error .notFound ∧ Stale ws cwd seen made name := by
  by_cases hmissing : ∀ name ∈ sources, made.lookup cwd true (ws.artifact name) = .error .notFound
  · exact .inl (findsNothing_of_missing number hmissing)
  obtain ⟨name, hname, hfound⟩ : ∃ name ∈ sources,
      made.lookup cwd true (ws.artifact name) ≠ .error .notFound := by
    simpa using hmissing
  refine .inr ⟨name, hname, hfound, ?_⟩
  by_cases hroom : ws.HasRoom name
  · -- what is found in a directory stands in it
    have hstands : ∀ d, Reaches made cwd ws.root d → made.node? (name :: d) ≠ none :=
      fun d hreach hnone => hfound (lookup_source_of_none hreach hname hroom hnone)
    rcases reset_cases h hreset with ⟨hempty, hsame⟩ | ⟨d, hreach, hbare⟩ | ⟨d, hrerouted⟩
    · exact .unnamed hempty hsame
    · obtain ⟨node, hnode⟩ := Option.ne_none_iff_exists'.mp (hstands d hreach)
      exact .kept d hreach (hbare name node hnode).1 (hstands d hreach)
    · exact .rerouted d hrerouted (hstands d hrerouted.reaches)
  · exact .long hroom

end Workspace

namespace Run

open Concolic.Workspace (FindsNothing Stale)

variable {σ : Type}

/-- The record of an iteration that found nothing. -/
structure RecordsNothing (i : Iteration) : Prop where
  inputs : i.inputs = ⟨.absent, .absent, .absent⟩
  history : i.history = .absent

theorem recordsNothing_head {s : Setup σ} {x : Stand σ} {n : Nat} {first : Iteration}
    (h : FindsNothing s.workspace s.host.cwd 1 x.tree)
    (hfirst : (records s x n).head? = some first) : RecordsNothing first := by
  cases n with
  | zero => cases hfirst
  | succ n =>
    rw [records, List.range_succ_eq_map, List.map_cons, List.head?_cons] at hfirst
    cases hfirst
    constructor
    · show (s.workspace.snapshotInputs s.host.cwd 1 x.tree).1 = _
      rw [h.inputs]
    · show (s.workspace.snapshotHistory s.host.cwd
        (s.workspace.snapshotInputs s.host.cwd 1 x.tree).2).1 = _
      rw [h.inputs, h.history]

/-- **A session starts clean.**  If a run gets past its reset, the first iteration finds nothing and
    writes nothing before the invocation, and so says the report; unless a source is there because
    the path of the working directory is empty, has been rerouted, leads to a directory of the
    machine or is too long. -/
theorem first_iteration_finds_nothing (s : Setup σ) (asked : Bool) (w : σ)
    (t seen : Tree) (lock : Lock) (x : Stand σ) (hform : t.WellFormed)
    (hobserver : ∀ w t, t.WellFormed → (s.observer.notify (sessionEvent s) w t).2.WellFormed)
    (hbegin : Begins s asked w t lock seen x) :
    (FindsNothing s.workspace s.host.cwd 1 x.tree ∧
      ∀ report first, (run s asked w t).result = .ok report →
        report.iterations.head? = some first → RecordsNothing first) ∨
      ∃ name ∈ Workspace.sources,
        x.tree.lookup s.host.cwd true (s.workspace.artifact name) ≠ .error .notFound ∧
        Stale s.workspace s.host.cwd seen x.tree name := by
  obtain ⟨held, hlock, htold⟩ := hbegin.locks
  have hheld := Lock.wellFormed_acquire hform hlock
  have hseen : seen.WellFormed := by
    have hafter := hobserver w held hheld
    rwa [htold] at hafter
  rcases Workspace.findsNothing_of_reset 1 hseen hbegin.resets with hnothing | hstale
  · refine .inl ⟨hnothing, fun report first hresult hfirst => ?_⟩
    obtain ⟨outcome, n, -, rfl, -, -⟩ := hbegin.completed hresult
    exact recordsNothing_head hnothing hfirst
  · exact .inr hstale

/-! ## What an earlier session left -/

/-- The files of an earlier session. -/
def leave (d : Loc) (t : Tree) : Tree :=
  ((t.put (Artifact.inputs :: d) (.file ⟨"old".toUTF8, false⟩)).put
    (Artifact.marker :: d) (.file ⟨"true".toUTF8, false⟩)).put
      (Artifact.history :: d) (.file ⟨"path".toUTF8, false⟩)

/-- Earlier sessions in the current directory and in `w`. -/
def litteredTree : Tree := leave ["w"] ((leave [] Tree.empty).put ["w"] .folder)

theorem wellFormed_litteredTree : litteredTree.WellFormed :=
  Tree.wellFormed_of_entries (by decide +kernel)

/-- A session of one invocation that changes nothing. -/
def idleSession (workDir : String) : Setup Unit := scriptedSession workDir 1 fun _ => []

/-- The littered tree with the lock of a session in `w`. -/
def litteredLocked : Tree := litteredTree.put ["w.lock"] (.file ⟨"7".toUTF8, false⟩)

/-- The same once `w` has been made anew. -/
def litteredAround : Tree := ((leave [] Tree.empty).put ["w.lock"] (.file ⟨"7".toUTF8, false⟩)).put
  ["w"] .folder

theorem begins_idleSession : Begins (idleSession "w") false () litteredTree
    ⟨"w.lock"⟩ litteredLocked
    ⟨litteredAround, (), false⟩ :=
  ⟨⟨litteredLocked, by decide +kernel, rfl⟩, by decide +kernel, rfl⟩

theorem idleSession_starts_clean :
    Begins (idleSession "w") false () litteredTree ⟨"w.lock"⟩ litteredLocked
        ⟨litteredAround, (), false⟩ ∧
      FindsNothing ⟨"w"⟩ [] 1 litteredAround ∧
      ∃ report first, (run (idleSession "w") false () litteredTree).result = .ok report ∧
        report.iterations = [first] ∧ RecordsNothing first := by
  rcases first_iteration_finds_nothing (idleSession "w") false
    () litteredTree litteredLocked ⟨"w.lock"⟩
    ⟨litteredAround, (), false⟩ wellFormed_litteredTree (fun _ _ h => h) begins_idleSession with
    ⟨hnothing, hrecords⟩ | ⟨name, hname, -, hstale⟩
  · refine ⟨begins_idleSession, hnothing, ?_⟩
    have hiterations : (run (idleSession "w") false () litteredTree).result.toOption.map
        (fun report => report.iterations.length) = some 1 := by decide +kernel
    cases hresult : (run (idleSession "w") false () litteredTree).result with
    | error cause =>
      rw [hresult] at hiterations
      cases hiterations
    | ok report =>
      rw [hresult] at hiterations
      obtain ⟨first, hfirst⟩ := List.length_eq_one_iff.mp (Option.some.inj hiterations)
      exact ⟨report, first, rfl, hfirst, hrecords report first hresult (by rw [hfirst]; rfl)⟩
  · exfalso
    cases hstale with
    | unnamed hempty => exact absurd hempty (by decide)
    | rerouted d hrerouted => exact absurd hrerouted.up (by decide)
    | kept d hreach hsealed =>
      have hplace : litteredAround.lookup [] true "w" = .ok ["w"] := by decide +kernel
      obtain rfl : d = ["w"] := Except.ok.inj (hreach.lookup.symm.trans hplace)
      exact absurd hsealed (by decide)
    | long hlong =>
      have hroom : ∀ name ∈ Workspace.sources, (Workspace.mk "w").HasRoom name := by decide
      exact hlong (hroom name hname)

/-- What the iterations of a run found. -/
def findings (ended : Ended Unit) : Option (List (InputSnapshot × Copy)) :=
  ended.result.toOption.map fun report => report.iterations.map fun i => (i.inputs, i.history)

/-- **A session need not start clean.**  One with the empty path finds and copies all that is in the
    current directory.  One with a path that goes up to it finds the directory that it went through,
    which the reset has removed and made again. -/
theorem idleSession_finds_leftovers :
    findings (run (idleSession "") false () litteredTree) =
        some [(⟨.present .real, .copied 3, .copied 3⟩, .copied 4)] ∧
      (run (idleSession "") false () litteredTree).tree.readText [] "inputs1" = .ok "old" ∧
      findings (run (idleSession "inputs/..") false () (Tree.empty.put ["inputs"] .folder)) =
        some [(⟨.absent, .failed .notRegular, .failed .notRegular⟩, .absent)] := by
  refine ⟨?_, ?_, ?_⟩ <;> decide +kernel

end Run

end Concolic
