import Mathlib.Data.Set.Card
import Concolic.Proofs.Journal

/-
  Runs that leave an archive: the laws of the rounds become a statement about the trace.

  The observer is any that is discreet as long as it finds what it relies on.  A recorder is one of
  them, if its state directory is clear of the working directory (`discreet_recorder`).
-/

namespace Concolic.Run

open Artifact (IsArchive IsArtifact IsNumbered)
open StateDir (Clear Ready Writes fileNames journalName)

variable {σ : Type}

/-! ## Recorders -/

/-- What a recorder relies on that has its files at `S`: it can write them whatever is in the
    working directory at `place`, and the path of that directory leads nowhere else. -/
structure ReliesOn (s : Setup Current) (r : Recorder) (S place : Loc)
    (x : Stand Current) (t : Tree) : Prop where
  clear : Clear place S
  minded : Minded s x place t
  outside : Ready r.dir r.cwd S (t.without place)

section Recorder

variable {s : Setup Current} {r : Recorder} {S place : Loc} {t t' : Tree} {x : Stand Current}

theorem ReliesOn.ready (h : ReliesOn s r S place x t) : Ready r.dir r.cwd S t :=
  h.outside.of_without h.clear (.refl place t)

theorem changesInside_of_rewrites {d : Loc} (h : Tree.Rewrites d t t') :
    Tree.ChangesInside d t t' := by
  refine ⟨fun loc hout => ?_, fun loc node hnode halias => ?_⟩
  · refine Classical.byContradiction fun hne => ?_
    obtain ⟨name, rfl, -⟩ := h loc hne
    exact hout (List.suffix_cons name d)
  · refine Classical.byContradiction fun hne => ?_
    obtain ⟨name, -, -, hnew⟩ := h loc fun heq => hne (heq ▸ hnode)
    obtain ⟨b, rfl⟩ := hnew node hnode
    cases halias

theorem not_isArtifact_of_mem {name : String} (h : name ∈ fileNames) : ¬ IsArtifact name := by
  have hnames : ∀ n ∈ fileNames, ¬ Artifact.inputs.toList <+: n.toList ∧
      n ∉ [Artifact.marker, Artifact.history, Artifact.backtrackFlag, Artifact.historyOld] := by
    decide +kernel
  obtain ⟨hinputs, hothers⟩ := hnames name h
  rintro ((⟨digits, -, -, hname⟩ | rfl | rfl) | rfl | rfl | rfl | rfl)
  · exact hinputs (hname ▸ List.prefix_append _ _)
  · exact hinputs (by decide)
  · exact hothers (by decide)
  · exact hinputs (List.prefix_refl _)
  iterate 3
    · exact hothers (by decide)

/-- Whatever it learns, a recorder that can write its files writes these and nothing else. -/
theorem writes_notify (h : Ready r.dir r.cwd S t) (e : Event) (c : Current) :
    Writes S t (r.notify e c t).2 := by
  have hmem : journalName ∈ fileNames := by decide
  have hmakes := h.makeFolders hmem hmem
  cases e with
  | complete outcome invocations =>
      exact (Recorder.notify_completed hmakes h outcome invocations c).1
  | _ => exact (Recorder.notify_told hmakes h rfl c).1

/-- **A recorder is discreet**: its files are no artifacts, and stay its own. -/
theorem discreet_recorder (hobs : s.observer = r.observer) :
    Discreet s fun t _ => ∃ place x, ReliesOn s r S place x t := by
  refine ⟨?_, ?_, ?_, ?_⟩
  · rintro e c t ⟨place, x, h⟩
    rw [hobs]
    have hw := writes_notify h.ready e c
    exact ⟨place, x, h.clear, h.minded.elsewhere (h.ready.keeps hw) fun loc hin =>
      hw.elsewhere loc fun n hn heq => (h.clear n hn).1 (heq ▸ hin),
      h.outside.writes (hw.without h.clear)⟩
  · rintro e c t ⟨place, x, h⟩
    rw [hobs]
    exact h.ready.keeps (writes_notify h.ready e c)
  · rintro e c t d name ⟨place, x, h⟩ - hname
    rw [hobs]
    refine (writes_notify h.ready e c).elsewhere _ fun n hn heq => ?_
    obtain ⟨rfl, -⟩ := List.cons.inj heq
    exact not_isArtifact_of_mem hn hname
  · rintro c t t' d ⟨place, x, h⟩ hreach hrewrites
    obtain rfl := h.minded.eq_of_reaches hreach
    have hchange := changesInside_of_rewrites hrewrites
    exact ⟨d, x, h.clear, h.minded.step hchange, h.outside.without h.clear hchange.outside⟩

/-- **A recorder that has recorded the start** finds what it relies on when the loop begins. -/
theorem Started.reliesOn {lock : Lock} {e : Loc} {name : String} {node : Option Node} {held : Tree}
    {w c : Current} {asked : Bool} (h : Started s r lock S e name node (startedTree s w held) c)
    (hdown : Path.IsDescent s.session.workDir)
    (hacquire : Lock.acquire s.host s.session.workDir t = (held, .ok lock)) :
    ∀ lock' seen x, Begins s asked w t lock' seen x →
      seen.WellFormed ∧ ∃ place x', ReliesOn s r S place x' x.tree := by
  rintro lock' seen x ⟨⟨held', hacquire', hnotify⟩, hreset, -⟩
  obtain ⟨rfl, hlock⟩ := Prod.mk.inj (hacquire.symm.trans hacquire')
  cases hlock
  obtain rfl : startedTree s w held = seen := congrArg Prod.snd hnotify
  refine ⟨h.wellFormed, ?_⟩
  obtain ⟨stem, hstem⟩ := hdown.fileName?
  rw [Setup.workspace] at hreset
  cases hplace : (startedTree s w held).place? s.host.cwd s.session.workDir with
  | none =>
    obtain ⟨cause, hfails⟩ := h.holds.owns.reset_unplaced
      (Lock.path_of_acquire hacquire) hstem hplace
    rw [hreset] at hfails
    cases congrArg Prod.snd hfails
  | some place =>
    obtain ⟨hclear, hapart, hready⟩ := h.beside place hplace
    have hsame := hapart.sameOutside_reset h.wellFormed hstem hplace
    rw [hreset] at hsame
    exact ⟨place, x, hclear, minded_of_reset h.wellFormed hstem hplace hapart hreset,
      hready.without hclear hsame⟩

end Recorder

/-! ## Whole runs -/

/-- The contents of an artifact after invocation `j`; there is none before the first. -/
def contentAfter (s : Setup σ) (trace : List Moment) (d : Loc) (name : String) (j : Nat) :
    Option ByteArray :=
  (leftBy s trace j).bind fun t => t.content d name

/-- The archive that `ended` has left in `d`. -/
structure KeepsArchive (s : Setup σ) (ended : Ended σ) (report : Report) (d : Loc) : Prop where
  /-- The working directory is `d` when an invocation finds it and when it leaves it. -/
  located : ∀ call before, (call, before) ∈ calls ended.trace →
    before.lookup s.host.cwd true s.session.workDir = .ok d ∧
      (s.executor.invoke call before).tree.lookup s.host.cwd true s.session.workDir = .ok d
  remains : ended.tree.isFolderAt d = true
  /-- After every invocation the archive is complete up to its number. -/
  always : ∀ m tree, leftBy s ended.trace m = some tree →
    Archived s.workspace tree d (contentAfter s ended.trace d Artifact.inputs)
      (contentAfter s ended.trace d Artifact.marker)
      (contentAfter s ended.trace d Artifact.history) m
  /-- It is complete at the end. -/
  atEnd : Archived s.workspace ended.tree d (contentAfter s ended.trace d Artifact.inputs)
    (contentAfter s ended.trace d Artifact.marker) (contentAfter s ended.trace d Artifact.history)
    report.iterations.length
  /-- The report counts the numbered archives. -/
  count : report.inputsArchived =
    {name | IsNumbered name ∧ ended.tree.content d name ≠ none}.ncard

theorem Archived.ncard_numbered {ws : Workspace} {t : Tree} {d : Loc}
    {inputs marker history : Nat → Option ByteArray} {k : Nat}
    (h : Archived ws t d inputs marker history k) :
    {name | IsNumbered name ∧ t.content d name ≠ none}.ncard =
      ((List.range k).filter fun j =>
        (if ws.HasRoom (Artifact.number (j + 1)) ∧ ws.callsSynthetic (marker j) = false
          then inputs j else none).isSome).length := by
  let found := (List.range k).filter fun j =>
    (if ws.HasRoom (Artifact.number (j + 1)) ∧ ws.callsSynthetic (marker j) = false
      then inputs j else none).isSome
  let names := found.map fun j => Artifact.number (j + 1)
  have hnodup : names.Nodup := by
    refine List.Nodup.map ?_ (List.nodup_range.filter _)
    intro i j hij
    have := Artifact.number_injective hij
    omega
  have hset : {name | IsNumbered name ∧ t.content d name ≠ none} =
      (names.toFinset : Set String) := by
    ext name
    simp only [Set.mem_ofPred_eq, Finset.mem_coe, List.mem_toFinset, names, found, List.mem_map,
      List.mem_filter, List.mem_range]
    constructor
    · rintro ⟨hname, hthere⟩
      obtain ⟨i, rfl⟩ := h.canonical name hname hthere
      rw [h.numbered i] at hthere
      by_cases hi : 1 ≤ i ∧ i ≤ k
      · obtain ⟨j, rfl⟩ : ∃ j, i = j + 1 := ⟨i - 1, by omega⟩
        refine ⟨j, ⟨by omega, Option.isSome_iff_ne_none.mpr ?_⟩, rfl⟩
        simpa [hi] using hthere
      · rw [if_neg fun hall => hi ⟨hall.1, hall.2.1⟩] at hthere
        exact absurd rfl hthere
    · rintro ⟨j, ⟨hj, hthere⟩, rfl⟩
      refine ⟨Artifact.isNumbered_number (j + 1), ?_⟩
      have hbounds : 1 ≤ j + 1 ∧ j + 1 ≤ k := by omega
      rw [h.numbered (j + 1)]
      simpa [hbounds] using Option.isSome_iff_ne_none.mp hthere
  rw [hset, Set.ncard_coe_finset, List.toFinset_card_of_nodup hnodup, List.length_map]

section Orderly

variable {s : Setup σ} {P : Tree → σ → Prop} {x : Stand σ} {d : Loc} {k : Nat}
  (h : Orderly s P x d k)
include h

theorem Orderly.inputsArchived (id : String) (outcome : Outcome) :
    Report.inputsArchived ⟨id, outcome, records s x k⟩ =
      ((List.range k).filter fun j =>
        (if s.workspace.HasRoom (Artifact.number (j + 1)) ∧
            s.workspace.callsSynthetic ((stand s x j).tree.content d Artifact.marker) = false
          then (stand s x j).tree.content d Artifact.inputs else none).isSome).length := by
  rw [Report.inputsArchived, records, List.filter_map, List.length_map]
  have hcopied : ∀ j ∈ List.range k, (roundAt s x j).inputs.numbered.isCopied = _ := fun j hj =>
    (h.roundKeeps (List.mem_range.mp hj)).copied
  rw [← List.filter_congr hcopied]
  simp only [Function.comp_def, Round.record]

theorem Orderly.contentAfter_eq {trace : List Moment} (hcalls : calls trace = callsOf s x k)
    (name : String) (hname : IsArtifact name) :
    ∀ j ≤ k, contentAfter s trace d name j = (stand s x j).tree.content d name := by
  intro j hj
  cases j with
  | zero =>
    rw [contentAfter, leftBy, hcalls, lookup_callsOf_zero]
    exact (h.fresh name hname).symm
  | succ j =>
    have hround := h.roundKeeps hj
    rw [contentAfter, leftBy_of_calls hcalls, if_pos (show j < k from hj), hround.kept name hname]
    rfl

theorem Orderly.released {lock : Lock} (hlock : lock.path = Lock.pathFor s.session.workDir)
    (outcome : Outcome) : (lock.release s.host (lastTree s x outcome k)).isFolderAt d = true ∧
      Archived s.workspace (lock.release s.host (lastTree s x outcome k)) d
        (fun j => (stand s x j).tree.content d Artifact.inputs)
        (fun j => (stand s x j).tree.content d Artifact.marker)
        (fun j => (stand s x j).tree.content d Artifact.history) k := by
  obtain ⟨hlast, hP⟩ := h.stand_settled k (Nat.le_refl k)
  obtain ⟨hsettled, hsame⟩ := h.observer.settled hlast hP (.complete outcome (UInt32.ofNat k))
  obtain ⟨hspared, hremains⟩ := release_spares hlock s.host d (lastTree s x outcome k)
  refine ⟨hremains hsettled.reaches.folder,
    (h.stand_archived k (Nat.le_refl k)).same fun name hname => ?_⟩
  rw [Tree.content_congr (hspared name (.inl hname)) (hsettled.not_shared (.inl hname))]
  exact hsame name (.inl hname)

end Orderly

/-- A session whose executor and observer keep to the rules is orderly from its reset on. -/
theorem Begins.orderly {s : Setup σ} {P : Tree → σ → Prop} {asked : Bool} {w : σ} {t seen : Tree}
    {lock : Lock} {x : Stand σ} (hbegin : Begins s asked w t lock seen x) (hform : seen.WellFormed)
    (hpath : Path.IsDescent s.session.workDir) (hobserver : Discreet s P) (hP : P x.tree x.watch)
    {k : Nat} (hbound : k < UInt32.size) {trace : List Moment}
    (hcalls : calls trace = callsOf s x k) (hexecutor : KeepsToFiles s trace) :
    ∃ d, Orderly s P x d k := by
  obtain ⟨d, hreach, hbare⟩ := Workspace.reset_bare hform hpath hbegin.resets
  obtain ⟨hsettled, hfresh⟩ := settled_of_bare hreach hbare
  refine ⟨d, hsettled, hfresh, hobserver, hP, fun j hj e hfind => ?_, hbound⟩
  refine hexecutor (j + 1) (roundAt s x j).before ?_ e hfind
  rw [hcalls]
  exact List.mem_map.mpr ⟨j, List.mem_range.mpr hj, rfl⟩

/-- **The archive of a session.**  A session that gives a report after `k` iterations has archived
    the inputs of each of them that were there and real under its number, and the latest inputs and
    the latest history beside them; no later iteration has touched an earlier archive.  The only
    archives that are not made are those whose paths are too long for the system.  The observer may
    rely on anything that holds when the loop begins and that it keeps itself. -/
theorem run_keeps_archive (s : Setup σ) (asked : Bool) (w : σ) (t : Tree) (report : Report)
    (P : Tree → σ → Prop) (hresult : (run s asked w t).result = .ok report)
    (hpath : Path.IsDescent s.session.workDir)
    (hstart : ∀ lock seen x, Begins s asked w t lock seen x → seen.WellFormed ∧ P x.tree x.watch)
    (hobserver : Discreet s P) (hexecutor : KeepsToFiles s (run s asked w t).trace) :
    ∃ d, KeepsArchive s (run s asked w t) report d := by
  obtain ⟨lock, seen, x, hbegin⟩ := begins_of_ok hresult
  obtain ⟨hform, hP⟩ := hstart lock seen x hbegin
  obtain ⟨outcome, k, hk, rfl, htrace, htree⟩ := hbegin.completed hresult
  generalize run s asked w t = ended at hexecutor htrace htree ⊢
  have hcalls : calls ended.trace = callsOf s x k := by
    rw [htrace, calls_ended]
  obtain ⟨d, horder⟩ := hbegin.orderly hform hpath hobserver hP
    (Nat.lt_of_le_of_lt hk (UInt32.toNat_lt_size _)) hcalls hexecutor
  -- the contents after the invocations are those that the rounds find
  have hinputs := horder.contentAfter_eq hcalls Artifact.inputs (.inr (.inl rfl))
  have hmarkers := horder.contentAfter_eq hcalls Artifact.marker (.inr (.inr (.inl rfl)))
  have hhistory := horder.contentAfter_eq hcalls Artifact.history (.inr (.inr (.inr (.inl rfl))))
  have htold : ∀ {tree : Tree} {n : Nat}, n ≤ k →
      Archived s.workspace tree d (fun j => (stand s x j).tree.content d Artifact.inputs)
        (fun j => (stand s x j).tree.content d Artifact.marker)
        (fun j => (stand s x j).tree.content d Artifact.history) n →
      Archived s.workspace tree d (contentAfter s ended.trace d Artifact.inputs)
        (contentAfter s ended.trace d Artifact.marker)
        (contentAfter s ended.trace d Artifact.history) n := fun hn harchived =>
    harchived.congr (fun j hj => (hinputs j (by omega)).symm)
      (fun j hj => (hmarkers j (by omega)).symm) (fun j hj => (hhistory j (by omega)).symm)
  have hround : ∀ j < k, RoundKeeps s x d j := fun j hj => horder.roundKeeps hj
  obtain ⟨⟨held, hacquire, -⟩, -, -⟩ := hbegin
  obtain ⟨hremains, hend⟩ := horder.released (Lock.path_of_acquire hacquire) outcome
  rw [← htree] at hremains hend
  refine ⟨d, ⟨fun call before hmem => ?_, hremains, fun m tree hleft => ?_, ?_, ?_⟩⟩
  · rw [hcalls] at hmem
    obtain ⟨j, hj, heq⟩ := List.mem_map.mp hmem
    cases heq
    have hkeeps := hround j (List.mem_range.mp hj)
    exact ⟨hkeeps.before.reaches.lookup, hkeeps.replied.reaches.lookup⟩
  · cases m with
    | zero =>
      rw [leftBy, hcalls, lookup_callsOf_zero] at hleft
      cases hleft
    | succ j =>
      rw [leftBy_of_calls hcalls] at hleft
      split at hleft
      · rename_i hj
        cases hleft
        have harchived := horder.stand_archived j (Nat.le_of_lt hj)
        have hbefore := harchived.step (hround j hj).archives rfl rfl rfl
        exact htold hj (hbefore.same (hround j hj).spared)
      · cases hleft
  · rw [length_records]
    exact htold (Nat.le_refl k) hend
  · rw [horder.inputsArchived, hend.ncard_numbered]

/-- A silent observer relies on nothing, and finds a well-formed tree. -/
theorem starts_scriptedSession {workDir : String} {budget : UInt32}
    {script : Nat → List (String × Option ByteArray)} {t : Tree} (hform : t.WellFormed)
    {asked : Bool} :
    ∀ lock seen x, Begins (scriptedSession workDir budget script) asked () t lock seen x →
      seen.WellFormed ∧ True := by
  rintro lock seen x ⟨⟨held, hacquire, hnotify⟩, -, -⟩
  have hheld := Lock.wellFormed_acquire hform hacquire
  obtain rfl : held = seen := congrArg Prod.snd hnotify
  exact ⟨hheld, trivial⟩

theorem report_of_count {r : Except Failure Report} {n m : Nat}
    (h : r.toOption.map (fun report => (report.iterations.length, report.inputsArchived)) =
      some (n, m)) :
    ∃ report, r = .ok report ∧ report.iterations.length = n ∧ report.inputsArchived = m := by
  cases r with
  | error cause => cases h
  | ok report => exact ⟨report, rfl, Prod.mk.inj (Option.some.inj h)⟩

/-- One run without an observer, and one that is recorded. -/
theorem mixedScript_keeps_archive :
    (∃ report d,
      (run (scriptedSession "w" 4 mixedScript) false () Tree.empty).result = .ok report ∧
      report.iterations.length = 4 ∧ report.inputsArchived = 1 ∧
      KeepsArchive (scriptedSession "w" 4 mixedScript)
        (run (scriptedSession "w" 4 mixedScript) false () Tree.empty) report d) ∧
    ∃ report d,
      (recordedRun (scriptedSession "s/w" 4 mixedScript) stateRecorder recordedTree).result =
        .ok report ∧
      report.iterations.length = 4 ∧ report.inputsArchived = 1 ∧
      KeepsArchive (recorded (scriptedSession "s/w" 4 mixedScript) stateRecorder)
        (recordedRun (scriptedSession "s/w" 4 mixedScript) stateRecorder
          recordedTree) report d := by
  constructor
  · obtain ⟨report, hresult, hlength, harchived⟩ := report_of_count
      (show (run (scriptedSession "w" 4 mixedScript) false () Tree.empty).result.toOption.map
        (fun report => (report.iterations.length, report.inputsArchived)) = some (4, 1) by
          decide +kernel)
    obtain ⟨d, hkeeps⟩ := run_keeps_archive _ false () Tree.empty report (fun _ _ => True) hresult
      ⟨⟨"w", by decide, by decide⟩, by decide⟩ (starts_scriptedSession Tree.wellFormed_empty)
      discreet_scriptedSession (keepsToFiles_scriptedSession not_isArchive_mixedScript _)
    exact ⟨report, d, hresult, hlength, harchived, hkeeps⟩
  · obtain ⟨report, hresult, hlength, harchived⟩ := report_of_count
      (show (recordedRun (scriptedSession "s/w" 4 mixedScript) stateRecorder
          recordedTree).result.toOption.map
        (fun report => (report.iterations.length, report.inputsArchived)) = some (4, 1) by
          decide +kernel)
    have hdown : Path.IsDescent "s/w" := ⟨⟨"w", by decide, by decide⟩, by decide⟩
    have hacquire : Lock.acquire loneHost "s/w" recordedTree =
        (lockedRecordedTree, .ok ⟨"s/w.lock"⟩) := Lock.acquire_of_toOption (by decide +kernel)
    have hplace : (recordedStart (scriptedSession "s/w" 4 mixedScript) stateRecorder
        lockedRecordedTree).place? [] "s/w" = some ["w", "s"] := by decide +kernel
    have hclear : Clear ["w", "s"] ["state"] := by
      rw [Clear]
      decide
    obtain ⟨-, e, name, hstarted⟩ := started_of_writable "now"
      (s := recorded (scriptedSession "s/w" 4 mixedScript) stateRecorder) rfl
      wellFormed_recordedTree hdown hacquire writable_recordedTree
      (fun place hplace' => Option.some.inj (hplace.symm.trans hplace') ▸ hclear)
      (.inl ⟨linkFree_recordedTree, by decide⟩)
    obtain ⟨d, hkeeps⟩ := run_keeps_archive
      (recorded (scriptedSession "s/w" 4 mixedScript) stateRecorder) false
      (Recorder.pending _ "now")
      recordedTree report _ hresult hdown (hstarted.reliesOn hdown hacquire) (discreet_recorder rfl)
      (keepsToFiles_scriptedSession not_isArchive_mixedScript _)
    exact ⟨report, d, hresult, hlength, harchived, hkeeps⟩

/-! ## Paths that are too long -/

/-- Inputs and a history that the first invocation leaves and that stay. -/
def firstInputs : Nat → List (String × Option ByteArray)
  | 1 => [(Artifact.inputs, some "v".toUTF8), (Artifact.history, some "h".toUTF8)]
  | _ => []

/-- A session of two invocations in the directory `w`, with `n` slashes after its name. -/
def slashedSession (n : Nat) : Setup Unit := scriptedSession (Path.slashed "w" n) 2 firstInputs

theorem not_isArchive_firstInputs : ∀ n, ∀ change ∈ firstInputs n, ¬ IsArchive change.1 := by
  intro n change hmem
  refine not_isArchive ?_
  unfold firstInputs at hmem
  split at hmem
  · rcases List.mem_pair.mp hmem with rfl | rfl <;> simp
  · cases hmem

/-- The tree in which the lock of the directory is held. -/
def lockedTree : Tree := Tree.empty.put ["w.lock"] (.file ⟨"7".toUTF8, false⟩)

/-- Where the session begins, once its directory is made. -/
def madeStand : Stand Unit := ⟨lockedTree.put ["w"] .folder, (), false⟩

theorem nul_not_mem_slashed (n : Nat) : '\x00' ∉ (Path.slashed "w" n).toList := by
  induction n with
  | zero => decide
  | succ n ih =>
    rw [Path.toList_slashed_succ]
    simp [ih]

theorem names_slashed {n : Nat} (h : n + 1 ≤ Tree.maxPath) :
    lockedTree.Names [] (Path.slashed "w" n) [] "w" := by
  have hsize : (Path.slashed "w" n).utf8ByteSize ≤ Tree.maxPath := by
    rw [Path.utf8ByteSize_slashed, show "w".utf8ByteSize = 1 by decide]
    omega
  have hne : Path.slashed "w" n ≠ "" := fun hempty =>
    Path.toList_slashed_ne_nil (p := "w") (by decide) n (by rw [hempty]; rfl)
  refine ⟨?_, rfl, ⟨by decide, by decide, by decide⟩, [], ?_, 0, Nat.zero_le _, ?_⟩
  · rw [Tree.checkText]
    simp [nul_not_mem_slashed n, hne, hsize]
  · rw [Path.steps_slashed]
    decide
  · rw [Tree.start, Path.isAbsolute_slashed (by decide)]
    exact .nil _

theorem isDescent_slashed (n : Nat) : Path.IsDescent (Path.slashed "w" n) := by
  have hsteps : (Path.route (Path.slashed "w" n)).steps = ["w"] := by
    rw [Path.steps_slashed]
    decide
  exact ⟨⟨"w", by rw [hsteps]; decide, by decide⟩, by rw [hsteps]; decide⟩

theorem pathFor_slashed_w (n : Nat) : Lock.pathFor (Path.slashed "w" n) = "w.lock" :=
  Lock.pathFor_slashed (by decide) (show Path.fileName? "w" = some "w" by decide)
    (show Path.parent? "w" = some "" by decide) n

theorem begins_slashedSession {n : Nat} (h : n + 1 ≤ Tree.maxPath) :
    Begins (slashedSession n) false () Tree.empty ⟨"w.lock"⟩ lockedTree madeStand := by
  have hpath := pathFor_slashed_w n
  have hprepare : Lock.prepare loneHost Tree.empty "w.lock" = (Tree.empty, .ok ()) :=
    Lock.prepare_of_parent (by decide)
  have hcreate : Lock.create loneHost Tree.empty "w.lock" = (lockedTree, .ok ()) := by
    decide +kernel
  rw [← hpath] at hprepare hcreate
  have hacquire := Lock.acquire_of_create hprepare hcreate
  rw [hpath] at hacquire
  have hreset : (slashedSession n).workspace.reset [] lockedTree = (madeStand.tree, .ok ()) :=
    Workspace.reset_of_missing (names_slashed h) (by decide) (by decide)
  exact ⟨⟨lockedTree, hacquire, rfl⟩, hreset, rfl⟩

theorem content_firstInputs {d : Loc} {t : Tree} (hd : t.node? d = some .folder)
    (hfree : ∀ name, IsArtifact name → t.IsSlot (name :: d)) :
    ((firstInputs 1).foldl (edit d) t).content d Artifact.inputs = some "v".toUTF8 ∧
      ((firstInputs 1).foldl (edit d) t).content d Artifact.history = some "h".toUTF8 := by
  let t₁ := edit d t (Artifact.inputs, some "v".toUTF8)
  have hne : Artifact.history :: d ≠ Artifact.inputs :: d := by
    simp [Artifact.history, Artifact.inputs]
  have hd₁ : t₁.node? d = some .folder := by
    rw [(changesFilesIn_edit d t (not_isArchive (by simp))).node?_dir, hd]
  have hfree₁ : t₁.IsSlot (Artifact.history :: d) := by
    rw [Tree.IsSlot, node?_edit_ne _ hne]
    exact hfree _ (.inr (.inr (.inr (.inl rfl))))
  have hinputs := node?_edit hd (hfree _ (.inr (.inl rfl))) "v".toUTF8
  rw [← node?_edit_ne (Artifact.history, some "h".toUTF8) hne.symm] at hinputs
  have hhistory := node?_edit hd₁ hfree₁ "h".toUTF8
  exact ⟨Tree.content_file hinputs, Tree.content_file hhistory⟩

theorem hasRoom_slashed (n : Nat) {name : String} (h : Path.IsPlain name) :
    (Workspace.mk (Path.slashed "w" (n + 1))).HasRoom name ↔
      n + 2 + name.utf8ByteSize ≤ Tree.maxPath := by
  rw [Workspace.HasRoom, Workspace.artifact, Path.join_slashed _ _ h, String.utf8ByteSize_append,
    Path.utf8ByteSize_slashed, show "w".utf8ByteSize = 1 by decide]
  omega

/-- The first round leaves inputs, and a history that asks for a second one. -/
theorem slashedSession_first_round {n k : Nat} {x : Stand Unit}
    {P : Tree → Unit → Prop} (h : Orderly (slashedSession (n + 1)) P x ["w"] k) (hk : 0 < k)
    (hd : x.tree.node? ["w"] = some .folder) (hroom : n + 9 ≤ Tree.maxPath) :
    (stand (slashedSession (n + 1)) x 1).tree.content ["w"] Artifact.inputs = some "v".toUTF8 ∧
      ((roundAt (slashedSession (n + 1)) x 0).signal (slashedSession (n + 1))).continues =
      true := by
  have hround := h.roundKeeps hk
  let before := (roundAt (slashedSession (n + 1)) x 0).before
  have hbefore : before.node? ["w"] = some .folder := hround.archives.keeps _ _ hd rfl
  have hfree : ∀ name, IsArtifact name → before.IsSlot [name, "w"] := by
    intro name hname node hnode
    rcases hround.before.plain hname hnode with ⟨-, hfile⟩ | ⟨hsealed, -⟩
    · exact hfile
    · rw [hbefore] at hsealed
      cases hsealed
  have hreply : (roundAt (slashedSession (n + 1)) x 0).reply.tree =
      (firstInputs 1).foldl (edit ["w"]) before :=
    tree_invoke_scriptedSession 2 firstInputs 1 hround.before.reaches.lookup
  obtain ⟨hinputs, hhistory⟩ := content_firstInputs hbefore hfree
  rw [← hreply] at hinputs hhistory
  refine ⟨hround.kept _ (.inr (.inl rfl)) ▸ hinputs, ?_⟩
  have hplain : Artifact.IsUsable Artifact.history := Artifact.isUsable_of_mem (by simp)
  have hfits : (slashedSession (n + 1)).workspace.Fits Artifact.history :=
    ⟨hplain, (hasRoom_slashed n hplain.plain).mpr hroom⟩
  obtain ⟨-, b, hfile, -⟩ := hround.replied.file_of_content (.inr (.inr (.inr (.inl rfl)))) hhistory
  have hfind := (hround.replied.names hfits).lookup_some hfits.slash hfile (by simp) true
  rw [Signal.continues, Bool.or_eq_true]
  left
  show (roundAt (slashedSession (n + 1)) x 0).reply.tree.isFile _ _ = true
  rw [Tree.isFile, hfind]
  simp only [Tree.blob?, hfile]
  rfl

/-- A session in a directory whose path is nearly as long as the system allows loses its latest
    inputs: there is room for the history, which asks for a second iteration, but not for the
    archive. -/
theorem slashedSession_loses {n : Nat} (hhistory : n + 9 ≤ Tree.maxPath)
    (harchive : Tree.maxPath < n + 12) : ∃ report,
      (run (slashedSession (n + 1)) false () Tree.empty).result = .ok report ∧
      report.iterations.length = 2 ∧
      contentAfter (slashedSession (n + 1)) (run (slashedSession (n + 1)) false () Tree.empty).trace
        ["w"] Artifact.inputs 1 = some "v".toUTF8 ∧
      (run (slashedSession (n + 1)) false () Tree.empty).tree.content
      ["w"] Artifact.inputsOld = none := by
  have hbegin := begins_slashedSession (show n + 1 + 1 ≤ Tree.maxPath by omega)
  obtain ⟨m, outcome, last, hcomp, hresult, htrace⟩ := completed_of_willing
    (show 1 ≤ (2 : UInt32).toNat by decide) (fun _ _ => ⟨some 0, rfl⟩) (fun _ _ => rfl) hbegin
  obtain ⟨outcome', k, -, hreport, -, htree⟩ := hbegin.completed hresult
  have hbudget : m < 2 := hcomp.within
  have hcalls : calls (run (slashedSession (n + 1)) false () Tree.empty).trace =
      callsOf (slashedSession (n + 1)) madeStand (m + 1) := by
    rw [htrace, calls_ended]
  obtain ⟨d, horder⟩ := hbegin.orderly (starts_scriptedSession Tree.wellFormed_empty _ _ _ hbegin).1
    (isDescent_slashed (n + 1)) discreet_scriptedSession trivial
    (Nat.lt_of_le_of_lt hbudget (by decide)) hcalls
    (keepsToFiles_scriptedSession not_isArchive_firstInputs _)
  -- the directory is the one that the reset has made
  have hfolder : madeStand.tree.node? ["w"] = some .folder := by decide
  have hkeeps : Tree.Keeps lockedTree madeStand.tree :=
    Tree.keeps_put .folder fun old hold => by cases hold
  have hnames := (names_slashed (show n + 1 + 1 ≤ Tree.maxPath by omega)).mono hkeeps
  obtain rfl : d = ["w"] := horder.settled.reaches.unique
    (hnames.reaches (by rw [Tree.isFolderAt, hfolder]; rfl))
  obtain ⟨hinputs, hcontinues⟩ := slashedSession_first_round horder
    (Nat.succ_pos m) hfolder hhistory
  obtain rfl : m = 1 := by
    refine Classical.byContradiction fun hne => ?_
    obtain rfl : m = 0 := by omega
    rcases hcomp.ends with ⟨-, hquiet⟩ | ⟨-, -, hspent⟩
    · rw [hcontinues] at hquiet
      cases hquiet
    · exact absurd (show 0 + 1 = (2 : UInt32).toNat from hspent) (by decide)
  obtain rfl : k = 2 := by
    have hlength := congrArg (fun report : Report => report.iterations.length) hreport
    simpa [length_records] using hlength.symm
  refine ⟨_, hresult, length_records _ _ _, ?_, ?_⟩
  · rw [horder.contentAfter_eq hcalls _ (.inr (.inl rfl)) 1 (by omega), hinputs]
  · have hnoroom : ¬ (slashedSession (n + 1)).workspace.HasRoom Artifact.inputsOld := by
      have hplain := (Artifact.isUsable_of_mem (show Artifact.inputsOld ∈ _ by simp)).plain
      intro hroom
      have hle := (hasRoom_slashed n hplain).mp hroom
      have hsize : Artifact.inputsOld.utf8ByteSize = 10 := by decide
      omega
    have hend := (horder.released (pathFor_slashed_w (n + 1)).symm outcome').2.inputsOld
    rw [KeepsLatest, if_neg hnoroom] at hend
    rw [htree]
    exact hend

/-- **The latest inputs are lost** where there is no room for the path of their archive, although
    the session keeps to all rules. -/
theorem slashedSession_loses_latest_inputs :
    Path.IsDescent (slashedSession 4087).session.workDir ∧
      Discreet (slashedSession 4087) (fun _ _ => True) ∧
      KeepsToFiles (slashedSession 4087) (run (slashedSession 4087) false () Tree.empty).trace ∧
      ∃ report, (run (slashedSession 4087) false () Tree.empty).result = .ok report ∧
        report.iterations.length = 2 ∧
        contentAfter (slashedSession 4087)
          (run (slashedSession 4087) false () Tree.empty).trace ["w"]
          Artifact.inputs 1 = some "v".toUTF8 ∧
        (run (slashedSession 4087) false () Tree.empty).tree.content
        ["w"] Artifact.inputsOld = none :=
  ⟨isDescent_slashed 4087, discreet_scriptedSession,
    keepsToFiles_scriptedSession not_isArchive_firstInputs _,
    slashedSession_loses (n := 4086) (by decide) (by decide)⟩

end Concolic.Run
