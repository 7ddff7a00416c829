import Concolic.Proofs.Holding
import Concolic.Proofs.Recorder

/-
  The state directory during a run.

  Each event but the last leaves the record of the session as the recorder knows it and the journal
  as it was (`Logged`).  The directory stays ready because nobody else writes to its files: the
  executor keeps to the working directory, from which the state directory and the ways to it are
  clear, and the lock file has another name.
-/

namespace Concolic

namespace Recorder

open StateDir (IsJournal Ready Recorded Writes currentName fileNames journalName)

variable {r : Recorder} {S place : Loc} {session : Session} {node : Option Node} {t t' : Tree}
  {c : Current} {e : Event}

/-! ## One event -/

/-- The recorder has recorded the session as it knows it, and has left the journal alone. -/
structure Logged (r : Recorder) (S : Loc) (session : Session) (node : Option Node) (t : Tree)
    (c : Current) : Prop where
  ready : Ready r.dir r.cwd S t
  recorded : Recorded S c t
  journal : t.node? (journalName :: S) = node
  id : c.sessionId = session.id
  entryPoint : c.entryPoint = session.entryPoint

theorem Logged.makes (h : Logged r S session node t c) :
    t.makeFolders r.cwd r.dir.root = (t, .ok ()) := by
  have hmem : journalName ∈ fileNames := by decide
  exact h.ready.makeFolders hmem hmem

/-- **An event before the end** is recorded, and nothing else changes. -/
theorem Logged.told (h : Logged r S session node t c) (he : isComplete e = false) :
    Writes S t (r.notify e c t).2 ∧
      Logged r S session node (r.notify e c t).2 (r.notify e c t).1 := by
  obtain ⟨hw, hrecorded, hjournal⟩ := notify_told h.makes h.ready he c
  rw [notify_fst]
  exact ⟨hw, h.ready.writes hw, hrecorded, hjournal.trans h.journal,
    (sessionId_update c e).trans h.id, (entryPoint_update c e).trans h.entryPoint⟩

/-- **The end of a complete session** is in the journal, and its record is gone. -/
theorem Logged.completed (h : Logged r S session node t c) {text : String} (hj : IsJournal S text t)
    (outcome : Outcome) (invocations : UInt32) :
    Writes S t (r.notify (.complete outcome invocations) c t).2 ∧
      IsJournal S (StateDir.kept text ++ (r.entry c outcome invocations).encode ++ "\n")
        (r.notify (.complete outcome invocations) c t).2 ∧
      (r.notify (.complete outcome invocations) c t).2.node? (currentName :: S) = none := by
  obtain ⟨hw, hcurrent, hjournal⟩ := notify_completed h.makes h.ready outcome invocations c
  exact ⟨hw, hjournal text hj (h.ready.journalText (by decide) hj), hcurrent⟩

theorem Logged.frame (h : Logged r S session node t c) (hclear : StateDir.Clear place S)
    (hready : Ready r.dir r.cwd S (t.without place)) (hsame : Tree.SameOutside place t t') :
    Logged r S session node t' c := by
  have hfile : ∀ name ∈ fileNames, t'.node? (name :: S) = t.node? (name :: S) := fun name hname =>
    hsame _ (hclear name hname).1
  obtain ⟨b, hcurrent, hbytes⟩ := h.recorded
  exact ⟨hready.of_without hclear hsame, ⟨b, (hfile _ (by decide)).trans hcurrent, hbytes⟩,
    (hfile _ (by decide)).trans h.journal, h.id, h.entryPoint⟩

/-! ## The first event -/

/-- A state directory that can be written to: it is there or can be made, its files are free or
    regular files, and the journal is a text of whole lines. -/
structure Writable (r : Recorder) (S : Loc) (text : String) (t made : Tree) : Prop where
  makes : t.makeFolders r.cwd r.dir.root = (made, .ok ())
  names : ∀ name ∈ fileNames, made.Names r.cwd (r.dir.file name) S name
  folder : made.node? S = some .folder
  slots : ∀ name ∈ fileNames, made.IsSlot (name :: S)
  journal : IsJournal S text made
  lines : text = "" ∨ ∃ init, text.toList = init ++ ['\n']

theorem writable_of_found {text : String}
    (hfind : (t.lookup r.cwd true r.dir.root).toOption = some S)
    (hfolder : t.node? S = some .folder)
    (hroom : ∀ name ∈ fileNames, (r.dir.file name).utf8ByteSize ≤ Tree.maxPath)
    (hslots : ∀ name ∈ fileNames, t.IsSlot (name :: S)) (hjournal : IsJournal S text t)
    (hlines : text = "" ∨ ∃ init, text.toList = init ++ ['\n']) : Writable r S text t t := by
  have hnames : ∀ name ∈ fileNames, t.Names r.cwd (r.dir.file name) S name := fun name hname =>
    StateDir.names_of_found hfind hfolder hname (hroom name hname)
  have hmem : journalName ∈ fileNames := by decide
  exact ⟨StateDir.makeFolders_of_names (hnames _ hmem) hmem, hnames, hfolder, hslots,
    hjournal, hlines⟩

theorem Writable.opens {text : String} {made : Tree} (h : Writable r S text t made) :
    StateDir.Opens fileNames r.dir r.cwd S t made := ⟨h.makes, h.names, h.folder, h.slots⟩

/-- **The first event** makes the directory and records the session. -/
theorem Writable.told {text : String} {made : Tree} (h : Writable r S text t made)
    (hform : t.WellFormed) (he : isComplete e = false) (hid : c.sessionId = session.id)
    (hentry : c.entryPoint = session.entryPoint) :
    Writes S made (r.notify e c t).2 ∧
      Logged r S session (made.node? (journalName :: S)) (r.notify e c t).2 (r.notify e c t).1 := by
  have hready := h.opens.serves hform
  obtain ⟨hw, hrecorded, hjournal⟩ := notify_told h.makes hready he c
  rw [notify_fst]
  exact ⟨hw, hready.writes hw, hrecorded, hjournal, (sessionId_update c e).trans hid,
    (entryPoint_update c e).trans hentry⟩

end Recorder

namespace Lock

open StateDir (Ready Writes fileNames)

variable {h : Host} {t t' : Tree} {lock : Lock} {workDir name : String} {d cwd S : Loc}
  {dir : StateDir}

/-! ## The lock file and the state directory -/

section Holds

variable (hh : Holds h t lock d name) (hpath : lock.path = pathFor workDir)
include hh hpath

theorem Holds.ne_file : ∀ n ∈ fileNames, name :: d ≠ n :: S := by
  have hsuffix : ∀ n ∈ fileNames, ¬ ".lock".toList <:+ n.toList := by decide +kernel
  rintro n hn heq
  have hnames := hh.owns.names
  rw [hpath] at hnames
  obtain ⟨stem, rfl⟩ := name_of_pathFor hnames
  obtain ⟨rfl, -⟩ := List.cons.inj heq
  refine hsuffix _ hn ?_
  rw [String.toList_append]
  exact List.suffix_append _ _

theorem Holds.writes (hready : Ready dir cwd S t) (hw : Writes S t t') : Holds h t' lock d name :=
  hh.mono (hready.keeps hw) (hw.elsewhere _ (hh.ne_file hpath))

theorem Holds.ready_release (hready : Ready dir cwd S t) :
    Ready dir cwd S (lock.release h t) ∧
      ∀ n ∈ fileNames, (lock.release h t).node? (n :: S) = t.node? (n :: S) := by
  rw [release_of_file hh.owns.names hh.owns.slash hh.owns.file]
  have hne : ∀ n ∈ fileNames, ∀ loc, n :: S <:+ loc → loc ≠ name :: d := by
    rintro n hn loc hin rfl
    have hbelow : Tree.isBelow (n :: S) (name :: d) = true := by
      simp [Tree.isBelow, hin, Ne.symm (hh.ne_file hpath n hn)]
    have hnone := hready.leaves n hn _ hbelow
    rw [hh.owns.file] at hnone
    cases hnone
  refine ⟨hready.transfer (Tree.keeps_erase fun old hold => ?_) fun n hn loc hin =>
    Tree.node?_erase_ne t (hne n hn loc hin), fun n hn =>
    Tree.node?_erase_ne t (hne n hn _ (List.suffix_refl _))⟩
  rw [hh.owns.file] at hold
  cases hold
  rfl

end Holds

theorem Takes.node?_slot {held : Tree} {n : String} (htakes : Takes h workDir t held d name)
    (hne : name :: d ≠ n :: S) (hslot : held.IsSlot (n :: S)) :
    held.node? (n :: S) = t.node? (n :: S) := by
  have hprepared := htakes.elsewhere _ (Ne.symm hne)
  have hslot' : (prepare h t (pathFor workDir)).1.IsSlot (n :: S) := by
    rwa [Tree.IsSlot, ← hprepared]
  rw [hprepared, hslot'.node?_of_adds (adds_prepare h t (pathFor workDir))]

end Lock

namespace Run

open Recorder (Logged Writable isComplete update)
open StateDir (Clear IsJournal Ready Recorded Writes currentName fileNames journalName kept)
open Concolic.Lock (Apart Holds)

/-! ## The loop -/

/-- The number of iterations that have ended. -/
def roundsOf (trace : List Moment) : Nat :=
  trace.countP fun
    | .event (.iterationEnd _ _ _ _) _ => true
    | _ => false

theorem roundsOf_moments {σ : Type} (s : Setup σ) (x : Stand σ) (n : Nat) :
    roundsOf (moments s x n) = n := by
  induction n with
  | zero => rfl
  | succ n ih =>
    rw [moments_succ, roundsOf, List.countP_append]
    exact congrArg (· + 1) ih

theorem roundsOf_past {σ : Type} (s : Setup σ) (x : Stand σ) (seen : Tree) (n : Nat)
    (rest : List Moment) :
    roundsOf (prologue s seen ++ moments s x n ++ rest) = n + roundsOf rest := by
  have hmoments := roundsOf_moments s x n
  rw [roundsOf] at hmoments ⊢
  rw [List.countP_append, List.countP_append, hmoments]
  exact congrArg (· + _) (Nat.zero_add n)

section Logging

variable {s : Setup Current} {r : Recorder} {S d place : Loc} {node : Option Node} {t : Tree}
  {c : Current} {x : Stand Current} {lock : Lock} {name : String}

theorem not_isComplete_of_isLap {e : Event} (h : isLap e = true) : isComplete e = false := by
  cases e with
  | complete => cases h
  | _ => rfl

section Recorded

variable (hobs : s.observer = r.observer)
include hobs

theorem upkeep_logged (hclear : Clear place S)
    (hexec : StaysInside s place) (hout : ¬ place <:+ name :: d)
    (hfile : ∀ n ∈ fileNames, name :: d ≠ n :: S) (hminded : Minded s x place x.tree)
    (hheld : Holds s.host x.tree lock d name) (hlogged : Logged r S s.session node x.tree x.watch)
    (hready : Ready r.dir r.cwd S (x.tree.without place)) :
    Upkeep s x place fun t c =>
      t.node? (name :: d) = some (.file (Lock.ownerBlob s.host.pid)) ∧
        Logged r S s.session node t c ∧ Ready r.dir r.cwd S (t.without place) := by
  refine ⟨hminded, ⟨hheld.owns.file, hlogged, hready⟩, hexec, ?_, ?_⟩
  · rintro t t' c hchange ⟨hlock, hlog, hrd⟩
    exact ⟨(hchange.outside _ hout).trans hlock, hlog.frame hclear hrd hchange.outside,
      hrd.without hclear hchange.outside⟩
  · rintro e c t hlap hmind ⟨hlock, hlog, hrd⟩
    rw [hobs]
    obtain ⟨hw, hlog'⟩ := hlog.told (not_isComplete_of_isLap hlap)
    refine ⟨hmind.elsewhere (hlog.ready.keeps hw) fun loc hin => ?_,
      (hw.elsewhere _ hfile).trans hlock, hlog', hrd.writes (hw.without hclear)⟩
    exact hw.elsewhere loc fun n hn heq => (hclear n hn).1 (heq ▸ hin)

/-! ## The end -/

/-- The journal entry of a session that has returned `report`. -/
structure IsEntryOf (s : Setup Current) (report : Report) (trace : List Moment) (entry : Finished) :
    Prop where
  id : entry.sessionId = s.session.id
  entryPoint : entry.entryPoint = s.session.entryPoint
  invocations : entry.invocations.toNat = (calls trace).length
  outcome : entry.outcome = report.outcome.text

/-- The session is no longer recorded as running, and its entry is the one line that is added to
    what is kept of the journal `text`. -/
structure Journalled (s : Setup Current) (r : Recorder) (text : String) (report : Report)
    (ended : Ended Current) : Prop where
  removed : r.dir.current? r.cwd ended.tree = none
  added : ∃ line entry, Finished.decode? line = some entry ∧
    IsEntryOf s report ended.trace entry ∧
    ended.tree.readText r.cwd (r.dir.file journalName) = .ok (kept text ++ line ++ "\n") ∧
    Text.lines (kept text ++ line ++ "\n").toList = Text.lines (kept text).toList ++ [line.toList]

/-- The journal is what it was, and the session is recorded as aborted in iteration `i`. -/
structure LeftAborted (s : Setup Current) (r : Recorder) (S : Loc) (node : Option Node)
    (cause : Failure) (i : Nat) (ended : Ended Current) : Prop where
  journal : ended.tree.node? (journalName :: S) = node
  recorded : ∃ c, r.dir.current? r.cwd ended.tree = some c ∧ c.sessionId = s.session.id ∧
    c.status = "aborted: " ++ cause.message ∧ c.iteration.toNat = i

theorem tree_endedBy (result : Except Failure Report) (past : List Moment) (e : Event) :
    (endedBy s lock result past e t c).tree = lock.release s.host (r.notify e c t).2 := by
  rw [endedBy, hobs]
  rfl

theorem leftAborted_endedBy
    (hpath : lock.path = Lock.pathFor s.session.workDir) (hlog : Logged r S s.session node t c)
    (hheld : Holds s.host t lock d name) (past : List Moment) (cause : Failure)
    {i : UInt32} {n : Nat} (hi : i.toNat = n) :
    LeftAborted s r S node cause n
      (endedBy s lock (.error cause) past (.aborted i cause.message) t c) := by
  obtain ⟨hw, hlog'⟩ := hlog.told (e := .aborted i cause.message) rfl
  obtain ⟨hready, hsame⟩ := (hheld.writes hpath hlog.ready hw).ready_release hpath hlog'.ready
  constructor
  · rw [tree_endedBy hobs, hsame _ (by decide)]
    exact hlog'.journal
  · obtain ⟨b, hfile, hbytes⟩ := hlog'.recorded
    rw [tree_endedBy hobs]
    exact ⟨update c (.aborted i cause.message),
      hready.current?_of_recorded (by decide) ⟨b, (hsame _ (by decide)).trans hfile, hbytes⟩,
      hlog'.id, rfl, hi⟩

theorem journalled_endedBy
    (hpath : lock.path = Lock.pathFor s.session.workDir) (hlog : Logged r S s.session node t c)
    (hheld : Holds s.host t lock d name) {text : String} (hj : IsJournal S text t)
    (htext : text = "" ∨ ∃ init, text.toList = init ++ ['\n']) (report : Report)
    {past : List Moment} {invocations : UInt32} (hcalls : (calls past).length = invocations.toNat) :
    Journalled s r text report
      (endedBy s lock (.ok report) past (.complete report.outcome invocations) t c) := by
  obtain ⟨hw, hjournal, hcurrent⟩ := hlog.completed hj report.outcome invocations
  obtain ⟨hready, hsame⟩ := (hheld.writes hpath hlog.ready hw).ready_release hpath
    (hlog.ready.writes hw)
  constructor
  · rw [tree_endedBy hobs]
    exact hready.current?_of_none (by decide) ((hsame _ (by decide)).trans hcurrent)
  · refine ⟨_, _, Finished.decode?_encode (r.entry c report.outcome invocations),
      ⟨hlog.id, hlog.entryPoint, ?_, rfl⟩, ?_, StateDir.lines_kept_append htext _⟩
    · rw [endedBy, calls_append, List.length_append, hcalls]
      rfl
    · rw [tree_endedBy hobs]
      refine hready.readText_journal (by decide) ?_ ?_
      · intro hempty
        have hlength := congrArg (fun s : String => s.toList.length) hempty
        simp at hlength
      · rw [IsJournal, hsame _ (by decide)]
        exact hjournal

/-- The iteration in which a run fails that got the lock: 0 if it could not reset its working
    directory. -/
def failedAt (s : Setup Current) (seen : Tree) (trace : List Moment) : Nat :=
  match (s.workspace.reset s.host.cwd seen).2 with
  | .error _ => 0
  | .ok () => roundsOf trace + 1

/-- What a run leaves in the state directory, however it ends. -/
structure Journals (s : Setup Current) (r : Recorder) (S : Loc) (text : String) (node : Option Node)
    (seen : Tree) (ended : Ended Current) : Prop where
  completes : ∀ report, ended.result = .ok report → Journalled s r text report ended
  aborts : ∀ cause, ended.result = .error cause →
    LeftAborted s r S node cause (failedAt s seen ended.trace) ended

/-- **A run that gets past its reset.** -/
theorem journals_of_begins {asked : Bool} {w : Current} {seen : Tree} {text : String}
    (hpath : lock.path = Lock.pathFor s.session.workDir)
    (hbegin : Begins s asked w t lock seen x) (hclear : Clear place S) (hexec : StaysInside s place)
    (hminded : Minded s x place x.tree) (ha : Apart s.host s.session.workDir x.tree place d name)
    (hheld : Holds s.host x.tree lock d name) (hlogged : Logged r S s.session node x.tree x.watch)
    (hready : Ready r.dir r.cwd S (x.tree.without place))
    (hj : ∀ u : Tree, u.node? (journalName :: S) = node → IsJournal S text u)
    (htext : text = "" ∨ ∃ init, text.toList = init ++ ['\n']) :
    Journals s r S text node seen (run s asked w t) := by
  have hup := upkeep_logged hobs hclear hexec ha.outside (hheld.ne_file hpath) hminded hheld hlogged
    hready
  have hreset : (s.workspace.reset s.host.cwd seen).2 = .ok () := by rw [hbegin.resets]
  have hsmall : ∀ n ≤ s.session.budget.toNat, (UInt32.ofNat n).toNat = n := fun n hn =>
    UInt32.toNat_ofNat_of_lt' (Nat.lt_of_le_of_lt hn s.session.budget.toNat_lt)
  have hfailed : ∀ n rest, roundsOf rest = 0 →
      failedAt s seen (prologue s seen ++ moments s x n ++ rest) = n + 1 := by
    intro n rest hrest
    rw [failedAt, hreset, roundsOf_past, hrest]
  have hfinishes := run_finishes hbegin
  generalize run s asked w t = ended at hfinishes
  cases hfinishes with
  | completed n outcome hn =>
    obtain ⟨hmind, hfile, hlog, -⟩ := hup.stand n
    refine ⟨fun report hreport => ?_, fun cause hcause => (by cases hcause)⟩
    cases hreport
    refine journalled_endedBy hobs hpath hlog (holds_of_minded hpath hheld ha hmind hfile)
      (hj _ hlog.journal) htext _ ?_
    rw [hsmall n hn, calls_append, calls_moments, callsOf]
    simp [calls, prologue]
  | stopped n hn =>
    obtain ⟨hmind, hfile, hlog, -⟩ := hup.stand n
    refine ⟨fun report hreport => (by cases hreport), fun cause hcause => ?_⟩
    cases hcause
    refine leftAborted_endedBy hobs hpath hlog (holds_of_minded hpath hheld ha hmind hfile) _ _ ?_
    exact (hsmall _ hn).trans (hfailed n [_] rfl).symm
  | failed n cause hn =>
    obtain ⟨hmind, hfile, hlog, -⟩ := hup.replied n
    refine ⟨fun report hreport => (by cases hreport), fun cause' hcause => ?_⟩
    cases hcause
    refine leftAborted_endedBy hobs hpath hlog (holds_of_minded hpath hheld ha hmind hfile) _ _ ?_
    rw [hsmall _ hn, endedBy, List.append_assoc]
    exact (hfailed n _ rfl).symm

end Recorded

/-- What has to be so of the working directory at `place` when the run makes it anew. -/
structure Beside (s : Setup Current) (r : Recorder) (S d : Loc) (name : String) (seen : Tree)
    (place : Loc) : Prop where
  clear : Clear place S
  lock : Apart s.host s.session.workDir seen place d name
  ready : Ready r.dir r.cwd S (seen.without place)

/-- The recorder, which now knows `c`, has recorded the start of a session that holds its lock. -/
structure Started (s : Setup Current) (r : Recorder) (lock : Lock) (S d : Loc) (name : String)
    (node : Option Node) (seen : Tree) (c : Current) : Prop where
  wellFormed : seen.WellFormed
  holds : Holds s.host seen lock d name
  logged : Logged r S s.session node seen c
  beside : ∀ place, seen.place? s.host.cwd s.session.workDir = some place →
    Beside s r S d name seen place

/-- **A run whose recorder has begun to record.** -/
theorem journals_of_started {w w' : Current} {held seen : Tree} {text stem : String} (asked : Bool)
    (hobs : s.observer = r.observer)
    (hacquire : Lock.acquire s.host s.session.workDir t = (held, .ok lock))
    (hstart : s.observer.notify (sessionEvent s) w held = (w', seen))
    (hstem : Path.fileName? s.session.workDir = some stem)
    (hstarted : Started s r lock S d name node seen w')
    (hexec : ∀ place, seen.place? s.host.cwd s.session.workDir = some place → StaysInside s place)
    (hj : ∀ u : Tree, u.node? (journalName :: S) = node → IsJournal S text u)
    (htext : text = "" ∨ ∃ init, text.toList = init ++ ['\n']) :
    Journals s r S text node seen (run s asked w t) := by
  have hpath := Lock.path_of_acquire hacquire
  -- the reset keeps the log, and that it does not depend on the working directory
  have hresets : Reset s asked w t lock d name (fun u c => Logged r S s.session node u c ∧
      ∀ place, seen.place? s.host.cwd s.session.workDir = some place →
        Ready r.dir r.cwd S (u.without place)) seen w' := by
    refine run_resets hacquire hstart hstem hstarted.wellFormed hstarted.holds
      (fun place hplace => (hstarted.beside place hplace).lock) ?_
      ⟨hstarted.logged, fun place hplace => (hstarted.beside place hplace).ready⟩ asked
    rintro place hplace fresh hsame ⟨hlog, hready⟩
    have hclear := (hstarted.beside place hplace).clear
    refine ⟨hlog.frame hclear (hready place hplace) hsame, fun p hp => ?_⟩
    obtain rfl : place = p := Option.some.inj (hplace.symm.trans hp)
    exact (hready place hplace).without hclear hsame
  cases hresets with
  | fails fresh cause hreset hrun hfresh hlog =>
    rw [hrun]
    refine ⟨fun report hreport => (by cases hreport), fun cause' hcause => ?_⟩
    cases hcause
    refine leftAborted_endedBy hobs hpath hlog.1 hfresh _ _ ?_
    rw [failedAt, hreset]
    rfl
  | succeeds x place hplace hbegin hminded ha hfresh hlog =>
    exact journals_of_begins hobs hpath hbegin (hstarted.beside place hplace).clear
      (hexec place hplace) hminded ha hfresh hlog.1 (hlog.2 place hplace) hj htext

end Logging

/-! ## The run -/

/-- The paths to the files of the state directory and to the lock do not lead through the working
    directory at `place`. -/
structure WaysOutside (s : Setup Current) (r : Recorder) (lock : Lock) (S : Loc) (held seen : Tree)
    (place : Loc) : Prop where
  files : ∀ name ∈ fileNames, (seen.without place).Names r.cwd (r.dir.file name) S name
  lock : ∀ d name, held.Names s.host.cwd lock.path d name →
    Apart s.host s.session.workDir seen place d name

/-- **The first event of a recorded run** finds the state directory or makes it, and records the
    start of the session in it. -/
theorem started_of_writable {s : Setup Current} {r : Recorder} {t held made : Tree} {lock : Lock}
    {S : Loc} {text : String} (startedAt : String) (hobs : s.observer = r.observer)
    (hform : t.WellFormed) (hdown : Path.IsDescent s.session.workDir)
    (hacquire : Lock.acquire s.host s.session.workDir t = (held, .ok lock))
    (hwritable : Writable r S text held made)
    (hclear : ∀ place, (startedTree s (Recorder.pending s.session startedAt) held).place? s.host.cwd
      s.session.workDir = some place → Clear place S)
    (hways : (t.LinkFree ∧ ".." ∉ (Path.route r.dir.root).steps) ∨
      ∀ place, (startedTree s (Recorder.pending s.session startedAt) held).place? s.host.cwd
        s.session.workDir = some place →
        WaysOutside s r lock S held (startedTree s
          (Recorder.pending s.session startedAt) held) place) :
    made.node? (journalName :: S) = t.node? (journalName :: S) ∧
      ∃ d name, Started s r lock S d name (t.node? (journalName :: S))
        (startedTree s (Recorder.pending s.session startedAt) held)
        (s.observer.notify (sessionEvent s) (Recorder.pending s.session startedAt) held).1 := by
  obtain ⟨d, name, htakes⟩ := Lock.acquire_eq_ok hacquire
  have hpath := Lock.path_of_acquire hacquire
  have hheld := htakes.holds hpath
  have hform' := Lock.wellFormed_acquire hform hacquire
  -- the recorder makes the directory and records the session
  have hready := hwritable.opens.serves hform'
  obtain ⟨hw, hlog⟩ : Writes S made (startedTree s (Recorder.pending s.session startedAt) held) ∧
      Logged r S s.session (made.node? (journalName :: S))
        (startedTree s (Recorder.pending s.session startedAt) held)
        (s.observer.notify (sessionEvent s) (Recorder.pending s.session startedAt) held).1 := by
    rw [startedTree, hobs]
    exact hwritable.told hform' rfl rfl rfl
  have hmade : Holds s.host made lock d name := hheld.mono hwritable.opens.adds.keeps
    ((hwritable.opens.adds.within _ _ hheld.owns.file).trans hheld.owns.file.symm)
  have hseen := hmade.writes hpath hready hw
  have hsame : made.node? (journalName :: S) = t.node? (journalName :: S) := by
    have hslot := hwritable.slots journalName (by decide)
    have hadded := hslot.node?_of_adds hwritable.opens.adds
    rw [hadded, htakes.node?_slot (hheld.ne_file hpath _ (by decide))
      (by rwa [Tree.IsSlot, ← hadded])]
  refine ⟨hsame, d, name, hready.wellFormed (hwritable.opens.wellFormed hform') hw,
    hseen, hsame ▸ hlog,
    fun place hp => ?_⟩
  -- the ways to the lock and to the files do not lead through the working directory
  have hapart := hclear place hp
  rcases hways with ⟨hlinks, hup⟩ | hways
  · have hfree := hw.linkFree
      ((Lock.spares_taken [] hlinks htakes).1.linkFree.adds hwritable.opens.adds)
    refine ⟨hapart, Lock.apart_of_descent (hpath ▸ hseen.owns.names) hfree hdown hp,
      hlog.ready.outside hapart fun n hn => ?_⟩
    refine hfree.names_without (hlog.ready.names n hn)
      (StateDir.isPlain_of_mem hn) hup fun hin => ?_
    exact (hapart n hn).1 (hin.trans (List.suffix_cons n S))
  · obtain ⟨hfiles, hlock⟩ := hways place hp
    exact ⟨hapart, hlock d name hheld.owns.names, hlog.ready.outside hapart hfiles⟩

/-- **A session is journalled exactly once.**  A run that returns a report leaves no record of a
    running session and one more line in the journal, which is that of the session; a run that fails
    once it has the lock leaves the journal as it was, and the record of what it failed of. -/
theorem run_journals (s : Setup Current) (r : Recorder) (asked : Bool) (startedAt : String)
    (t held made : Tree) (lock : Lock) (S : Loc) (text : String) (hobs : s.observer = r.observer)
    (hform : t.WellFormed) (hdown : Path.IsDescent s.session.workDir)
    (hacquire : Lock.acquire s.host s.session.workDir t = (held, .ok lock))
    (hwritable : Writable r S text held made)
    (hplace : ∀ place, (startedTree s (Recorder.pending s.session startedAt) held).place? s.host.cwd
      s.session.workDir = some place → Clear place S ∧ StaysInside s place)
    (hways : (t.LinkFree ∧ ".." ∉ (Path.route r.dir.root).steps) ∨
      ∀ place, (startedTree s (Recorder.pending s.session startedAt) held).place? s.host.cwd
        s.session.workDir = some place →
        WaysOutside s r lock S held (startedTree s
          (Recorder.pending s.session startedAt) held) place) :
    Journals s r S text (t.node? (journalName :: S))
      (startedTree s (Recorder.pending s.session startedAt) held)
      (run s asked (Recorder.pending s.session startedAt) t) := by
  obtain ⟨stem, hstem⟩ := hdown.fileName?
  obtain ⟨hsame, d, name, hstarted⟩ := started_of_writable startedAt hobs hform hdown hacquire
    hwritable (fun place hp => (hplace place hp).1) hways
  refine journals_of_started asked hobs hacquire rfl hstem hstarted
    (fun place hp => (hplace place hp).2) (fun u hu => ?_) hwritable.lines
  rw [IsJournal, hu, ← hsame]
  exact hwritable.journal

/-- The session of `s`, recorded by `r`. -/
def recorded (s : Setup Unit) (r : Recorder) : Setup Current :=
  ⟨s.host, s.session, s.executor, r.observer, s.clock⟩

/-- The run of a session with a recorder of its own. -/
def recordedRun (s : Setup Unit) (r : Recorder) (t : Tree) : Ended Current :=
  run (recorded s r) false (Recorder.pending s.session "now") t

/-- The tree when the recorder has recorded the start of the session. -/
def recordedStart (s : Setup Unit) (r : Recorder) (held : Tree) : Tree :=
  startedTree (recorded s r) (Recorder.pending s.session "now") held

/-- A session of which the invocation number `stalls` hangs. -/
def stallingSession (stalls : Nat) : Setup Unit :=
  { scriptedSession "s/w" 2 mixedScript with
    executor := ⟨"explore", fun n t =>
      { (scriptedSession "s/w" 2 mixedScript).executor.invoke n t with
        exit := if n = stalls then .error (.executorHung (Duration.ofSeconds 5))
          else .ok (some 0) }⟩ }

/-- A recorder of which the state directory is `state`. -/
def stateRecorder : Recorder := ⟨⟨"state"⟩, [], "then"⟩

/-- A used working directory, and a state directory with a journal. -/
def recordedTree : Tree :=
  (Lock.usedTree.put ["state"] .folder).put [journalName, "state"] (.file ⟨"old\n".toUTF8, false⟩)

theorem wellFormed_recordedTree : recordedTree.WellFormed :=
  Tree.wellFormed_of_entries (by decide +kernel)

theorem linkFree_recordedTree : recordedTree.LinkFree :=
  Tree.linkFree_of_entries (by decide +kernel)

/-- The tree in which the session holds its lock. -/
def lockedRecordedTree : Tree := (Lock.acquire loneHost "s/w" recordedTree).1

theorem writable_recordedTree :
    Writable stateRecorder ["state"] "old\n" lockedRecordedTree lockedRecordedTree := by
  have hfile : lockedRecordedTree.node? [journalName, "state"] =
      some (.file ⟨"old\n".toUTF8, false⟩) := by decide +kernel
  have hslots : ∀ name ∈ fileNames,
      name = journalName ∨ lockedRecordedTree.node? [name, "state"] = none := by decide +kernel
  refine Recorder.writable_of_found (by decide +kernel) (by decide +kernel) (by decide +kernel)
    (fun name hname => ?_) (.inr ⟨_, hfile, rfl⟩) (.inr ⟨"old".toList, by decide⟩)
  rcases hslots name hname with rfl | hnone
  · exact Tree.isSlot_of_file hfile
  · exact Tree.isSlot_of_none hnone

/-- One run that completes, and one that fails in its second iteration. -/
theorem stallingSession_journals :
    (∃ report, (recordedRun (stallingSession 0) stateRecorder recordedTree).result = .ok report ∧
      Journalled (recorded (stallingSession 0) stateRecorder) stateRecorder "old\n" report
        (recordedRun (stallingSession 0) stateRecorder recordedTree)) ∧
    ∃ cause, (recordedRun (stallingSession 2) stateRecorder recordedTree).result = .error cause ∧
      LeftAborted (recorded (stallingSession 2) stateRecorder) stateRecorder ["state"]
        (some (.file ⟨"old\n".toUTF8, false⟩)) cause 2
        (recordedRun (stallingSession 2) stateRecorder recordedTree) := by
  have hacquire : Lock.acquire loneHost "s/w" recordedTree =
      (lockedRecordedTree, .ok ⟨"s/w.lock"⟩) :=
    Lock.acquire_of_toOption (by decide +kernel)
  have hdown : Path.IsDescent "s/w" := ⟨⟨"w", by decide, by decide⟩, by decide⟩
  have hscripted : StaysInside (scriptedSession "s/w" 2 mixedScript) ["w", "s"] :=
    staysInside_scriptedSession _
  have hplace : (recordedStart (stallingSession 0) stateRecorder lockedRecordedTree).place?
      [] "s/w" =
      some ["w", "s"] := by decide +kernel
  have hclear : Clear ["w", "s"] ["state"] := by
    rw [Clear]
    decide
  have hjournals : ∀ stalls, Journals
      (recorded (stallingSession stalls) stateRecorder) stateRecorder
      ["state"] "old\n" (some (.file ⟨"old\n".toUTF8, false⟩))
      (recordedStart (stallingSession stalls) stateRecorder lockedRecordedTree)
      (recordedRun (stallingSession stalls) stateRecorder recordedTree) := by
    intro stalls
    refine run_journals (recorded (stallingSession stalls) stateRecorder) stateRecorder false "now"
      recordedTree lockedRecordedTree lockedRecordedTree ⟨"s/w.lock"⟩ ["state"] "old\n" rfl
      wellFormed_recordedTree hdown hacquire writable_recordedTree (fun place hplace' => ?_)
      (.inl ⟨linkFree_recordedTree, by decide⟩)
    obtain rfl : ["w", "s"] = place := Option.some.inj (hplace.symm.trans hplace')
    exact ⟨hclear, fun n t honly => hscripted n t honly⟩
  constructor
  · have hok : (recordedRun (stallingSession 0) stateRecorder recordedTree).result.toOption.isSome =
        true := by decide +kernel
    cases hresult : (recordedRun (stallingSession 0) stateRecorder recordedTree).result with
    | error cause =>
      rw [hresult] at hok
      cases hok
    | ok report => exact ⟨report, rfl, (hjournals 0).completes report hresult⟩
  · obtain ⟨hfails, hat⟩ :
        (recordedRun (stallingSession 2) stateRecorder recordedTree).result.toOption.isNone = true ∧
          failedAt (recorded (stallingSession 2) stateRecorder)
            (recordedStart (stallingSession 2) stateRecorder lockedRecordedTree)
            (recordedRun (stallingSession 2) stateRecorder recordedTree).trace =
            2 := by decide +kernel
    cases hresult : (recordedRun (stallingSession 2) stateRecorder recordedTree).result with
    | ok report =>
      rw [hresult] at hfails
      cases hfails
    | error cause =>
      have hleft := (hjournals 2).aborts cause hresult
      rw [hat] at hleft
      exact ⟨cause, rfl, hleft⟩

/-- A recorder of which the state directory is `t`, as seen from the link `x`. -/
def loopedRecorder : Recorder := ⟨⟨"x/t"⟩, [], "then"⟩

/-- The directories `w` and `t`, and a link to the directory above them that goes through `w`. -/
def loopedStateTree : Tree := loopedTree.put ["t"] .folder

/-- **A failure that is not recorded**: the path of the state directory goes through the working
    directory, and the reset has removed that and cannot make it again. -/
theorem loopedStateTree_loses_record :
    Path.IsDescent "x/w" ∧ loopedStateTree.WellFormed ∧
      StaysInside (recorded (scriptedSession "x/w" 1 fun _ => []) loopedRecorder) ["w"] ∧
      Clear ["w"] ["t"] ∧
      Lock.acquire loneHost "x/w" loopedStateTree =
        ((Lock.acquire loneHost "x/w" loopedStateTree).1, .ok ⟨"x/w.lock"⟩) ∧
      Writable loopedRecorder ["t"] "" (Lock.acquire loneHost "x/w" loopedStateTree).1
        (Lock.acquire loneHost "x/w" loopedStateTree).1 ∧
      (recordedStart (scriptedSession "x/w" 1 fun _ => []) loopedRecorder
        (Lock.acquire loneHost "x/w" loopedStateTree).1).place? [] "x/w" = some ["w"] ∧
      (recordedRun (scriptedSession "x/w" 1 fun _ => []) loopedRecorder
        loopedStateTree).result.toOption.isNone = true ∧
      loopedRecorder.dir.current? [] (recordedRun
        (scriptedSession "x/w" 1 fun _ => []) loopedRecorder
        loopedStateTree).tree = none := by
  have hscripted : StaysInside (scriptedSession "x/w" 1 fun _ => []) ["w"] :=
    staysInside_scriptedSession _
  have hslots : ∀ name ∈ fileNames,
      (Lock.acquire loneHost "x/w" loopedStateTree).1.node? [name, "t"] = none := by decide +kernel
  refine ⟨⟨⟨"w", by decide, by decide⟩, by decide⟩, ?_, fun n t honly => hscripted n t honly, ?_,
    Lock.acquire_of_toOption (by decide +kernel), ?_, by decide +kernel, by decide +kernel,
    by decide +kernel⟩
  · exact ((Tree.wellFormed_empty.put_new rfl (by decide) rfl _).put_new rfl
      (by decide) rfl _).put_new
      rfl (by decide) rfl _
  · rw [Clear]
    decide
  · exact Recorder.writable_of_found (by decide +kernel) (by decide +kernel) (by decide +kernel)
      (fun name hname => Tree.isSlot_of_none (hslots name hname))
      (.inl ⟨hslots journalName (by decide), rfl⟩) (.inl rfl)

end Run

end Concolic
