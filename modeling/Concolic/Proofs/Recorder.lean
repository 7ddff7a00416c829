import Concolic.Proofs.Rotation
import Concolic.Recorder
import Mathlib.Logic.Function.Basic

/-
  Recorders that share a state directory.

  Any number of recorders may be told of events in any order.  Each of them knows what its own
  events say (`standing`).
-/

namespace Concolic.Recorder

open StateDir (IsJournal IsTail Lists Opens Ready Recorded Writes currentName fileNames journalName
  listing)

variable {r : Recorder} {S : Loc} {t made : Tree} {e : Event}

/-! ## One event -/

/-- The event that ends a session with a report. -/
def isComplete : Event → Bool
  | .complete _ _ => true
  | _ => false

theorem notify_eq (he : isComplete e = false) (c : Current) (t : Tree) :
    r.notify e c t = (update c e, (r.dir.writeCurrent r.cwd (update c e) t).1) := by
  cases e with
  | complete => cases he
  | _ => rfl

theorem notify_fst (e : Event) (c : Current) (t : Tree) : (r.notify e c t).1 = update c e := by
  cases e <;> rfl

theorem sessionId_update (c : Current) (e : Event) : (update c e).sessionId = c.sessionId := by
  cases e <;> rfl

theorem entryPoint_update (c : Current) (e : Event) : (update c e).entryPoint = c.entryPoint := by
  cases e <;> rfl

theorem journal_ne_current : journalName :: S ≠ currentName :: S := by
  simp [journalName, currentName]

section Notify

variable (hmakes : t.makeFolders r.cwd r.dir.root = (made, .ok ()))
  (hready : Ready r.dir r.cwd S made)
include hmakes hready

/-- **An event before the end** is recorded, and the journal is left alone. -/
theorem notify_told (he : isComplete e = false) (c : Current) :
    Writes S made (r.notify e c t).2 ∧ Recorded S (update c e) (r.notify e c t).2 ∧
      (r.notify e c t).2.node? (journalName :: S) = made.node? (journalName :: S) := by
  obtain ⟨t', hwrite, halters, hrecorded⟩ :=
    (hready.subset StateDir.pair_current).writeCurrent hmakes (update c e)
  rw [notify_eq he, hwrite]
  refine ⟨hready.widen halters StateDir.pair_current, hrecorded, halters.elsewhere _ ?_⟩
  intro name hname
  have hne : ∀ name ∈ StateDir.pair currentName, journalName ≠ name := by decide
  simpa using hne name hname

/-- **The end of a session** adds it to the journal and removes its record. -/
theorem notify_completed (outcome : Outcome) (invocations : UInt32) (c : Current) :
    Writes S made (r.notify (.complete outcome invocations) c t).2 ∧
      (r.notify (.complete outcome invocations) c t).2.node? (currentName :: S) = none ∧
      ∀ text, IsJournal S text made → r.dir.journalText r.cwd t = text →
        IsJournal S (StateDir.kept text ++ (r.entry c outcome invocations).encode ++ "\n")
          (r.notify (.complete outcome invocations) c t).2 := by
  obtain ⟨added, hadd, halters, hjournal⟩ := (hready.subset StateDir.pair_journal).recordFinished
    hmakes (r.entry c outcome invocations)
  have hwrites := hready.widen halters StateDir.pair_journal
  have hadded := hready.writes hwrites
  have hclear := hadded.clearCurrent (by decide)
  have hnotify : (r.notify (.complete outcome invocations) c t).2 =
      r.dir.clearCurrent r.cwd added := by
    rw [notify, hadd]
  rw [hnotify]
  refine ⟨hwrites.trans (hadded.widen (StateDir.alters_of_becomes hclear
    (Tree.isSlot_of_none hclear.here)) (by decide)), hclear.here, fun text hfile htext => ?_⟩
  rw [IsJournal, hclear.elsewhere _ journal_ne_current]
  exact hjournal text hfile htext

theorem notify_cases (e : Event) (c : Current) :
    (isComplete e = false ∧ Writes S made (r.notify e c t).2 ∧
        Recorded S (update c e) (r.notify e c t).2 ∧
        (r.notify e c t).2.node? (journalName :: S) = made.node? (journalName :: S)) ∨
      ∃ outcome invocations, e = .complete outcome invocations ∧ Writes S made (r.notify e c t).2 ∧
        (r.notify e c t).2.node? (currentName :: S) = none ∧
        ∀ text, IsJournal S text made → r.dir.journalText r.cwd t = text →
          IsJournal S (StateDir.kept text ++ (r.entry c outcome invocations).encode ++ "\n")
            (r.notify e c t).2 := by
  cases e with
  | complete outcome invocations =>
    exact .inr ⟨outcome, invocations, rfl, notify_completed hmakes hready outcome invocations c⟩
  | _ => exact .inl ⟨rfl, notify_told hmakes hready rfl c⟩

end Notify

/-! ## What a recorder knows -/

section Deliveries

variable {ι : Type}

/-- An event that reaches the recorder of the session `writer`, with the seconds since the recorder
    began and the time of day. -/
structure Delivery (ι : Type) where
  writer : ι
  event : Event
  elapsed : UInt64
  now : String

/-- What the latest event that has it says. -/
def latest {α : Type} (pick : Event → Option α) (own : List (Delivery ι)) : Option α :=
  (own.filterMap fun d => pick d.event).getLast?

/-- The command and the budget with which a session starts. -/
def start? : Event → Option (String × UInt32)
  | .sessionStart _ command budget => some (command, budget)
  | _ => none

/-- The iteration that begins or fails. -/
def iteration? : Event → Option UInt32
  | .iterationStart iteration _ _ => some iteration
  | .aborted iteration _ => some iteration
  | _ => none

/-- The exit code of an iteration and the files that it has left. -/
def ending? : Event → Option (Option Int32 × Signal)
  | .iterationEnd _ exit _ signal => some (exit, signal)
  | _ => none

/-- The status of a session after an event. -/
def status? : Event → Option String
  | .sessionStart _ _ _ => some "starting"
  | .iterationStart _ _ _ => some "executing"
  | .iterationEnd _ _ _ _ => some "inspecting"
  | .aborted _ reason => some ("aborted: " ++ reason)
  | .complete _ _ => none

/-- The record of a session of which the recorder has been told of `own`. -/
def standing (session : Session) (startedAt : String) (own : List (Delivery ι)) : Current :=
  { sessionId := session.id
    entryPoint := session.entryPoint
    workDir := session.workDir
    command := ((latest start? own).map (·.1)).getD ""
    status := (latest status? own).getD "pending"
    iteration := (latest iteration? own).getD 0
    budget := ((latest start? own).map (·.2)).getD 0
    lastExit := (latest ending? own).bind (·.1)
    historyPresent := ((latest ending? own).map (·.2.history)).getD false
    backtrackPresent := ((latest ending? own).map (·.2.backtrack)).getD false
    startedAt
    elapsedSecs := (own.getLast?.map (·.elapsed)).getD 0 }

theorem latest_concat {α : Type} (pick : Event → Option α) (own : List (Delivery ι))
    (d : Delivery ι) :
    latest pick (own ++ [d]) = (pick d.event).or (latest pick own) := by
  rw [latest, List.filterMap_append, List.getLast?_append]
  cases hpick : pick d.event with
  | none => simp [hpick, latest]
  | some a => simp [hpick]

/-- **One more event** changes the fields of which it says something. -/
theorem standing_concat (session : Session) (startedAt : String) (own : List (Delivery ι))
    (d : Delivery ι) :
    standing session startedAt (own ++ [d]) =
      update { standing session startedAt own with elapsedSecs := d.elapsed } d.event := by
  rw [standing, latest_concat, latest_concat, latest_concat, latest_concat, List.getLast?_concat]
  cases d.event <;> rfl

/-! ## Many recorders -/

variable [DecidableEq ι]

/-- What the recorders know, and the tree to which they write. -/
structure Shared (ι : Type) where
  watch : ι → Current
  tree : Tree

/-- One recorder is told of one event. -/
def deliver (dir : StateDir) (cwd : Loc) (x : Shared ι) (d : Delivery ι) : Shared ι :=
  let (c, t) := notify ⟨dir, cwd, d.now⟩ d.event
    { x.watch d.writer with elapsedSecs := d.elapsed } x.tree
  ⟨Function.update x.watch d.writer c, t⟩

/-- The recorders of the sessions when nothing has happened yet. -/
def waiting (sessions : ι → Session) (startedAt : ι → String) (t : Tree) : Shared ι :=
  ⟨fun i => pending (sessions i) (startedAt i), t⟩

/-- The recorders are told of one event after the other. -/
def deliverAll (dir : StateDir) (cwd : Loc) (x : Shared ι) (ds : List (Delivery ι)) : Shared ι :=
  ds.foldl (deliver dir cwd) x

theorem deliverAll_concat (dir : StateDir) (cwd : Loc) (x : Shared ι) (ds : List (Delivery ι))
    (d : Delivery ι) :
    deliverAll dir cwd x (ds ++ [d]) = deliver dir cwd (deliverAll dir cwd x ds) d := by
  rw [deliverAll, List.foldl_append]
  rfl

/-- The events of one session. -/
def own (ds : List (Delivery ι)) (i : ι) : List (Delivery ι) := ds.filter fun d => d.writer = i

/-- **Every recorder knows its own events**, whatever happens to the others. -/
theorem watch_deliverAll (dir : StateDir) (cwd : Loc) (sessions : ι → Session)
    (startedAt : ι → String) (t : Tree) (ds : List (Delivery ι)) (i : ι) :
    (deliverAll dir cwd (waiting sessions startedAt t) ds).watch i =
      standing (sessions i) (startedAt i) (own ds i) := by
  induction ds using List.reverseRecOn with
  | nil => rfl
  | append_singleton ds d ih =>
    rw [deliverAll_concat, own, List.filter_append]
    by_cases hwriter : d.writer = i
    · subst hwriter
      have hown : [d].filter (fun d' => d'.writer = d.writer) = [d] := by simp
      rw [hown, standing_concat, ← own, ← ih]
      exact (Function.update_self ..).trans (notify_fst ..)
    · have hother : [d].filter (fun d' => d'.writer = i) = [] := by simp [hwriter]
      rw [hother, List.append_nil, ← own, ← ih]
      exact Function.update_of_ne (Ne.symm hwriter) ..

/-! ## What the directory shows -/

/-- The record that is shown after the events: that of the session of the last one, unless this was
    its end. -/
def shown (sessions : ι → Session) (startedAt : ι → String) (ds : List (Delivery ι)) :
    Option Current :=
  match ds.getLast? with
  | none => none
  | some d =>
    if isComplete d.event then none
    else some (standing (sessions d.writer) (startedAt d.writer) (own ds d.writer))

theorem shown_concat (sessions : ι → Session) (startedAt : ι → String) (ds : List (Delivery ι))
    (d : Delivery ι) :
    shown sessions startedAt (ds ++ [d]) =
      if isComplete d.event then none
      else some (standing (sessions d.writer) (startedAt d.writer) (own (ds ++ [d]) d.writer)) := by
  rw [shown, List.getLast?_concat]

variable {dir : StateDir} {cwd : Loc} {x : Shared ι}

/-- **One delivery** leaves a directory that is ready, and the record of the session it was for. -/
theorem current?_deliver (hmakes : x.tree.makeFolders cwd dir.root = (made, .ok ()))
    (hready : Ready dir cwd S made) (d : Delivery ι) :
    Ready dir cwd S (deliver dir cwd x d).tree ∧
      dir.current? cwd (deliver dir cwd x d).tree =
        if isComplete d.event then none else some ((deliver dir cwd x d).watch d.writer) := by
  have hmem : currentName ∈ fileNames := by decide
  have hwatch : (deliver dir cwd x d).watch d.writer =
      update { x.watch d.writer with elapsedSecs := d.elapsed } d.event :=
    (Function.update_self ..).trans (notify_fst ..)
  obtain ⟨he, hwrites, hrecorded, -⟩ | ⟨outcome, invocations, he, hwrites, hnone, -⟩ :=
    notify_cases (r := ⟨dir, cwd, d.now⟩) hmakes hready d.event
      { x.watch d.writer with elapsedSecs := d.elapsed }
  · refine ⟨hready.writes hwrites, ?_⟩
    rw [hwatch, he]
    exact (hready.writes hwrites).current?_of_recorded hmem hrecorded
  · refine ⟨hready.writes hwrites, ?_⟩
    rw [he]
    exact (hready.writes hwrites).current?_of_none hmem hnone

theorem makes_deliverAll (hmakes : x.tree.makeFolders cwd dir.root = (made, .ok ()))
    (hready : Ready dir cwd S made) (ds : List (Delivery ι)) :
    ∃ made', (deliverAll dir cwd x ds).tree.makeFolders cwd dir.root = (made', .ok ()) ∧
      Ready dir cwd S made' := by
  induction ds using List.reverseRecOn with
  | nil => exact ⟨made, hmakes, hready⟩
  | append_singleton ds d ih =>
    obtain ⟨made', hmakes', hready'⟩ := ih
    have hafter := (current?_deliver hmakes' hready' d).1
    have hmem : currentName ∈ fileNames := by decide
    rw [deliverAll_concat]
    exact ⟨_, hafter.makeFolders hmem hmem, hafter⟩

/-- **The last event decides** what is shown. -/
theorem current?_deliverAll (hmakes : t.makeFolders cwd dir.root = (made, .ok ()))
    (hready : Ready dir cwd S made) (sessions : ι → Session) (startedAt : ι → String)
    (ds : List (Delivery ι)) (d : Delivery ι) :
    dir.current? cwd (deliverAll dir cwd (waiting sessions startedAt t) (ds ++ [d])).tree =
      shown sessions startedAt (ds ++ [d]) := by
  obtain ⟨made', hmakes', hready'⟩ := makes_deliverAll (x := waiting sessions startedAt t) hmakes
    hready ds
  rw [deliverAll_concat, (current?_deliver hmakes' hready' d).2, ← deliverAll_concat,
    watch_deliverAll, shown_concat]

/-! ## What the journal has -/

/-- The journal entry of an event that ends a session. -/
def finished? (session : Session) (d : Delivery ι) : Option Finished :=
  match d.event with
  | .complete outcome invocations =>
    some { sessionId := session.id, entryPoint := session.entryPoint, invocations
           outcome := outcome.text, completedAt := d.now }
  | _ => none

/-- The journal entries of the sessions that end, in the order in which they do. -/
def finished (sessions : ι → Session) (ds : List (Delivery ι)) : List Finished :=
  ds.filterMap fun d => finished? (sessions d.writer) d

/-- The directory is there or can be made, and its journal has the last ones of the
    sessions `all`. -/
structure Keeping (dir : StateDir) (cwd S : Loc) (all left : List Finished) (t made : Tree) :
    Prop where
  makes : t.makeFolders cwd dir.root = (made, .ok ())
  ready : Ready dir cwd S made
  file : IsJournal S (listing left) made
  text : dir.journalText cwd t = listing left
  tail : IsTail all left
  lists : Lists dir cwd S left t

variable {all left : List Finished}

theorem keeping_of_opens (hform : t.WellFormed) (h : Opens fileNames dir cwd S t made)
    (hnew : made.node? (journalName :: S) = none) : Keeping dir cwd S [] [] t made :=
  ⟨h.makes, h.serves hform, .inl ⟨hnew, rfl⟩, h.journalText_new (by decide) hnew,
    StateDir.isTail_nil, h.lists_nil (by decide) hnew⟩

theorem keeping_of_ready (h : Ready dir cwd S t) (hfile : IsJournal S (listing left) t)
    (htail : IsTail all left) : Keeping dir cwd S all left t t := by
  have hmem : journalName ∈ fileNames := by decide
  exact ⟨h.makeFolders hmem hmem, h, hfile, h.journalText hmem hfile, htail, h.lists hmem hfile⟩

/-- **One delivery** adds an entry to the journal if it ends the session. -/
theorem Keeping.deliver (h : Keeping dir cwd S all left x.tree made) {session : Session}
    (d : Delivery ι) (hid : (x.watch d.writer).sessionId = session.id)
    (hentry : (x.watch d.writer).entryPoint = session.entryPoint) :
    ∃ left', Keeping dir cwd S (all ++ (finished? session d).toList) left'
      (Recorder.deliver dir cwd x d).tree (Recorder.deliver dir cwd x d).tree := by
  obtain ⟨he, hwrites, -, hsame⟩ | ⟨outcome, invocations, he, hwrites, -, hjournal⟩ :=
    notify_cases (r := ⟨dir, cwd, d.now⟩) h.makes h.ready d.event
      { x.watch d.writer with elapsedSecs := d.elapsed }
  · have hnone : finished? session d = none := by
      rw [finished?]
      cases hd : d.event with
      | complete => rw [hd] at he; cases he
      | _ => rfl
    rw [hnone, Option.toList_none, List.append_nil]
    refine ⟨left, keeping_of_ready (h.ready.writes hwrites) ?_ h.tail⟩
    have hfile := h.file
    rw [IsJournal, ← hsame] at hfile
    exact hfile
  · have hfile := hjournal _ h.file h.text
    rw [StateDir.added_listing] at hfile
    have hsome : finished? session d = some (entry ⟨dir, cwd, d.now⟩
        { x.watch d.writer with elapsedSecs := d.elapsed } outcome invocations) := by
      rw [finished?, he, entry, hid, hentry]
    rw [hsome, Option.toList_some]
    exact ⟨_, keeping_of_ready (h.ready.writes hwrites) hfile (h.tail.record _)⟩

theorem Keeping.deliverAll (h : Keeping dir cwd S [] [] t made) (sessions : ι → Session)
    (startedAt : ι → String) (ds : List (Delivery ι)) :
    ∃ left made', Keeping dir cwd S (finished sessions ds) left
      (Recorder.deliverAll dir cwd (waiting sessions startedAt t) ds).tree made' := by
  induction ds using List.reverseRecOn with
  | nil => exact ⟨[], made, h⟩
  | append_singleton ds d ih =>
    obtain ⟨left, made', hkeeping⟩ := ih
    have hwatch := watch_deliverAll dir cwd sessions startedAt t ds d.writer
    obtain ⟨left', hafter⟩ := hkeeping.deliver d (congrArg Current.sessionId hwatch)
      (congrArg Current.entryPoint hwatch)
    have hfinished : finished sessions (ds ++ [d]) =
        finished sessions ds ++ (finished? (sessions d.writer) d).toList := by
      rw [finished, List.filterMap_append]
      cases hd : finished? (sessions d.writer) d <;> simp [hd, finished]
    rw [deliverAll_concat, hfinished]
    exact ⟨left', _, hafter⟩

/-- **A shared state directory after any events.**  It shows the record of the session that was
    heard of last, each field as the latest event of that session that has it says, or nothing if
    this was the end of the session; and it has journalled every end of a session, in order. -/
theorem shared_dir_follows (dir : StateDir) (cwd S : Loc) (t made : Tree) (sessions : ι → Session)
    (startedAt : ι → String) (hform : t.WellFormed) (hopens : Opens fileNames dir cwd S t made)
    (hnone : made.node? (currentName :: S) = none) (hnew : made.node? (journalName :: S) = none)
    (ds : List (Delivery ι)) :
    dir.current? cwd (deliverAll dir cwd (waiting sessions startedAt t) ds).tree =
        shown sessions startedAt ds ∧
      ∃ left, IsTail (finished sessions ds) left ∧
        Lists dir cwd S left (deliverAll dir cwd (waiting sessions startedAt t) ds).tree := by
  constructor
  · rcases List.eq_nil_or_concat ds with rfl | ⟨ds, d, rfl⟩
    · obtain ⟨f, hread⟩ := hopens.readText_free (by decide) hnone
      refine (StateDir.current?_eq dir cwd t).trans ?_
      rw [hread]
      rfl
    · rw [List.concat_eq_append]
      exact current?_deliverAll hopens.makes (hopens.serves hform) sessions startedAt ds d
  · have hkept := keeping_of_opens hform hopens hnew
    obtain ⟨left, made', hkeeping⟩ := hkept.deliverAll sessions startedAt ds
    exact ⟨left, hkeeping.tail, hkeeping.lists⟩

/-- Two sessions in working directories of their own. -/
def sideBySide (second : Bool) : Session :=
  if second then ⟨"b", "Main", "classes", "wb", 5⟩ else ⟨"a", "Main", "classes", "wa", 3⟩

/-- The start of one of them. -/
def starts (second : Bool) : Delivery Bool :=
  ⟨second, .sessionStart (sideBySide second).id "explore" (sideBySide second).budget, 0, "now"⟩

/-- The end of one of them. -/
def ends (second : Bool) : Delivery Bool := ⟨second, .complete .explorationExhausted 1, 1, "then"⟩

/-- The first session is aborted after the second one has ended. -/
def mixedEvents : List (Delivery Bool) :=
  [starts false, starts true,
    ⟨false, .iterationEnd 1 (some 7) (Duration.ofSeconds 2) ⟨true, false⟩, 2, "now"⟩, ends true,
    ⟨false, .aborted 2 "timeout", 9, "now"⟩]

/-- The tree after events of the two sessions, where there was nothing. -/
def sharedTree (ds : List (Delivery Bool)) : Tree :=
  (deliverAll ⟨"state"⟩ [] (waiting sideBySide (fun _ => "now") Tree.empty) ds).tree

theorem mixedEvents_followed :
    StateDir.current? ⟨"state"⟩ [] (sharedTree mixedEvents) =
        some ⟨"a", "Main", "wa", "explore", "aborted: timeout", 2, 3, some 7, true,
          false, "now", 9⟩ ∧
      ∃ left, IsTail [⟨"b", "Main", 1, "exploration_exhausted", "then"⟩] left ∧
        Lists ⟨"state"⟩ [] ["state"] left (sharedTree mixedEvents) := by
  have hfollows := shared_dir_follows ⟨"state"⟩ []
      ["state"] Tree.empty StateDir.stateTree sideBySide
    (fun _ => "now") Tree.wellFormed_empty (StateDir.opens_stateTree fun _ h => h)
      (by decide +kernel) (by decide +kernel) mixedEvents
  have hshown : shown sideBySide (fun _ => "now") mixedEvents =
      some ⟨"a", "Main", "wa", "explore", "aborted: timeout", 2, 3, some 7, true,
        false, "now", 9⟩ := by
    decide +kernel
  rw [← sharedTree, hshown] at hfollows
  exact hfollows

/-! ## Sessions that are running -/

/-- Nothing is heard of a session after its end. -/
def EndsOnce (ds : List (Delivery ι)) : Prop :=
  ds.Pairwise fun d d' => isComplete d.event = true → d'.writer ≠ d.writer

/-- The session has been heard of and is not complete. -/
def UnderWay (ds : List (Delivery ι)) (i : ι) : Prop :=
  (∃ d ∈ ds, d.writer = i) ∧ ∀ d ∈ ds, d.writer = i → isComplete d.event = false

omit [DecidableEq ι] in
theorem underWay_of_last {ds : List (Delivery ι)} {d : Delivery ι} (honce : EndsOnce (ds ++ [d]))
    (hlast : isComplete d.event = false) : UnderWay (ds ++ [d]) d.writer := by
  refine ⟨⟨d, by simp, rfl⟩, fun d' hd' hwriter => ?_⟩
  rcases List.mem_append.mp hd' with hmem | hmem
  · -- an end before the last event would have been the end of this session
    cases he : isComplete d'.event with
    | false => rfl
    | true =>
      have hother := (List.pairwise_append.mp honce).2.2 d' hmem d (by simp) he
      exact absurd hwriter.symm hother
  · rw [List.mem_singleton.mp hmem]
    exact hlast

/-- **A running session is shown until another one ends.**  While a session is under way, the record
    that is shown is that of a session under way, unless the last event was the end of another one:
    then none is shown. -/
theorem running_shown_until_end (dir : StateDir) (cwd S : Loc) (t made : Tree)
    (sessions : ι → Session) (startedAt : ι → String) (hform : t.WellFormed)
    (hopens : Opens fileNames dir cwd S t made) (ds : List (Delivery ι)) (d : Delivery ι)
    (honce : EndsOnce (ds ++ [d])) (i : ι) (hi : UnderWay (ds ++ [d]) i) :
    (isComplete d.event = false → UnderWay (ds ++ [d]) d.writer ∧
      dir.current? cwd (deliverAll dir cwd (waiting sessions startedAt t) (ds ++ [d])).tree =
        some (standing (sessions d.writer) (startedAt d.writer) (own (ds ++ [d]) d.writer))) ∧
    (isComplete d.event = true → d.writer ≠ i ∧
      dir.current? cwd (deliverAll dir cwd (waiting sessions startedAt t) (ds ++ [d])).tree =
        none) := by
  have hcurrent := current?_deliverAll hopens.makes (hopens.serves hform) sessions startedAt ds d
  rw [shown_concat] at hcurrent
  constructor
  · intro hlast
    rw [hcurrent, hlast]
    exact ⟨underWay_of_last honce hlast, rfl⟩
  · intro hlast
    rw [hcurrent, hlast]
    refine ⟨fun hwriter => ?_, rfl⟩
    have hrunning := hi.2 d (by simp) hwriter
    rw [hlast] at hrunning
    cases hrunning

/-- The first iteration of the first session. -/
def goesOn : Delivery Bool := ⟨false, .iterationStart 1 3 ⟨0, 0, 0, 0, 0⟩, 2, "now"⟩

/-- The first session goes on after the end of the second one, and is shown again. -/
theorem sideBySide_shown_again :
    UnderWay ([starts false, starts true, ends true] ++ [goesOn]) false ∧
      StateDir.current? ⟨"state"⟩ [] (sharedTree
        ([starts false, starts true, ends true] ++ [goesOn])) =
        some ⟨"a", "Main", "wa", "explore", "executing", 1, 3, none, false, false, "now", 2⟩ := by
  have hevents := running_shown_until_end ⟨"state"⟩ []
      ["state"] Tree.empty StateDir.stateTree sideBySide
    (fun _ => "now") Tree.wellFormed_empty (StateDir.opens_stateTree fun _ h => h)
    [starts false, starts true, ends true] goesOn
    (by simp [EndsOnce, starts, ends, goesOn, isComplete]) false
    (by simp [UnderWay, starts, ends, goesOn, isComplete])
  obtain ⟨hrunning, hcurrent⟩ := hevents.1 rfl
  have hstanding : standing (sideBySide false) "now"
      (own ([starts false, starts true, ends true] ++ [goesOn]) false) =
        ⟨"a", "Main", "wa", "explore", "executing", 1, 3, none, false, false, "now", 2⟩ := by
    decide +kernel
  exact ⟨hrunning, hcurrent.trans (congrArg some hstanding)⟩

/-- **A running session that is not shown**: another one has ended, and took the record with it. -/
theorem sideBySide_hidden :
    (sideBySide false).workDir ≠ (sideBySide true).workDir ∧
      EndsOnce [starts false, starts true, ends true] ∧
      UnderWay [starts false, starts true, ends true] false ∧
      Opens fileNames ⟨"state"⟩ [] ["state"] Tree.empty StateDir.stateTree ∧
      StateDir.current? ⟨"state"⟩ [] (sharedTree [starts false, starts true, ends true]) =
        none := by
  have hopens : Opens fileNames ⟨"state"⟩ [] ["state"] Tree.empty StateDir.stateTree :=
    StateDir.opens_stateTree fun _ h => h
  refine ⟨by decide, by simp [EndsOnce, starts, ends, isComplete],
    by simp [UnderWay, starts, ends, isComplete], hopens, ?_⟩
  exact current?_deliverAll hopens.makes (hopens.serves Tree.wellFormed_empty) sideBySide
    (fun _ => "now") [starts false, starts true] (ends true)

end Deliveries

end Concolic.Recorder
