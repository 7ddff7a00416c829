import Concolic.Run

/-
  The rounds of a session.

  The iterations are laid out beside each other: `round` is one of them, from its archives to the
  reply of the executor, and `stand s x n` is where a session that began at `x` stands after `n` of
  them.  Both are defined for all `n`, whether or not the session gets that far.
-/

namespace Concolic.Run

variable {σ : Type}

/-- Where a session stands between two iterations. -/
structure Stand (σ : Type) where
  tree : Tree
  watch : σ
  /-- It has been asked to stop. -/
  cancelled : Bool

/-- An iteration up to the reply of the executor: the copies, the observer once it knows that the
    iteration has started, and the tree that the executor finds. -/
structure Round (σ : Type) where
  inputs : InputSnapshot
  history : Copy
  watch : σ
  before : Tree
  reply : Reply

/-- The event before the `i`-th invocation. -/
def startEvent (s : Setup σ) (i : Nat) : Event :=
  .iterationStart (UInt32.ofNat i) s.session.budget (s.clock.stamp i)

/-- The `i`-th iteration of a session that stands at `x`. -/
def round (s : Setup σ) (i : Nat) (x : Stand σ) : Round σ :=
  let archived := s.workspace.snapshotInputs s.host.cwd (UInt32.ofNat i) x.tree
  let saved := s.workspace.snapshotHistory s.host.cwd archived.2
  let told := s.observer.notify (startEvent s i) x.watch saved.2
  { inputs := archived.1
    history := saved.1
    watch := told.1
    before := told.2
    reply := s.executor.invoke i told.2 }

namespace Round

/-- The exit code; there is none if the executor failed. -/
def code (r : Round σ) : Option Int32 :=
  match r.reply.exit with
  | .ok code => code
  | .error _ => none

/-- The signal that the invocation left. -/
def signal (s : Setup σ) (r : Round σ) : Signal := s.workspace.signal s.host.cwd r.reply.tree

/-- The event after the invocation. -/
def endEvent (s : Setup σ) (i : Nat) (r : Round σ) : Event :=
  .iterationEnd (UInt32.ofNat i) r.code (s.clock.took i) (r.signal s)

/-- Where the session stands after the round. -/
def next (s : Setup σ) (i : Nat) (r : Round σ) : Stand σ :=
  let told := s.observer.notify (r.endEvent s i) r.watch r.reply.tree
  { tree := told.2, watch := told.1, cancelled := r.reply.cancels }

/-- The record of the round. -/
def record (s : Setup σ) (i : Nat) (r : Round σ) : Iteration :=
  { number := UInt32.ofNat i
    startedAt := s.clock.stamp i
    inputs := r.inputs
    history := r.history
    exit := r.code
    took := s.clock.took i
    signal := r.signal s }

/-- What the trace shows of the round up to the reply. -/
def opening (s : Setup σ) (i : Nat) (r : Round σ) : List Moment :=
  [.event (startEvent s i) r.before, .invocation i r.before r.reply.output]

/-- What the trace shows of the whole round. -/
def moments (s : Setup σ) (i : Nat) (r : Round σ) : List Moment :=
  r.opening s i ++ [.event (r.endEvent s i) (r.next s i).tree]

end Round

/-- Where a session that began at `x` stands after `n` iterations. -/
def stand (s : Setup σ) (x : Stand σ) : Nat → Stand σ
  | 0 => x
  | n + 1 => (round s (n + 1) (stand s x n)).next s (n + 1)

/-- The round that follows `n` others. -/
def roundAt (s : Setup σ) (x : Stand σ) (n : Nat) : Round σ := round s (n + 1) (stand s x n)

/-- The session goes on after the round that follows `n` others. -/
structure GoesOn (s : Setup σ) (x : Stand σ) (n : Nat) : Prop where
  asked : (stand s x n).cancelled = false
  exits : ∃ code, (roundAt s x n).reply.exit = .ok code
  continues : ((roundAt s x n).signal s).continues = true

/-- The records of the first `n` rounds. -/
def records (s : Setup σ) (x : Stand σ) (n : Nat) : List Iteration :=
  (List.range n).map fun m => (roundAt s x m).record s (m + 1)

/-- The trace of the first `n` rounds. -/
def moments (s : Setup σ) (x : Stand σ) (n : Nat) : List Moment :=
  (List.range n).flatMap fun m => (roundAt s x m).moments s (m + 1)

/-- The run after `n` rounds that were preceded by the trace `past`, newest first. -/
def after (s : Setup σ) (x : Stand σ) (past : List Moment) (n : Nat) : Progress σ :=
  { tree := (stand s x n).tree
    watch := (stand s x n).watch
    trace := (moments s x n).reverse ++ past }

/-- The run at the reply to the invocation that follows `n` rounds. -/
def replied (s : Setup σ) (x : Stand σ) (past : List Moment) (n : Nat) : Progress σ :=
  { tree := (roundAt s x n).reply.tree
    watch := (roundAt s x n).watch
    trace := ((roundAt s x n).opening s (n + 1)).reverse ++ ((moments s x n).reverse ++ past) }

/-- The four ways in which a loop with `budget` iterations ends after `n` rounds that go on. -/
inductive Ending (s : Setup σ) (x : Stand σ) (past : List Moment) (budget : Nat) :
    Nat → Progress σ × Except Failure Report → Prop where
  /-- The budget is used up. -/
  | spent : Ending s x past budget budget
      (finish s .budgetExhausted (records s x budget).reverse (after s x past budget))
  /-- It is asked to stop. -/
  | cancelled {n : Nat} : n < budget → (stand s x n).cancelled = true →
      Ending s x past budget n (abort s (n + 1) .cancelled (after s x past n))
  /-- The executor fails. -/
  | failed {n : Nat} {cause : Failure} : n < budget → (stand s x n).cancelled = false →
      (roundAt s x n).reply.exit = .error cause →
      Ending s x past budget n (abort s (n + 1) cause (replied s x past n))
  /-- One more round leaves nothing to explore. -/
  | explored {n : Nat} {code : Option Int32} : n < budget → (stand s x n).cancelled = false →
      (roundAt s x n).reply.exit = .ok code →
      ((roundAt s x n).signal s).continues = false →
      Ending s x past budget n
        (finish s .explorationExhausted (records s x (n + 1)).reverse (after s x past (n + 1)))

/-! ## Adding a round -/

variable (s : Setup σ) (x : Stand σ)

theorem length_records (n : Nat) : (records s x n).length = n := by
  simp [records]

theorem records_succ (n : Nat) :
    records s x (n + 1) = records s x n ++ [(roundAt s x n).record s (n + 1)] := by
  simp [records, List.range_succ]

theorem moments_succ (n : Nat) :
    moments s x (n + 1) = moments s x n ++ (roundAt s x n).moments s (n + 1) := by
  simp [moments, List.range_succ]

theorem after_zero (past : List Moment) : after s x past 0 = ⟨x.tree, x.watch, past⟩ := by
  simp [after, moments, stand]

theorem emit_endEvent (past : List Moment) (n : Nat) :
    emit s ((roundAt s x n).endEvent s (n + 1)) (replied s x past n) = after s x past (n + 1) := by
  simp [emit, replied, after, moments_succ, Round.moments, Round.opening, stand,
    roundAt, Round.next]

/-! ## The loop -/

/-- The `i`-th iteration of a run under way. -/
def turn (s : Setup σ) (i : Nat) (p : Progress σ) : Round σ := round s i ⟨p.tree, p.watch, false⟩

/-- The run at the reply of the executor. -/
def atReply (s : Setup σ) (i : Nat) (p : Progress σ) : Progress σ :=
  { tree := (turn s i p).reply.tree
    watch := (turn s i p).watch
    trace := ((turn s i p).opening s i).reverse ++ p.trace }

theorem iterate_succ (s : Setup σ) (left i : Nat) (done : List Iteration) (p : Progress σ) :
    iterate s (left + 1) i false done p =
      match (turn s i p).reply.exit with
      | .error cause => abort s i cause (atReply s i p)
      | .ok code =>
        let signal := (turn s i p).signal s
        let ended := emit s (.iterationEnd (UInt32.ofNat i) code (s.clock.took i) signal)
          (atReply s i p)
        let done := { (turn s i p).record s i with exit := code } :: done
        if signal.continues then iterate s left (i + 1) (turn s i p).reply.cancels done ended
        else finish s .explorationExhausted done ended := by
  rw [iterate]
  rfl

theorem turn_after (past : List Moment) (n : Nat) :
    turn s (n + 1) (after s x past n) = roundAt s x n := rfl

theorem atReply_after (past : List Moment) (n : Nat) :
    atReply s (n + 1) (after s x past n) = replied s x past n := rfl

theorem iterate_round {s : Setup σ} {x : Stand σ} {n : Nat} {code : Option Int32}
    (past : List Moment) (left : Nat) (h : (roundAt s x n).reply.exit = .ok code) :
    iterate s (left + 1) (n + 1) false (records s x n).reverse (after s x past n) =
      if ((roundAt s x n).signal s).continues then
        iterate s left (n + 2) (stand s x (n + 1)).cancelled (records s x (n + 1)).reverse
          (after s x past (n + 1))
      else finish s .explorationExhausted (records s x (n + 1)).reverse
        (after s x past (n + 1)) := by
  have hcode : (roundAt s x n).code = code := by rw [Round.code, h]
  have hemit : emit s (.iterationEnd (UInt32.ofNat (n + 1)) code (s.clock.took (n + 1))
      ((roundAt s x n).signal s)) (replied s x past n) = after s x past (n + 1) := by
    rw [← emit_endEvent, Round.endEvent, hcode]
  have hdone : { (roundAt s x n).record s (n + 1) with exit := code } :: (records s x n).reverse =
      (records s x (n + 1)).reverse := by
    rw [records_succ, List.reverse_append, Round.record, hcode]
    rfl
  rw [iterate_succ, turn_after, atReply_after, h]
  simp only [hemit, hdone]
  rfl

/-- **The loop ends in one of four ways**, after the first round that does not go on or when the
    budget is used up. -/
theorem iterate_ending (past : List Moment) :
    ∀ left n : Nat, (∀ m < n, GoesOn s x m) →
      ∃ k, (∀ m < k, GoesOn s x m) ∧ Ending s x past (n + left) k
        (iterate s left (n + 1) (stand s x n).cancelled (records s x n).reverse
          (after s x past n)) := by
  intro left
  induction left with
  | zero =>
    intro n hgo
    exact ⟨n, hgo, .spent⟩
  | succ left ih =>
    intro n hgo
    have hn : n < n + (left + 1) := by omega
    cases hc : (stand s x n).cancelled with
    | true =>
      refine ⟨n, hgo, ?_⟩
      show Ending s x past _ n (abort s (n + 1) .cancelled (after s x past n))
      exact .cancelled hn hc
    | false =>
      cases hexit : (roundAt s x n).reply.exit with
      | error cause =>
        refine ⟨n, hgo, ?_⟩
        rw [iterate_succ, turn_after, atReply_after, hexit]
        exact .failed hn hc hexit
      | ok code =>
        rw [iterate_round past left hexit]
        cases hsig : ((roundAt s x n).signal s).continues with
        | false => exact ⟨n, hgo, .explored hn hc hexit hsig⟩
        | true =>
          -- the round goes on, and the rest of the loop starts one round later
          have hgo' : ∀ m < n + 1, GoesOn s x m := by
            intro m hm
            rcases Nat.lt_or_eq_of_le (Nat.le_of_lt_succ hm) with h | h
            · exact hgo m h
            · subst h
              exact ⟨hc, ⟨code, hexit⟩, hsig⟩
          obtain ⟨k, hk, hend⟩ := ih (n + 1) hgo'
          refine ⟨k, hk, ?_⟩
          rw [show n + (left + 1) = n + 1 + left by omega]
          exact hend

/-! ## Whole runs -/

/-- The event at the start of a session. -/
def sessionEvent (s : Setup σ) : Event :=
  .sessionStart s.session.id s.executor.command s.session.budget

/-- The session takes `lock` and gets past its reset: its observer has `seen` a tree when it learns
    of the start, and the loop begins at `x`. -/
structure Begins (s : Setup σ) (asked : Bool) (w : σ) (t : Tree) (lock : Lock) (seen : Tree)
    (x : Stand σ) : Prop where
  locks : ∃ held, Lock.acquire s.host s.session.workDir t = (held, .ok lock) ∧
    s.observer.notify (sessionEvent s) w held = (x.watch, seen)
  resets : s.workspace.reset s.host.cwd seen = (x.tree, .ok ())
  cancelled : x.cancelled = asked

/-- The trace of a run at the beginning of its loop. -/
def prologue (s : Setup σ) (seen : Tree) : List Moment := [.event (sessionEvent s) seen]

theorem run_refused {s : Setup σ} {t held : Tree} {cause : Failure} (asked : Bool) (w : σ)
    (h : Lock.acquire s.host s.session.workDir t = (held, .error cause)) :
    run s asked w t = { result := .error cause, tree := held, watch := w, trace := [] } := by
  unfold run
  simp only [h]

theorem run_locked {s : Setup σ} {t held : Tree} {lock : Lock} (asked : Bool) (w : σ)
    (h : Lock.acquire s.host s.session.workDir t = (held, .ok lock)) :
    run s asked w t =
      let ended := locked s asked ⟨held, w, []⟩
      ⟨ended.2, lock.release s.host ended.1.tree, ended.1.watch, ended.1.trace.reverse⟩ := by
  unfold run
  simp only [h]

theorem locked_failed {s : Setup σ} {p : Progress σ} {fresh : Tree} {cause : Failure} (asked : Bool)
    (hreset : s.workspace.reset s.host.cwd (emit s (sessionEvent s) p).tree =
      (fresh, .error cause)) :
    locked s asked p = abort s 0 cause { emit s (sessionEvent s) p with tree := fresh } := by
  rw [sessionEvent] at hreset ⊢
  unfold locked
  simp only [hreset]

theorem locked_reset {s : Setup σ} {p : Progress σ} {fresh : Tree} (asked : Bool)
    (hreset : s.workspace.reset s.host.cwd (emit s (sessionEvent s) p).tree = (fresh, .ok ())) :
    locked s asked p = iterate s s.session.budget.toNat 1 asked []
      { emit s (sessionEvent s) p with tree := fresh } := by
  rw [sessionEvent] at hreset ⊢
  unfold locked
  simp only [hreset]

/-- A run that ends with the event `e`, of which the observer learns as `w` in the tree `t`. -/
def endedBy (s : Setup σ) (lock : Lock) (result : Except Failure Report) (past : List Moment)
    (e : Event) (t : Tree) (w : σ) : Ended σ :=
  { result
    tree := lock.release s.host (s.observer.notify e w t).2
    watch := (s.observer.notify e w t).1
    trace := past ++ [.event e (s.observer.notify e w t).2] }

/-- **How a run ends whose reset fails.** -/
theorem run_unreset_eq {s : Setup σ} {w : σ} {t held fresh : Tree} {lock : Lock} {cause : Failure}
    (asked : Bool) (hlock : Lock.acquire s.host s.session.workDir t = (held, .ok lock))
    (hreset : s.workspace.reset s.host.cwd (s.observer.notify (sessionEvent s) w held).2 =
      (fresh, .error cause)) :
    run s asked w t = endedBy s lock (.error cause)
      (prologue s (s.observer.notify (sessionEvent s) w held).2) (.aborted 0 cause.message) fresh
      (s.observer.notify (sessionEvent s) w held).1 := by
  rw [run_locked asked w hlock, locked_failed (p := ⟨held, w, []⟩) asked hreset]
  rfl

/-- **A run that gets past its reset** ends as its loop does, and gives the lock back. -/
theorem run_ending {s : Setup σ} {asked : Bool} {w : σ} {t seen : Tree} {lock : Lock} {x : Stand σ}
    (h : Begins s asked w t lock seen x) :
    ∃ k p result, (∀ m < k, GoesOn s x m) ∧
      Ending s x (prologue s seen) s.session.budget.toNat k (p, result) ∧
      run s asked w t = ⟨result, lock.release s.host p.tree, p.watch, p.trace.reverse⟩ := by
  obtain ⟨⟨held, hlock, htold⟩, hreset, hasked⟩ := h
  have hemit : emit s (sessionEvent s) ⟨held, w, []⟩ = ⟨seen, x.watch, prologue s seen⟩ := by
    rw [emit, htold]
    rfl
  have hlocked := locked_reset (s := s) (p := ⟨held, w, []⟩) asked (by rw [hemit]; exact hreset)
  obtain ⟨k, hgo, hend⟩ := iterate_ending s x (prologue s seen) s.session.budget.toNat 0
    (fun m hm => absurd hm (Nat.not_lt_zero m))
  rw [Nat.zero_add, after_zero] at hend
  refine ⟨k, _, _, hgo, hend, ?_⟩
  rw [run_locked asked w hlock, hlocked, hemit, ← hasked]
  rfl

/-- A session is complete after `n` rounds that go on and one more. -/
structure Completed (s : Setup σ) (x : Stand σ) (n : Nat) (outcome : Outcome) : Prop where
  goesOn : ∀ m < n, GoesOn s x m
  within : n < s.session.budget.toNat
  asked : (stand s x n).cancelled = false
  exits : ∃ code, (roundAt s x n).reply.exit = .ok code
  ends : (outcome = .explorationExhausted ∧ ((roundAt s x n).signal s).continues = false) ∨
    (outcome = .budgetExhausted ∧ ((roundAt s x n).signal s).continues = true ∧
      n + 1 = s.session.budget.toNat)

/-- A session is found cancelled before the round that follows `n` others. -/
structure Stopped (s : Setup σ) (x : Stand σ) (n : Nat) : Prop where
  goesOn : ∀ m < n, GoesOn s x m
  within : n < s.session.budget.toNat
  asked : (stand s x n).cancelled = true

/-- The executor fails in the round that follows `n` others. -/
structure Failed (s : Setup σ) (x : Stand σ) (n : Nat) (cause : Failure) : Prop where
  goesOn : ∀ m < n, GoesOn s x m
  within : n < s.session.budget.toNat
  asked : (stand s x n).cancelled = false
  fails : (roundAt s x n).reply.exit = .error cause

/-- The three ways in which a run ends that gets past its reset, with its result and its trace.
    `last` is the tree after the last event, from which only the lock is still to be taken. -/
inductive Past (s : Setup σ) (x : Stand σ) (lock : Lock) (seen : Tree) : Ended σ → Prop where
  | completed (n : Nat) (outcome : Outcome) (last : Tree) {e : Ended σ} :
      Completed s x n outcome →
      e.result = .ok ⟨s.session.id, outcome, records s x (n + 1)⟩ →
      e.trace = prologue s seen ++ moments s x (n + 1) ++
        [.event (.complete outcome (UInt32.ofNat (n + 1))) last] →
      e.tree = lock.release s.host last → Past s x lock seen e
  | stopped (n : Nat) (last : Tree) {e : Ended σ} :
      Stopped s x n →
      e.result = .error .cancelled →
      e.trace = prologue s seen ++ moments s x n ++
        [.event (.aborted (UInt32.ofNat (n + 1)) Failure.cancelled.message) last] →
      e.tree = lock.release s.host last → Past s x lock seen e
  | failed (n : Nat) (cause : Failure) (last : Tree) {e : Ended σ} :
      Failed s x n cause →
      e.result = .error cause →
      e.trace = prologue s seen ++ moments s x n ++ ((roundAt s x n).opening s (n + 1) ++
        [.event (.aborted (UInt32.ofNat (n + 1)) cause.message) last]) →
      e.tree = lock.release s.host last → Past s x lock seen e

theorem reverse_trace_emit (s : Setup σ) (e : Event) (p : Progress σ) :
    (emit s e p).trace.reverse = p.trace.reverse ++ [.event e (emit s e p).tree] := by
  simp [emit]

theorem reverse_trace_after (seen : Tree) (n : Nat) :
    (after s x (prologue s seen) n).trace.reverse = prologue s seen ++ moments s x n := by
  simp [after, prologue]

theorem reverse_trace_replied (seen : Tree) (n : Nat) :
    (replied s x (prologue s seen) n).trace.reverse =
      prologue s seen ++ moments s x n ++ (roundAt s x n).opening s (n + 1) := by
  simp [replied, prologue]

theorem finish_records (seen : Tree) (outcome : Outcome) (n : Nat) :
    let final := finish s outcome (records s x n).reverse (after s x (prologue s seen) n)
    final.2 = .ok ⟨s.session.id, outcome, records s x n⟩ ∧
      final.1.trace.reverse = prologue s seen ++ moments s x n ++
        [.event (.complete outcome (UInt32.ofNat n)) final.1.tree] := by
  refine ⟨by simp [finish], ?_⟩
  simp only [finish, List.length_reverse, length_records, reverse_trace_emit, reverse_trace_after]

/-- **What a run does that gets past its reset.** -/
theorem run_past {s : Setup σ} {asked : Bool} {w : σ} {t seen : Tree} {lock : Lock} {x : Stand σ}
    (hbudget : 1 ≤ s.session.budget.toNat) (h : Begins s asked w t lock seen x) :
    Past s x lock seen (run s asked w t) := by
  obtain ⟨k, p, result, hgo, hend, hrun⟩ := run_ending h
  rw [hrun]
  generalize hpr : (p, result) = pr at hend
  cases hend with
  | spent =>
    -- the last round within the budget went on as well
    obtain ⟨n, hn⟩ : ∃ n, s.session.budget.toNat = n + 1 := ⟨s.session.budget.toNat - 1, by omega⟩
    rw [hn] at hgo hpr
    have hlast := hgo n (Nat.lt_succ_self n)
    have hfin := finish_records s x seen .budgetExhausted (n + 1)
    rw [← hpr] at hfin
    exact .completed n _ p.tree ⟨fun m hm => hgo m (by omega), by omega, hlast.asked, hlast.exits,
      .inr ⟨rfl, hlast.continues, hn.symm⟩⟩ hfin.1 hfin.2 rfl
  | cancelled hn hc =>
    cases hpr
    refine .stopped k _ ⟨hgo, hn, hc⟩ rfl ?_ rfl
    rw [reverse_trace_emit, reverse_trace_after]
  | @failed _ cause hn hc hexit =>
    cases hpr
    refine .failed k cause _ ⟨hgo, hn, hc, hexit⟩ rfl ?_ rfl
    rw [reverse_trace_emit, reverse_trace_replied, List.append_assoc]
  | explored hn hc hexit hsig =>
    have hfin := finish_records s x seen .explorationExhausted (k + 1)
    rw [← hpr] at hfin
    exact .completed k _ p.tree ⟨hgo, hn, hc, ⟨_, hexit⟩, .inl ⟨rfl, hsig⟩⟩ hfin.1 hfin.2 rfl

/-- The ways in which a run ends that gets past its reset. -/
inductive Finishes (s : Setup σ) (x : Stand σ) (lock : Lock) (seen : Tree) : Ended σ → Prop where
  | completed (n : Nat) (outcome : Outcome) : n ≤ s.session.budget.toNat →
      Finishes s x lock seen (endedBy s lock (.ok ⟨s.session.id, outcome, records s x n⟩)
        (prologue s seen ++ moments s x n) (.complete outcome (UInt32.ofNat n))
        (stand s x n).tree (stand s x n).watch)
  | stopped (n : Nat) : n < s.session.budget.toNat →
      Finishes s x lock seen (endedBy s lock (.error .cancelled) (prologue s seen ++ moments s x n)
        (.aborted (UInt32.ofNat (n + 1)) Failure.cancelled.message)
        (stand s x n).tree (stand s x n).watch)
  | failed (n : Nat) (cause : Failure) : n < s.session.budget.toNat →
      Finishes s x lock seen (endedBy s lock (.error cause)
        (prologue s seen ++ moments s x n ++ (roundAt s x n).opening s (n + 1))
        (.aborted (UInt32.ofNat (n + 1)) cause.message)
        (roundAt s x n).reply.tree (roundAt s x n).watch)

section Finishes

variable {s : Setup σ} {asked : Bool} {w : σ} {t seen : Tree} {lock : Lock} {x : Stand σ}

theorem ended_of_finish (outcome : Outcome) (n : Nat) {p : Progress σ}
    {result : Except Failure Report} (hn : n ≤ s.session.budget.toNat)
    (h : (p, result) = finish s outcome (records s x n).reverse (after s x (prologue s seen) n)) :
    Finishes s x lock seen ⟨result, lock.release s.host p.tree, p.watch, p.trace.reverse⟩ := by
  obtain ⟨hresult, htrace⟩ := finish_records s x seen outcome n
  have hp : p = (finish s outcome (records s x n).reverse (after s x (prologue s seen) n)).1 :=
    congrArg Prod.fst h
  have hr : result = (finish s outcome (records s x n).reverse (after s x (prologue s seen) n)).2 :=
    congrArg Prod.snd h
  rw [hr, hp, hresult, htrace]
  have hlast : (finish s outcome (records s x n).reverse (after s x (prologue s seen) n)).1 =
      emit s (.complete outcome (UInt32.ofNat n)) (after s x (prologue s seen) n) := by
    simp [finish, length_records]
  rw [hlast]
  exact .completed n outcome hn

/-- **How a run ends that gets past its reset.** -/
theorem run_finishes (h : Begins s asked w t lock seen x) :
    Finishes s x lock seen (run s asked w t) := by
  obtain ⟨k, p, result, -, hend, hrun⟩ := run_ending h
  rw [hrun]
  generalize hpr : (p, result) = pr at hend
  cases hend with
  | spent => exact ended_of_finish _ _ (Nat.le_refl _) hpr
  | cancelled hn =>
    cases hpr
    rw [reverse_trace_emit, reverse_trace_after]
    exact .stopped k hn
  | @failed _ cause hn =>
    cases hpr
    rw [reverse_trace_emit, reverse_trace_replied]
    exact .failed k cause hn
  | explored hn => exact ended_of_finish _ _ hn hpr

end Finishes

/-- The tree after the last event of a session that is complete after `n` rounds. -/
def lastTree (s : Setup σ) (x : Stand σ) (outcome : Outcome) (n : Nat) : Tree :=
  (s.observer.notify (.complete outcome (UInt32.ofNat n)) (stand s x n).watch (stand s x n).tree).2

theorem begins_of_ok {s : Setup σ} {asked : Bool} {w : σ} {t : Tree} {report : Report}
    (h : (run s asked w t).result = .ok report) :
    ∃ lock seen x, Begins s asked w t lock seen x := by
  cases hlock : Lock.acquire s.host s.session.workDir t with
  | mk held r =>
    cases r with
    | error cause =>
      rw [run_refused asked w hlock] at h
      cases h
    | ok lock =>
      let told := s.observer.notify (sessionEvent s) w held
      cases hreset : s.workspace.reset s.host.cwd told.2 with
      | mk fresh r =>
        cases r with
        | error cause =>
          rw [run_unreset_eq asked hlock hreset] at h
          cases h
        | ok => exact ⟨lock, told.2, ⟨fresh, told.1, asked⟩, ⟨held, hlock, rfl⟩, hreset, rfl⟩

/-- **What a run does that gives a report**, for every budget. -/
theorem Begins.completed {s : Setup σ} {asked : Bool} {w : σ} {t seen : Tree} {lock : Lock}
    {x : Stand σ} {report : Report} (hbegin : Begins s asked w t lock seen x)
    (h : (run s asked w t).result = .ok report) :
    ∃ outcome n, n ≤ s.session.budget.toNat ∧ report = ⟨s.session.id, outcome, records s x n⟩ ∧
      (run s asked w t).trace = prologue s seen ++ moments s x n ++
        [.event (.complete outcome (UInt32.ofNat n)) (lastTree s x outcome n)] ∧
      (run s asked w t).tree = lock.release s.host (lastTree s x outcome n) := by
  have hfinish := run_finishes hbegin
  generalize run s asked w t = ended at h hfinish ⊢
  cases hfinish with
  | completed n outcome hn =>
    cases h
    exact ⟨outcome, n, hn, rfl, rfl, rfl⟩
  | stopped => cases h
  | failed => cases h

/-! ## Reading a trace -/

/-- The events of a trace. -/
def events (trace : List Moment) : List Event :=
  trace.filterMap fun
    | .event e _ => some e
    | .invocation _ _ _ => none

/-- The invocations of a trace, each with the tree it found. -/
def calls (trace : List Moment) : List (Nat × Tree) :=
  trace.filterMap fun
    | .event _ _ => none
    | .invocation n before _ => some (n, before)

/-- The tree that the invocation with number `i` left. -/
def leftBy (s : Setup σ) (trace : List Moment) (i : Nat) : Option Tree :=
  ((calls trace).lookup i).map fun before => (s.executor.invoke i before).tree

/-- The invocations of the first `n` rounds. -/
def callsOf (s : Setup σ) (x : Stand σ) (n : Nat) : List (Nat × Tree) :=
  (List.range n).map fun m => (m + 1, (roundAt s x m).before)

theorem callsOf_succ (n : Nat) :
    callsOf s x (n + 1) = callsOf s x n ++ [(n + 1, (roundAt s x n).before)] := by
  simp [callsOf, List.range_succ]

theorem calls_append (a b : List Moment) : calls (a ++ b) = calls a ++ calls b :=
  List.filterMap_append

theorem events_append (a b : List Moment) : events (a ++ b) = events a ++ events b :=
  List.filterMap_append

theorem calls_moments (n : Nat) : calls (moments s x n) = callsOf s x n := by
  induction n with
  | zero => rfl
  | succ n ih =>
    rw [moments_succ, calls_append, ih, callsOf_succ]
    rfl

/-- The invocations of a run past its reset, `rest` being what follows its complete rounds. -/
theorem calls_past (seen : Tree) (n : Nat) (rest : List Moment) :
    calls (prologue s seen ++ moments s x n ++ rest) = callsOf s x n ++ calls rest := by
  rw [calls_append, calls_append, calls_moments]
  rfl

theorem calls_ended (seen : Tree) (n : Nat) (e : Event) (last : Tree) :
    calls (prologue s seen ++ moments s x n ++ [.event e last]) = callsOf s x n := by
  rw [calls_past]
  exact List.append_nil _

theorem map_fst_callsOf (n : Nat) : (callsOf s x n).map Prod.fst = List.range' 1 n := by
  simp [callsOf, List.range'_eq_map_range, Function.comp_def, Nat.add_comm]

theorem lookup_callsOf (n i : Nat) :
    (callsOf s x n).lookup (i + 1) = if i < n then some (roundAt s x i).before else none := by
  induction n with
  | zero => simp [callsOf]
  | succ n ih =>
    rw [callsOf_succ, List.lookup_append, ih]
    rcases Nat.lt_trichotomy i n with h | h | h
    · rw [if_pos h, if_pos (by omega)]; rfl
    · subst h; simp
    · rw [if_neg (by omega), if_neg (by omega)]
      have : (i + 1 == n + 1) = false := by simp; omega
      simp [List.lookup_cons, this]

theorem lookup_callsOf_zero (n : Nat) : (callsOf s x n).lookup 0 = none := by
  rw [List.lookup_eq_none_iff]
  intro p hp
  obtain ⟨m, -, rfl⟩ := List.mem_map.mp hp
  simp

theorem leftBy_of_calls {s : Setup σ} {x : Stand σ} {trace : List Moment} {n : Nat}
    (h : calls trace = callsOf s x n) (i : Nat) :
    leftBy s trace (i + 1) = if i < n then some (roundAt s x i).reply.tree else none := by
  rw [leftBy, h, lookup_callsOf]
  split <;> rfl

end Concolic.Run
