import Mathlib.Logic.Function.Iterate
import Concolic.Proofs.Lockstep

/-
  A run, step by step.

  Between two steps a run stands in a `Phase`, which holds all that it has learnt so far, and the
  tree is whatever it finds.
-/

namespace Concolic.Run

variable {σ : Type}

/-- An iteration under way: the lock that is held, how many iterations may follow it, its number,
    and the records of those before it, newest first. -/
structure Turn where
  lock : Lock
  left : Nat
  number : Nat
  done : List Iteration

/-- Where a run stands between two steps. -/
inductive Phase where
  /-- It has done nothing. -/
  | ready
  /-- It has the lock. -/
  | holding (lock : Lock)
  /-- It is about to start an iteration. -/
  | opening (k : Turn)
  /-- The inputs are archived. -/
  | archived (k : Turn) (inputs : InputSnapshot)
  /-- The history is archived too. -/
  | saved (k : Turn) (inputs : InputSnapshot) (history : Copy)
  /-- The executor has exited. -/
  | replied (k : Turn) (inputs : InputSnapshot) (history : Copy) (exit : Option Int32)
      (cancels : Bool)
  /-- It has only to give the lock back. -/
  | closing (lock : Lock) (result : Except Failure Report)
  /-- It is over. -/
  | finished (result : Except Failure Report)

/-- What comes before the iteration with number `i`, if `left` more are allowed. -/
def advance (s : Setup σ) (lock : Lock) (left i : Nat) (cancelled : Bool) (done : List Iteration) :
    Phase :=
  match left with
  | 0 => .closing lock (.ok ⟨s.session.id, .budgetExhausted, done.reverse⟩)
  | left + 1 =>
    if cancelled then .closing lock (.error .cancelled) else .opening ⟨lock, left, i, done⟩

/-- The record of the iteration, once the signal is read. -/
def Turn.record (s : Setup σ) (k : Turn) (inputs : InputSnapshot) (history : Copy)
    (exit : Option Int32) (signal : Signal) : Iteration :=
  { number := UInt32.ofNat k.number
    startedAt := s.clock.stamp k.number
    inputs, history, exit
    took := s.clock.took k.number
    signal }

/-- What comes after the reply of the executor, once the signal is read. -/
def Turn.conclude (s : Setup σ) (k : Turn) (inputs : InputSnapshot) (history : Copy)
    (exit : Option Int32) (cancels : Bool) (signal : Signal) : Phase :=
  let done := k.record s inputs history exit signal :: k.done
  if signal.continues then advance s k.lock k.left (k.number + 1) cancels done
  else .closing k.lock (.ok ⟨s.session.id, .explorationExhausted, done.reverse⟩)

/-- The next step of a run; `asked` tells whether it was asked to stop before it began. -/
def step (s : Setup σ) (asked : Bool) : Phase × Tree → Phase × Tree
  | (.ready, t) =>
    match Lock.acquire s.host s.session.workDir t with
    | (t', .error cause) => (.finished (.error cause), t')
    | (t', .ok lock) => (.holding lock, t')
  | (.holding lock, t) =>
    match s.workspace.reset s.host.cwd t with
    | (t', .error cause) => (.closing lock (.error cause), t')
    | (t', .ok ()) => (advance s lock s.session.budget.toNat 1 asked [], t')
  | (.opening k, t) =>
    let r := s.workspace.snapshotInputs s.host.cwd (UInt32.ofNat k.number) t
    (.archived k r.1, r.2)
  | (.archived k inputs, t) =>
    let r := s.workspace.snapshotHistory s.host.cwd t
    (.saved k inputs r.1, r.2)
  | (.saved k inputs history, t) =>
    let reply := s.executor.invoke k.number t
    match reply.exit with
    | .error cause => (.closing k.lock (.error cause), reply.tree)
    | .ok exit => (.replied k inputs history exit reply.cancels, reply.tree)
  | (.replied k inputs history exit cancels, t) =>
    (k.conclude s inputs history exit cancels (s.workspace.signal s.host.cwd t), t)
  | (.closing lock result, t) => (.finished result, lock.release s.host t)
  | (.finished result, t) => (.finished result, t)

/-! ## The steps make a run -/

section Step

variable {s : Setup σ} {t t' : Tree} {lock : Lock} {cause : Failure} (asked : Bool)

theorem step_ready_refused (h : Lock.acquire s.host s.session.workDir t = (t', .error cause)) :
    step s asked (.ready, t) = (.finished (.error cause), t') := by
  unfold step
  simp only [h]

theorem step_ready_taken (h : Lock.acquire s.host s.session.workDir t = (t', .ok lock)) :
    step s asked (.ready, t) = (.holding lock, t') := by
  unfold step
  simp only [h]

theorem step_holding_failed (lock : Lock)
    (h : s.workspace.reset s.host.cwd t = (t', .error cause)) :
    step s asked (.holding lock, t) = (.closing lock (.error cause), t') := by
  unfold step
  simp only [h]

theorem step_holding_reset (lock : Lock) (h : s.workspace.reset s.host.cwd t = (t', .ok ())) :
    step s asked (.holding lock, t) = (advance s lock s.session.budget.toNat 1 asked [], t') := by
  unfold step
  simp only [h]

theorem step_opening (k : Turn) (t : Tree) :
    step s asked (.opening k, t) =
      (.archived k (s.workspace.snapshotInputs s.host.cwd (UInt32.ofNat k.number) t).1,
        (s.workspace.snapshotInputs s.host.cwd (UInt32.ofNat k.number) t).2) := rfl

theorem step_archived (k : Turn) (inputs : InputSnapshot) (t : Tree) :
    step s asked (.archived k inputs, t) =
      (.saved k inputs (s.workspace.snapshotHistory s.host.cwd t).1,
        (s.workspace.snapshotHistory s.host.cwd t).2) := rfl

theorem step_saved_failed {k : Turn} (inputs : InputSnapshot) (history : Copy)
    (h : (s.executor.invoke k.number t).exit = .error cause) :
    step s asked (.saved k inputs history, t) =
      (.closing k.lock (.error cause), (s.executor.invoke k.number t).tree) := by
  unfold step
  simp only [h]

theorem step_saved_replied {k : Turn} (inputs : InputSnapshot) (history : Copy)
    {exit : Option Int32} (h : (s.executor.invoke k.number t).exit = .ok exit) :
    step s asked (.saved k inputs history, t) =
      (.replied k inputs history exit (s.executor.invoke k.number t).cancels,
        (s.executor.invoke k.number t).tree) := by
  unfold step
  simp only [h]

theorem step_replied (k : Turn) (inputs : InputSnapshot) (history : Copy)
    (exit : Option Int32) (cancels : Bool) (t : Tree) :
    step s asked (.replied k inputs history exit cancels, t) =
      (k.conclude s inputs history exit cancels (s.workspace.signal s.host.cwd t), t) := rfl

theorem step_closing (lock : Lock) (result : Except Failure Report) (t : Tree) :
    step s asked (.closing lock result, t) = (.finished result, lock.release s.host t) := rfl

theorem steps_finished (result : Except Failure Report) (t : Tree) (n : Nat) :
    (step s asked)^[n] (.finished result, t) = (.finished result, t) :=
  Function.iterate_fixed rfl n

end Step

section Watching

variable {s : Setup σ} (h : s.observer.OnlyWatches)
include h

theorem tree_emit (e : Event) (p : Progress σ) : (emit s e p).tree = p.tree := h e p.watch p.tree

/-- The three steps from the beginning of an iteration to the reply of the executor. -/
theorem steps_to_reply (asked : Bool) (k : Turn) (p : Progress σ) :
    (step s asked)^[3] (.opening k, p.tree) =
      match (turn s k.number p).reply.exit with
      | .error cause => (.closing k.lock (.error cause), (turn s k.number p).reply.tree)
      | .ok exit => (.replied k (turn s k.number p).inputs (turn s k.number p).history exit
          (turn s k.number p).reply.cancels, (turn s k.number p).reply.tree) := by
  have hreply : (turn s k.number p).reply = s.executor.invoke k.number
      (s.workspace.snapshotHistory s.host.cwd
        (s.workspace.snapshotInputs s.host.cwd (UInt32.ofNat k.number) p.tree).2).2 := by
    rw [turn, round]
    simp only [h _ _ _]
  rw [hreply]
  rfl

/-- The four steps of an iteration whose executor replies; the last one reads the signal. -/
theorem steps_of_reply (asked : Bool) (k : Turn)
    (p : Progress σ) {code : Option Int32} (hexit : (turn s k.number p).reply.exit = .ok code) :
    (step s asked)^[4] (.opening k, p.tree) =
      (k.conclude s (turn s k.number p).inputs (turn s k.number p).history code
        (turn s k.number p).reply.cancels ((turn s k.number p).signal s),
        (turn s k.number p).reply.tree) := by
  have hreply := steps_to_reply h asked k p
  simp only [hexit] at hreply
  rw [Function.iterate_succ_apply', hreply]
  rfl

/-- **The loop is a sequence of steps.** -/
theorem iterate_eq_steps (asked : Bool) (lock : Lock) :
    ∀ (left i : Nat) (cancelled : Bool) (done : List Iteration) (p : Progress σ),
      ∃ n, (step s asked)^[n] (advance s lock left i cancelled done, p.tree) =
        (.closing lock (iterate s left i cancelled done p).2,
          (iterate s left i cancelled done p).1.tree) := by
  intro left
  induction left with
  | zero =>
    intro i cancelled done p
    refine ⟨0, ?_⟩
    rw [iterate, finish, tree_emit h]
    rfl
  | succ left ih =>
    intro i cancelled done p
    cases cancelled with
    | true =>
      refine ⟨0, ?_⟩
      show (_, p.tree) = (_, (abort s i .cancelled p).1.tree)
      rw [abort, tree_emit h]
      rfl
    | false =>
      rw [iterate_succ]
      cases hexit : (turn s i p).reply.exit with
      | error cause =>
        have hreply := steps_to_reply h asked ⟨lock, left, i, done⟩ p
        simp only [hexit] at hreply
        refine ⟨3, hreply.trans ?_⟩
        simp only [abort, tree_emit h]
        rfl
      | ok code =>
        have hround := steps_of_reply h asked ⟨lock, left, i, done⟩ p hexit
        cases hc : ((turn s i p).signal s).continues with
        | false =>
          rw [Turn.conclude, if_neg (by simp [hc])] at hround
          refine ⟨4, hround.trans ?_⟩
          simp only [hc, Bool.false_eq_true, if_false, finish, tree_emit h]
          rfl
        | true =>
          let ended := emit s (.iterationEnd (UInt32.ofNat i) code (s.clock.took i)
            ((turn s i p).signal s)) (atReply s i p)
          have htree : ended.tree = (turn s i p).reply.tree := tree_emit h _ _
          rw [Turn.conclude, if_pos hc, ← htree] at hround
          obtain ⟨n, hn⟩ := ih (i + 1) (turn s i p).reply.cancels
            ({ (turn s i p).record s i with exit := code } :: done) ended
          refine ⟨n + 4, ?_⟩
          simp only [hc, if_true]
          rw [Function.iterate_add_apply]
          exact (congrArg (step s asked)^[n] hround).trans hn

/-- **A run is the sequence of its steps**, as long as its observer leaves the tree alone. -/
theorem run_eq_steps (asked : Bool) (w : σ) (t : Tree) :
    ∃ n, (step s asked)^[n] (.ready, t) =
      (.finished (run s asked w t).result, (run s asked w t).tree) := by
  cases hlock : Lock.acquire s.host s.session.workDir t with
  | mk held r =>
    cases r with
    | error cause =>
      refine ⟨1, ?_⟩
      rw [run_refused asked w hlock, Function.iterate_one, step_ready_refused asked hlock]
    | ok lock =>
      -- the lock is given back in the last step
      have hclose : ∀ {n : Nat}, (step s asked)^[n] (.holding lock, held) =
          (.closing lock (locked s asked ⟨held, w, []⟩).2, (locked s asked ⟨held, w, []⟩).1.tree) →
          (step s asked)^[n + 2] (.ready, t) =
            (.finished (run s asked w t).result, (run s asked w t).tree) := by
        intro n hn
        rw [Function.iterate_succ_apply, step_ready_taken asked hlock,
          Function.iterate_succ_apply', hn, run_locked asked w hlock]
        rfl
      have htree : (emit s (sessionEvent s) ⟨held, w, []⟩).tree = held := tree_emit h _ _
      cases hreset : s.workspace.reset s.host.cwd held with
      | mk fresh r' =>
        have hreset' := hreset
        rw [← htree] at hreset'
        cases r' with
        | error cause =>
          refine ⟨1 + 2, hclose ?_⟩
          rw [Function.iterate_one, step_holding_failed asked lock hreset,
            locked_failed asked hreset', abort, tree_emit h]
        | ok =>
          obtain ⟨n, hn⟩ := iterate_eq_steps h asked lock s.session.budget.toNat 1 asked []
            { emit s (sessionEvent s) ⟨held, w, []⟩ with tree := fresh }
          refine ⟨(n + 1) + 2, hclose ?_⟩
          rw [Function.iterate_succ_apply, step_holding_reset asked lock hreset,
            locked_reset asked hreset']
          exact hn

end Watching

/-! ## Two runs on one tree -/

/-- Which of two runs. -/
inductive Side where
  | first
  | second
  deriving DecidableEq

/-- Two runs on the tree that they share. -/
structure Pair where
  first : Phase
  second : Phase
  tree : Tree

variable {σ₁ σ₂ : Type}

/-- One of the runs takes its next step. -/
def Pair.act (s₁ : Setup σ₁) (s₂ : Setup σ₂) (asked₁ asked₂ : Bool) (x : Pair) : Side → Pair
  | .first =>
    let next := step s₁ asked₁ (x.first, x.tree)
    ⟨next.1, x.second, next.2⟩
  | .second =>
    let next := step s₂ asked₂ (x.second, x.tree)
    ⟨x.first, next.1, next.2⟩

/-- Both runs start on `t`, and take their steps as the schedule says. -/
def interleave (s₁ : Setup σ₁) (s₂ : Setup σ₂) (asked₁ asked₂ : Bool) (t : Tree)
    (schedule : List Side) : Pair :=
  schedule.foldl (Pair.act s₁ s₂ asked₁ asked₂) ⟨.ready, .ready, t⟩

end Concolic.Run
