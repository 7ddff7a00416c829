import Mathlib.Data.List.Forall2
import Concolic.Proofs.Stopping

/-
  Two runs in lockstep.

  Two sessions on one tree are set up alike if neither observer touches the tree and their executors
  do the same to every tree at every call, up to exit codes that are related by `R`.  With `R` the
  relation that holds of any two codes this says that exit codes steer nothing; with equality it
  says that the clock does not.
-/

namespace Concolic

/-- Two computations give related values or fail with the same cause. -/
inductive SameEnd {ε α β : Type} (R : α → β → Prop) : Except ε α → Except ε β → Prop where
  | fails (cause : ε) : SameEnd R (.error cause) (.error cause)
  | gives {a : α} {b : β} : R a b → SameEnd R (.ok a) (.ok b)

/-- The observer never changes the tree. -/
def Observer.OnlyWatches {σ : Type} (o : Observer σ) : Prop := ∀ e w t, (o.notify e w t).2 = t

theorem Observer.onlyWatches_silent : Observer.silent.OnlyWatches := fun _ _ _ => rfl

/-- The replies differ in the exit code, as far as `R` allows, and in what was printed. -/
structure Reply.Alike (R : Option Int32 → Option Int32 → Prop) (a b : Reply) : Prop where
  tree : a.tree = b.tree
  exit : SameEnd R a.exit b.exit
  cancels : a.cancels = b.cancels

/-- The records differ in the exit code, as far as `R` allows, and in what the clock told. -/
structure Iteration.Alike (R : Option Int32 → Option Int32 → Prop) (a b : Iteration) : Prop where
  number : a.number = b.number
  inputs : a.inputs = b.inputs
  history : a.history = b.history
  exit : R a.exit b.exit
  signal : a.signal = b.signal

/-- The reports differ in the exit codes and in what the clock told. -/
structure Report.Alike (R : Option Int32 → Option Int32 → Prop) (a b : Report) : Prop where
  sessionId : a.sessionId = b.sessionId
  outcome : a.outcome = b.outcome
  iterations : List.Forall₂ (Iteration.Alike R) a.iterations b.iterations

/-- The events differ in the exit code, as far as `R` allows, and in what the clock told. -/
inductive Event.Alike (R : Option Int32 → Option Int32 → Prop) : Event → Event → Prop where
  | sessionStart (id command : String) (budget : UInt32) :
      Alike R (.sessionStart id command budget) (.sessionStart id command budget)
  | iterationStart (iteration budget : UInt32) (stamp stamp' : Stamp) :
      Alike R (.iterationStart iteration budget stamp) (.iterationStart iteration budget stamp')
  | iterationEnd (iteration : UInt32) {exit exit' : Option Int32} (took took' : Duration)
      (signal : Signal) : R exit exit' →
      Alike R (.iterationEnd iteration exit took signal)
        (.iterationEnd iteration exit' took' signal)
  | complete (outcome : Outcome) (invocations : UInt32) :
      Alike R (.complete outcome invocations) (.complete outcome invocations)
  | aborted (iteration : UInt32) (reason : String) :
      Alike R (.aborted iteration reason) (.aborted iteration reason)

/-- The moments are of one kind, with the same tree and number. -/
inductive Moment.Alike (R : Option Int32 → Option Int32 → Prop) : Moment → Moment → Prop where
  | event {e e' : Event} (after : Tree) : Event.Alike R e e' →
      Alike R (.event e after) (.event e' after)
  | invocation (call : Nat) (before : Tree) (output output' : Console) :
      Alike R (.invocation call before output) (.invocation call before output')

namespace Run

variable {σ₁ σ₂ : Type} {R : Option Int32 → Option Int32 → Prop}

/-- The setups differ in what their executors print, in the exit codes as far as `R` allows, in
    their clocks and in their observers, none of which changes the tree. -/
structure Setup.Alike (R : Option Int32 → Option Int32 → Prop) (s₁ : Setup σ₁) (s₂ : Setup σ₂) :
    Prop where
  host : s₁.host = s₂.host
  session : s₁.session = s₂.session
  command : s₁.executor.command = s₂.executor.command
  invoke : ∀ n t, Reply.Alike R (s₁.executor.invoke n t) (s₂.executor.invoke n t)
  watches₁ : s₁.observer.OnlyWatches
  watches₂ : s₂.observer.OnlyWatches

/-- The runs under way have the same tree and have gone through the same trees. -/
structure Progress.Alike (R : Option Int32 → Option Int32 → Prop) (p₁ : Progress σ₁)
    (p₂ : Progress σ₂) : Prop where
  tree : p₁.tree = p₂.tree
  trace : List.Forall₂ (Moment.Alike R) p₁.trace p₂.trace

/-! ## Two loops -/

/-- The `i`-th iterations give the same up to the reply of the executor, which leaves the runs
    related by `I`. -/
structure TurnAlike (R : Option Int32 → Option Int32 → Prop) (I : Progress σ₁ → Progress σ₂ → Prop)
    (s₁ : Setup σ₁) (s₂ : Setup σ₂) (i : Nat) (p₁ : Progress σ₁) (p₂ : Progress σ₂) : Prop where
  inputs : (turn s₁ i p₁).inputs = (turn s₂ i p₂).inputs
  history : (turn s₁ i p₁).history = (turn s₂ i p₂).history
  exit : SameEnd R (turn s₁ i p₁).reply.exit (turn s₂ i p₂).reply.exit
  cancels : (turn s₁ i p₁).reply.cancels = (turn s₂ i p₂).reply.cancels
  signal : (turn s₁ i p₁).signal s₁ = (turn s₂ i p₂).signal s₂
  reply : I (atReply s₁ i p₁) (atReply s₂ i p₂)

/-- Two loops keep `I` between them: what both are told keeps it, and so does an iteration.  What
    they end with is `E`, which is less. -/
structure Coupled (R : Option Int32 → Option Int32 → Prop) (s₁ : Setup σ₁) (s₂ : Setup σ₂)
    (I E : Progress σ₁ → Progress σ₂ → Prop) : Prop where
  id : s₁.session.id = s₂.session.id
  ends : ∀ {p₁ p₂}, I p₁ p₂ → E p₁ p₂
  told : ∀ {e₁ e₂ p₁ p₂}, Event.Alike R e₁ e₂ → I p₁ p₂ → I (emit s₁ e₁ p₁) (emit s₂ e₂ p₂)
  last : ∀ {e₁ e₂ p₁ p₂}, Event.Alike R e₁ e₂ → E p₁ p₂ → E (emit s₁ e₁ p₁) (emit s₂ e₂ p₂)
  turn : ∀ {p₁ p₂} i, I p₁ p₂ → TurnAlike R I s₁ s₂ i p₁ p₂

/-- The runs have come to the same end, and `E` is what they ended with. -/
structure LoopAlike (R : Option Int32 → Option Int32 → Prop) (E : Progress σ₁ → Progress σ₂ → Prop)
    (a : Progress σ₁ × Except Failure Report) (b : Progress σ₂ × Except Failure Report) : Prop where
  progress : E a.1 b.1
  result : SameEnd (Report.Alike R) a.2 b.2

section Coupled

variable {s₁ : Setup σ₁} {s₂ : Setup σ₂} {I E : Progress σ₁ → Progress σ₂ → Prop} {p₁ : Progress σ₁}
  {p₂ : Progress σ₂} {done₁ done₂ : List Iteration}

theorem Coupled.abort (h : Coupled R s₁ s₂ I E) (iteration : Nat) (cause : Failure) (hp : E p₁ p₂) :
    LoopAlike R E (Run.abort s₁ iteration cause p₁) (Run.abort s₂ iteration cause p₂) :=
  ⟨h.last (.aborted _ _) hp, .fails cause⟩

theorem Coupled.finish (h : Coupled R s₁ s₂ I E) (outcome : Outcome)
    (hdone : List.Forall₂ (Iteration.Alike R) done₁ done₂) (hp : E p₁ p₂) :
    LoopAlike R E (Run.finish s₁ outcome done₁ p₁) (Run.finish s₂ outcome done₂ p₂) := by
  refine ⟨?_, .gives ⟨h.id, rfl, List.forall₂_reverse_iff.mpr hdone⟩⟩
  rw [Run.finish, Run.finish, hdone.length_eq]
  exact h.last (.complete _ _) hp

/-- **The loops come to the same end.** -/
theorem Coupled.iterate (h : Coupled R s₁ s₂ I E) (left : Nat) :
    ∀ (i : Nat) (cancelled : Bool) (done₁ done₂ : List Iteration) (p₁ : Progress σ₁)
      (p₂ : Progress σ₂), List.Forall₂ (Iteration.Alike R) done₁ done₂ → I p₁ p₂ →
      LoopAlike R E (Run.iterate s₁ left i cancelled done₁ p₁)
        (Run.iterate s₂ left i cancelled done₂ p₂) := by
  induction left with
  | zero =>
    intro i cancelled done₁ done₂ p₁ p₂ hdone hp
    exact h.finish .budgetExhausted hdone (h.ends hp)
  | succ left ih =>
    intro i cancelled done₁ done₂ p₁ p₂ hdone hp
    cases cancelled with
    | true => exact h.abort i .cancelled (h.ends hp)
    | false =>
      have hturn := h.turn i hp
      have hexit := hturn.exit
      rw [iterate_succ, iterate_succ, ← hturn.signal, ← hturn.cancels]
      generalize (Run.turn s₁ i p₁).reply.exit = exit₁ at hexit ⊢
      generalize (Run.turn s₂ i p₂).reply.exit = exit₂ at hexit ⊢
      cases hexit with
      | fails cause => exact h.abort i cause (h.ends hturn.reply)
      | @gives code₁ code₂ hcode =>
        -- the codes go into an event and a record, and only the signal decides what comes next
        have hended := h.told (.iterationEnd (UInt32.ofNat i) (s₁.clock.took i) (s₂.clock.took i)
          ((Run.turn s₁ i p₁).signal s₁) hcode) hturn.reply
        have hrecord : Iteration.Alike R { (Run.turn s₁ i p₁).record s₁ i with exit := code₁ }
            { (Run.turn s₂ i p₂).record s₂ i with exit := code₂ } :=
          ⟨rfl, hturn.inputs, hturn.history, hcode, hturn.signal⟩
        dsimp only
        split
        · exact ih _ _ _ _ _ _ (.cons hrecord hdone) hended
        · exact h.finish _ (.cons hrecord hdone) (h.ends hended)

end Coupled

section Lockstep

variable {s₁ : Setup σ₁} {s₂ : Setup σ₂} {p₁ : Progress σ₁} {p₂ : Progress σ₂}

section Alike

variable (h : s₁.Alike R s₂)
include h

theorem workspace_alike : s₁.workspace = s₂.workspace := by
  rw [Setup.workspace, Setup.workspace, h.session]

/-! ## Loops over the same trees -/

theorem emit_alike {e₁ e₂ : Event} (he : Event.Alike R e₁ e₂)
    (hp : p₁.Alike R p₂) : (emit s₁ e₁ p₁).Alike R (emit s₂ e₂ p₂) := by
  have htree₁ : (emit s₁ e₁ p₁).tree = p₁.tree := h.watches₁ e₁ p₁.watch p₁.tree
  have htree₂ : (emit s₂ e₂ p₂).tree = p₁.tree :=
    (h.watches₂ e₂ p₂.watch p₂.tree).trans hp.tree.symm
  refine ⟨htree₁.trans htree₂.symm, ?_⟩
  show List.Forall₂ (Moment.Alike R) (.event e₁ (emit s₁ e₁ p₁).tree :: p₁.trace)
    (.event e₂ (emit s₂ e₂ p₂).tree :: p₂.trace)
  rw [htree₁, htree₂]
  exact .cons (.event _ he) hp.trace

/-- The archives are made of the same tree, so both executors find the same tree. -/
theorem turn_alike (i : Nat) (hp : p₁.Alike R p₂) :
    (turn s₁ i p₁).inputs = (turn s₂ i p₂).inputs ∧
      (turn s₁ i p₁).history = (turn s₂ i p₂).history ∧
      (turn s₁ i p₁).before = (turn s₂ i p₂).before ∧
      Reply.Alike R (turn s₁ i p₁).reply (turn s₂ i p₂).reply := by
  have hbefore : (turn s₁ i p₁).before = (turn s₂ i p₂).before := by
    simp only [turn, round, h.watches₁ _ _ _, h.watches₂ _ _ _, workspace_alike h, h.host, hp.tree]
  refine ⟨?_, ?_, hbefore, ?_⟩
  · simp only [turn, round, workspace_alike h, h.host, hp.tree]
  · simp only [turn, round, workspace_alike h, h.host, hp.tree]
  · show Reply.Alike R (s₁.executor.invoke i (turn s₁ i p₁).before)
      (s₂.executor.invoke i (turn s₂ i p₂).before)
    rw [hbefore]
    exact h.invoke i _

theorem atReply_alike (i : Nat) (hp : p₁.Alike R p₂) :
    (atReply s₁ i p₁).Alike R (atReply s₂ i p₂) := by
  obtain ⟨-, -, hbefore, hreply⟩ := turn_alike h i hp
  have hstart : Event.Alike R (startEvent s₁ i) (startEvent s₂ i) := by
    rw [startEvent, startEvent, h.session]
    exact .iterationStart _ _ _ _
  refine ⟨hreply.tree, ?_⟩
  show List.Forall₂ (Moment.Alike R)
    (.invocation i (turn s₁ i p₁).before (turn s₁ i p₁).reply.output ::
      .event (startEvent s₁ i) (turn s₁ i p₁).before :: p₁.trace)
    (.invocation i (turn s₂ i p₂).before (turn s₂ i p₂).reply.output ::
      .event (startEvent s₂ i) (turn s₂ i p₂).before :: p₂.trace)
  rw [hbefore]
  exact .cons (.invocation _ _ _ _) (.cons (.event _ hstart) hp.trace)

theorem coupled_of_alike : Coupled R s₁ s₂ (Progress.Alike R) (Progress.Alike R) where
  id := congrArg Session.id h.session
  ends hp := hp
  told he hp := emit_alike h he hp
  last he hp := emit_alike h he hp
  turn {p₁ p₂} i hp := by
    obtain ⟨hinputs, hhistory, -, hreply⟩ := turn_alike h i hp
    have hsignal : (turn s₁ i p₁).signal s₁ = (turn s₂ i p₂).signal s₂ := by
      rw [Round.signal, Round.signal, workspace_alike h, h.host, hreply.tree]
    exact ⟨hinputs, hhistory, hreply.exit, hreply.cancels, hsignal, atReply_alike h i hp⟩

theorem locked_alike (asked : Bool) (hp : p₁.Alike R p₂) :
    LoopAlike R (Progress.Alike R) (locked s₁ asked p₁) (locked s₂ asked p₂) := by
  have hstart : (emit s₁ (sessionEvent s₁) p₁).Alike R (emit s₂ (sessionEvent s₂) p₂) := by
    refine emit_alike h ?_ hp
    rw [sessionEvent, sessionEvent, h.session, h.command]
    exact .sessionStart _ _ _
  cases hreset : s₁.workspace.reset s₁.host.cwd (emit s₁ (sessionEvent s₁) p₁).tree with
  | mk fresh r =>
    have hreset₂ := hreset
    rw [workspace_alike h, h.host, hstart.tree] at hreset₂
    cases r with
    | error cause =>
      rw [locked_failed asked hreset, locked_failed asked hreset₂]
      exact (coupled_of_alike h).abort 0 cause ⟨rfl, hstart.trace⟩
    | ok =>
      rw [locked_reset asked hreset, locked_reset asked hreset₂, h.session]
      exact (coupled_of_alike h).iterate _ _ _ _ _ _ _ .nil ⟨rfl, hstart.trace⟩

/-! ## Whole runs -/

/-- The runs have ended alike over the same trees. -/
structure Ended.Alike (R : Option Int32 → Option Int32 → Prop) (a : Ended σ₁) (b : Ended σ₂) :
    Prop where
  result : SameEnd (Report.Alike R) a.result b.result
  tree : a.tree = b.tree
  trace : List.Forall₂ (Moment.Alike R) a.trace b.trace

/-- **Two runs in lockstep** go through the same trees and come to the same end. -/
theorem run_alike (asked : Bool) (w₁ : σ₁) (w₂ : σ₂) (t : Tree) :
    Ended.Alike R (run s₁ asked w₁ t) (run s₂ asked w₂ t) := by
  cases hlock : Lock.acquire s₁.host s₁.session.workDir t with
  | mk held r =>
    have hlock₂ := hlock
    rw [h.host, h.session] at hlock₂
    cases r with
    | error cause =>
      rw [run_refused asked w₁ hlock, run_refused asked w₂ hlock₂]
      exact ⟨.fails cause, rfl, .nil⟩
    | ok lock =>
      have hlocked : LoopAlike R (Progress.Alike R) (locked s₁ asked ⟨held, w₁, []⟩)
          (locked s₂ asked ⟨held, w₂, []⟩) :=
        locked_alike h asked ⟨rfl, .nil⟩
      rw [run_locked asked w₁ hlock, run_locked asked w₂ hlock₂, h.host]
      exact ⟨hlocked.result, congrArg (lock.release s₂.host) hlocked.progress.tree,
        List.forall₂_reverse_iff.mpr hlocked.progress.trace⟩

end Alike

theorem calls_alike {trace₁ trace₂ : List Moment}
    (h : List.Forall₂ (Moment.Alike R) trace₁ trace₂) : calls trace₁ = calls trace₂ := by
  induction h with
  | nil => rfl
  | cons hm _ ih =>
    cases hm with
    | event => exact ih
    | invocation call before => exact congrArg ((call, before) :: ·) ih

theorem events_alike {trace₁ trace₂ : List Moment}
    (h : List.Forall₂ (Moment.Alike R) trace₁ trace₂) :
    List.Forall₂ (Event.Alike R) (events trace₁) (events trace₂) := by
  induction h with
  | nil => exact .nil
  | cons hm _ ih =>
    cases hm with
    | event after he => exact .cons he ih
    | invocation => exact ih

end Lockstep

/-- **Exit codes steer nothing.**  Two executors that leave the same tree at every call, fail at the
    same calls with the same cause and are told to stop at the same calls may exit with any codes.
    Both runs make the same calls on the same trees, end alike and leave the same tree; their
    reports and events differ in exit codes and in what the clocks told, and nowhere else. -/
theorem run_indifferent_to_exit_codes (s₁ : Setup σ₁) (s₂ : Setup σ₂) (asked : Bool) (w₁ : σ₁)
    (w₂ : σ₂) (t : Tree) (hhost : s₁.host = s₂.host) (hsession : s₁.session = s₂.session)
    (hcommand : s₁.executor.command = s₂.executor.command)
    (hinvoke : ∀ n t, Reply.Alike (fun _ _ => True) (s₁.executor.invoke n t)
      (s₂.executor.invoke n t))
    (hwatches₁ : s₁.observer.OnlyWatches) (hwatches₂ : s₂.observer.OnlyWatches) :
    let ended₁ := run s₁ asked w₁ t
    let ended₂ := run s₂ asked w₂ t
    calls ended₁.trace = calls ended₂.trace ∧
      SameEnd (Report.Alike fun _ _ => True) ended₁.result ended₂.result ∧
      ended₁.tree = ended₂.tree ∧
      List.Forall₂ (Event.Alike fun _ _ => True) (events ended₁.trace) (events ended₂.trace) := by
  intro ended₁ ended₂
  have h := run_alike ⟨hhost, hsession, hcommand, hinvoke, hwatches₁, hwatches₂⟩ asked w₁ w₂ t
  exact ⟨calls_alike h.trace, h.result, h.tree, events_alike h.trace⟩

/-- The session that `shortSession` is, but its first invocation is killed by a signal, all others
    exit with another code, and its clock runs otherwise. -/
def killedSession : Setup Unit :=
  { shortSession with
    executor := ⟨"explore", fun n t =>
      { shortSession.executor.invoke n t with exit := .ok (if n = 1 then none else some 3) }⟩
    clock := ⟨fun _ => ⟨2, 0, 0, 0, 0⟩, fun _ => Duration.ofSeconds 9⟩ }

theorem killedSession_alike : let ended₁ := run shortSession false () Tree.empty
    let ended₂ := run killedSession false () Tree.empty
    (ended₁.result.toOption.map fun r => r.iterations.map (·.exit)) = some [some 1, some 1] ∧
      (ended₂.result.toOption.map fun r => r.iterations.map (·.exit)) = some [none, some 3] ∧
      calls ended₁.trace = calls ended₂.trace ∧
      SameEnd (Report.Alike fun _ _ => True) ended₁.result ended₂.result ∧
      ended₁.tree = ended₂.tree ∧
      List.Forall₂ (Event.Alike fun _ _ => True) (events ended₁.trace) (events ended₂.trace) :=
  ⟨by decide +kernel, by decide +kernel,
    run_indifferent_to_exit_codes shortSession killedSession false () () Tree.empty rfl rfl rfl
      (fun _ _ => ⟨rfl, .gives trivial, rfl⟩) Observer.onlyWatches_silent
      Observer.onlyWatches_silent⟩

end Run

end Concolic
