import Concolic.Program
import Concolic.Proofs.Lockstep

/-
  What observers hear.

  An observer that never touches the tree may stand beside another one, or inside a recorder, and
  the run is the same as without it.
-/

namespace Concolic

/-! ## Observers that only listen -/

/-- Something is told at the moment. -/
def Moment.isEvent : Moment → Bool
  | .event _ _ => true
  | .invocation _ _ _ => false

namespace Run

variable {σ τ ρ : Type}

/-- The same session with another observer and another clock. -/
def Setup.observedBy (s : Setup σ) (o : Observer τ) (clock : Clock) : Setup τ :=
  ⟨s.host, s.session, s.executor, o, clock⟩

/-! ## A second observer -/

/-- The run under way as it is for an observer that sees a part of what another one keeps. -/
def Progress.seen (view : τ → σ) (p : Progress τ) : Progress σ := ⟨p.tree, view p.watch, p.trace⟩

/-- An iteration likewise. -/
def Round.seen (view : τ → σ) (r : Round τ) : Round σ :=
  ⟨r.inputs, r.history, view r.watch, r.before, r.reply⟩

section Seen

variable {s : Setup ρ} {o : Observer σ} {o' : Observer τ} {view : τ → σ} {clock : Clock}
  (hview : ∀ e x t, o.notify e (view x) t = (view (o'.notify e x t).1, (o'.notify e x t).2))

include hview

theorem emit_seen (e : Event) (p : Progress τ) :
    emit (s.observedBy o clock) e (p.seen view) = (emit (s.observedBy o' clock) e p).seen view := by
  show (⟨(o.notify e (view p.watch) p.tree).2, (o.notify e (view p.watch) p.tree).1,
    .event e (o.notify e (view p.watch) p.tree).2 :: p.trace⟩ : Progress σ) = _
  rw [hview]
  rfl

theorem turn_seen (i : Nat) (p : Progress τ) :
    turn (s.observedBy o clock) i (p.seen view) = (turn (s.observedBy o' clock) i p).seen view := by
  have htold := fun archived => hview (startEvent (s.observedBy o' clock) i) p.watch archived
  unfold turn round Round.seen
  exact congrArg (fun told : Tree → σ × Tree =>
    let archived := s.workspace.snapshotInputs s.host.cwd (UInt32.ofNat i) p.tree
    let saved := s.workspace.snapshotHistory s.host.cwd archived.2
    (⟨archived.1, saved.1, (told saved.2).1, (told saved.2).2,
      s.executor.invoke i (told saved.2).2⟩ : Round σ)) (funext htold)

theorem atReply_seen (i : Nat) (p : Progress τ) :
    atReply (s.observedBy o clock) i (p.seen view) =
      (atReply (s.observedBy o' clock) i p).seen view := by
  unfold atReply
  rw [turn_seen hview]
  rfl

theorem abort_seen (iteration : Nat) (cause : Failure) (p : Progress τ) :
    abort (s.observedBy o clock) iteration cause (p.seen view) =
      ((abort (s.observedBy o' clock) iteration cause p).1.seen view,
        (abort (s.observedBy o' clock) iteration cause p).2) :=
  congrArg (·, Except.error cause) (emit_seen hview _ p)

theorem finish_seen (outcome : Outcome) (done : List Iteration) (p : Progress τ) :
    finish (s.observedBy o clock) outcome done (p.seen view) =
      ((finish (s.observedBy o' clock) outcome done p).1.seen view,
        (finish (s.observedBy o' clock) outcome done p).2) :=
  congrArg (·, Except.ok _) (emit_seen hview _ p)

/-- **The loop is the same** for both observers. -/
theorem iterate_seen (left : Nat) : ∀ (i : Nat) (cancelled : Bool) (done : List Iteration)
    (p : Progress τ), iterate (s.observedBy o clock) left i cancelled done (p.seen view) =
      ((iterate (s.observedBy o' clock) left i cancelled done p).1.seen view,
        (iterate (s.observedBy o' clock) left i cancelled done p).2) := by
  induction left with
  | zero => exact fun _ _ done p => finish_seen hview _ done p
  | succ left ih =>
    intro i cancelled done p
    cases cancelled with
    | true => exact abort_seen hview i .cancelled p
    | false =>
      rw [iterate_succ, iterate_succ, atReply_seen hview, turn_seen hview]
      cases hexit : (turn (s.observedBy o' clock) i p).reply.exit with
      | error cause =>
        rw [Round.seen, hexit]
        exact abort_seen hview i cause _
      | ok code =>
        have hexit' : ((turn (s.observedBy o' clock) i p).seen view).reply.exit = .ok code := hexit
        rw [hexit']
        dsimp only
        rw [emit_seen hview]
        have hsignal : ((turn (s.observedBy o' clock) i p).seen view).signal
            (s.observedBy o clock) =
            (turn (s.observedBy o' clock) i p).signal (s.observedBy o' clock) := rfl
        rw [hsignal]
        split
        · exact ih _ _ _ _
        · exact finish_seen hview _ _ _

theorem locked_seen (asked : Bool) (p : Progress τ) :
    locked (s.observedBy o clock) asked (p.seen view) =
      ((locked (s.observedBy o' clock) asked p).1.seen view,
        (locked (s.observedBy o' clock) asked p).2) := by
  have hstart : emit (s.observedBy o clock) (sessionEvent (s.observedBy o clock)) (p.seen view) =
      (emit (s.observedBy o' clock) (sessionEvent (s.observedBy o' clock)) p).seen view :=
    emit_seen hview _ p
  cases hreset : s.workspace.reset s.host.cwd (emit (s.observedBy o' clock)
      (sessionEvent (s.observedBy o' clock)) p).tree with
  | mk fresh r =>
    have hreset' : s.workspace.reset s.host.cwd (emit (s.observedBy o clock)
        (sessionEvent (s.observedBy o clock)) (p.seen view)).tree = (fresh, r) := by
      rw [hstart]
      exact hreset
    cases r with
    | error cause =>
      rw [locked_failed asked hreset, locked_failed asked hreset', hstart]
      exact abort_seen hview 0 cause
        { emit (s.observedBy o' clock) (sessionEvent (s.observedBy o' clock)) p with tree := fresh }
    | ok =>
      rw [locked_reset asked hreset, locked_reset asked hreset', hstart]
      exact iterate_seen hview _ _ _ _
        { emit (s.observedBy o' clock) (sessionEvent (s.observedBy o' clock)) p with tree := fresh }

variable (o o' view) in
/-- **The run is the same** for both observers. -/
theorem run_seen (asked : Bool) (x : τ) (t : Tree) :
    run (s.observedBy o clock) asked (view x) t =
      ⟨(run (s.observedBy o' clock) asked x t).result, (run (s.observedBy o' clock) asked x t).tree,
        view (run (s.observedBy o' clock) asked x t).watch,
        (run (s.observedBy o' clock) asked x t).trace⟩ := by
  cases hacquire : Lock.acquire s.host s.session.workDir t with
  | mk held r =>
    cases r with
    | error cause =>
      rw [run_refused (s := s.observedBy o clock) asked (view x) hacquire,
        run_refused (s := s.observedBy o' clock) asked x hacquire]
    | ok lock =>
      have hlocked : locked (s.observedBy o clock) asked ⟨held, view x, []⟩ =
          ((locked (s.observedBy o' clock) asked ⟨held, x, []⟩).1.seen view,
            (locked (s.observedBy o' clock) asked ⟨held, x, []⟩).2) :=
        locked_seen hview asked ⟨held, x, []⟩
      rw [run_locked (s := s.observedBy o clock) asked (view x) hacquire,
        run_locked (s := s.observedBy o' clock) asked x hacquire, hlocked]
      rfl

end Seen

/-! ## What is heard -/

theorem events_reverse (trace : List Moment) : events trace.reverse = (events trace).reverse :=
  List.filterMap_reverse

section Hearing

variable {s : Setup σ} {view : σ → ρ} {f : ρ → Event → ρ}

variable {w : ρ} (hview : ∀ e x t, view (s.observer.notify e x t).1 = f (view x) e)

include hview

theorem heard_stand (x : Stand σ) (n : Nat) :
    view (stand s x n).watch = (events (moments s x n)).foldl f (view x.watch) := by
  induction n with
  | zero => rfl
  | succ n ih =>
    have hstart : view (roundAt s x n).watch =
        f (view (stand s x n).watch) (startEvent s (n + 1)) :=
      hview _ _ _
    have hend : view (stand s x (n + 1)).watch =
        f (view (roundAt s x n).watch) ((roundAt s x n).endEvent s (n + 1)) := hview _ _ _
    rw [moments_succ, events_append, List.foldl_append, ← ih, hend, hstart]
    rfl

theorem heard_endedBy {past : List Moment} {x : σ}
    (h : view x = (events past).foldl f w) (lock : Lock)
    (result : Except Failure Report) (e : Event) (t : Tree) :
    view (endedBy s lock result past e t x).watch =
      (events (endedBy s lock result past e t x).trace).foldl f w := by
  rw [endedBy, hview, events_append, List.foldl_append, ← h]
  rfl

variable (view f) in
/-- **An observer hears every event of a run**, each once and in order. -/
theorem heard_run (asked : Bool) (x : σ) (t : Tree) :
    view (run s asked x t).watch = (events (run s asked x t).trace).foldl f (view x) := by
  rcases hacquire : Lock.acquire s.host s.session.workDir t with ⟨held, cause | lock⟩
  · rw [run_refused asked x hacquire]
    rfl
  let told := s.observer.notify (sessionEvent s) x held
  have hstart : view told.1 = f (view x) (sessionEvent s) := hview _ _ _
  rcases hreset : s.workspace.reset s.host.cwd told.2 with ⟨fresh, cause | _⟩
  · rw [run_unreset_eq asked hacquire hreset]
    exact heard_endedBy hview hstart lock _ _ _
  have hfinish := run_finishes (x := ⟨fresh, told.1, asked⟩) ⟨⟨held, hacquire, rfl⟩, hreset, rfl⟩
  have hrounds : ∀ n, view (stand s ⟨fresh, told.1, asked⟩ n).watch =
      (events (prologue s told.2 ++ moments s ⟨fresh, told.1, asked⟩ n)).foldl f (view x) := by
    intro n
    rw [heard_stand hview, hstart, events_append, List.foldl_append]
    rfl
  generalize run s asked x t = ended at hfinish ⊢
  cases hfinish with
  | completed n => exact heard_endedBy hview (hrounds n) lock _ _ _
  | stopped n => exact heard_endedBy hview (hrounds n) lock _ _ _
  | failed n =>
    refine heard_endedBy hview ?_ lock _ _ _
    rw [events_append, List.foldl_append, ← hrounds]
    exact hview _ _ _

end Hearing

theorem heard_hearing (s : Setup σ) (f : τ → Event → τ) (clock : Clock) (asked : Bool)
    (w : τ) (t : Tree) : (run (s.observedBy (.hearing f) clock) asked w t).watch =
      (events (run (s.observedBy (.hearing f) clock) asked w t).trace).foldl f w :=
  heard_run (s := s.observedBy (.hearing f) clock) (fun heard => heard) f
    (fun _ _ _ => rfl) asked w t

theorem heard_wrapping (s : Setup σ) (r : Recorder) (f : τ → Event → τ)
    (clock : Clock) (asked : Bool) (w : τ × Current) (t : Tree) :
    (run (s.observedBy (r.wrapping (.hearing f)) clock) asked w t).watch.1 =
      (events (run (s.observedBy (r.wrapping (.hearing f)) clock) asked w t).trace).foldl f w.1 :=
  heard_run (s := s.observedBy (r.wrapping (.hearing f)) clock) Prod.fst f
    (fun _ _ _ => rfl) asked w t

/-! ## What is printed -/

/-- **Listening** is nothing to a run: it is the run that nobody observes. -/
theorem run_hearing (s : Setup σ) (f : τ → Event → τ) (clock : Clock) (asked : Bool)
    (w : τ) (t : Tree) : let alone := run (s.observedBy .silent clock) asked () t
    run (s.observedBy (.hearing f) clock) asked w t =
      ⟨alone.result, alone.tree, (events alone.trace).foldl f w, alone.trace⟩ := by
  intro alone
  have halone : alone = _ := run_seen .silent (.hearing f) (fun _ => ())
      (fun _ _ _ => rfl) asked w t
  rw [halone]
  dsimp only
  rw [← heard_hearing]

/-- **Passing events on** is nothing to a recorder: the run is that of the recorder alone. -/
theorem run_wrapping (s : Setup σ) (r : Recorder) (f : τ → Event → τ) (clock : Clock)
    (asked : Bool) (w : τ) (record : Current) (t : Tree) :
    let alone := run (s.observedBy r.observer clock) asked record t
    run (s.observedBy (r.wrapping (.hearing f)) clock) asked (w, record) t =
      ⟨alone.result, alone.tree, ((events alone.trace).foldl f w, alone.watch), alone.trace⟩ := by
  intro alone
  have halone : alone = _ :=
    run_seen r.observer (r.wrapping (.hearing f)) Prod.snd (fun _ _ _ => rfl) asked (w, record) t
  have hheard := heard_wrapping s r f clock asked (w, record) t
  rw [halone]
  dsimp only
  rw [← hheard]

theorem traceOutput_events (trace : List Moment) :
    Program.traceOutput false (trace.filter Moment.isEvent) =
      (events trace).foldl Console.print Console.empty := by
  rw [Program.traceOutput]
  generalize Console.empty = console
  induction trace generalizing console with
  | nil => rfl
  | cons moment trace ih =>
    cases moment with
    | event e after => exact ih _
    | invocation call before output => exact ih _

/-- **The renderer prints what the program prints** of a run that nobody observes. -/
theorem printed_renderer (s : Setup σ) (clock : Clock) (asked : Bool) (t : Tree) :
    (run (s.observedBy .renderer clock) asked Console.empty t).watch =
      Program.traceOutput false
        ((run (s.observedBy .silent clock) asked () t).trace.filter Moment.isEvent) := by
  rw [traceOutput_events, Observer.renderer, run_hearing]

theorem printed_wrapping (s : Setup σ) (r : Recorder) (clock : Clock) (asked : Bool)
    (record : Current) (t : Tree) :
    (run (s.observedBy (r.wrapping .renderer) clock) asked (Console.empty, record) t).watch.1 =
      Program.traceOutput false
        ((run (s.observedBy r.observer clock) asked record t).trace.filter Moment.isEvent) := by
  rw [traceOutput_events, Observer.renderer, run_wrapping]

end Run

end Concolic
