import Mathlib.Order.Basic
import Concolic.Proofs.Rounds

/-
  The events of a run.

  The events of a run have one of five shapes (`Shape`), each with a cause of its own (`Happened`).
  Of the events one can tell the shape by their number and the last of them (`shapeOf`), and of the
  rounds one can tell what happened.
-/

namespace Concolic.Run

variable {σ : Type} {s : Setup σ} {x : Stand σ} {w : σ} {t seen last : Tree} {lock : Lock}
  {asked : Bool} {n : Nat} {e : Event} {es : List Event} {shape : Shape} {cause : Failure}

/-! ## Shapes -/

/-- What the two events of an iteration tell beside its number. -/
structure Lap where
  stamp : Stamp
  exit : Option Int32
  took : Duration
  signal : Signal

/-- The two events of an iteration. -/
def Lap.events (budget : UInt32) (lap : Lap) (i : Nat) : List Event :=
  [.iterationStart (UInt32.ofNat i) budget lap.stamp,
   .iterationEnd (UInt32.ofNat i) lap.exit lap.took lap.signal]

/-- The events of the iterations from the first one on. -/
def lapEvents (budget : UInt32) (laps : List Lap) : List Event :=
  (laps.zipIdx 1).flatMap fun p => p.1.events budget p.2

/-- The shapes that the events of a run can have. -/
inductive Shape where
  | nothing
  | unreset
  | complete (k : Nat)
  | failed (k : Nat)
  | cancelled (k : Nat)
  deriving DecidableEq

/-- The events have the shape.  Every iteration but the last one of a complete session ends with a
    signal to continue. -/
def Shape.Fits (s : Setup σ) : Shape → List Event → Prop
  | nothing, es => es = []
  | unreset, es => ∃ reason, es = [sessionEvent s, .aborted 0 reason]
  | complete k, es => 1 ≤ k ∧ k ≤ s.session.budget.toNat ∧ ∃ laps outcome, laps.length = k ∧
      (∀ lap ∈ laps.dropLast, lap.signal.continues = true) ∧
      es = sessionEvent s :: lapEvents s.session.budget laps ++
        [.complete outcome (UInt32.ofNat k)]
  | failed k, es => k ≤ s.session.budget.toNat ∧ ∃ laps stamp reason, laps.length + 1 = k ∧
      (∀ lap ∈ laps, lap.signal.continues = true) ∧
      es = sessionEvent s :: lapEvents s.session.budget laps ++
        [.iterationStart (UInt32.ofNat k) s.session.budget stamp,
         .aborted (UInt32.ofNat k) reason]
  | cancelled k, es => k ≤ s.session.budget.toNat ∧ ∃ laps, laps.length + 1 = k ∧
      (∀ lap ∈ laps, lap.signal.continues = true) ∧
      es = sessionEvent s :: lapEvents s.session.budget laps ++
        [.aborted (UInt32.ofNat k) "Session cancelled"]

/-- The event tells that the session is over. -/
def isLast : Event → Bool
  | .complete _ _ => true
  | .aborted _ _ => true
  | _ => false

/-- What the event tells of the end of a session is the result of the run: the outcome in its
    report, or the text of its failure. -/
def TellsTrue (result : Except Failure Report) : Event → Prop
  | .complete outcome _ => ∃ report, result = .ok report ∧ report.outcome = outcome
  | .aborted _ reason => ∃ cause, result = .error cause ∧ reason = cause.message
  | _ => True

/-! ## Causes -/

/-- The check before iteration `k` is made and finds that the session was asked to stop, or that it
    was not.  The first one is made after the reset; another follows each invocation that exits and
    whose signal asks for more, as long as the budget lasts. -/
inductive FindsToken (s : Setup σ) (asked : Bool) (w : σ) (t : Tree) : Nat → Bool → Prop where
  | first {held fresh : Tree} {lock : Lock} :
      Lock.acquire s.host s.session.workDir t = (held, .ok lock) →
      s.workspace.reset s.host.cwd (s.observer.notify (sessionEvent s) w held).2 =
        (fresh, .ok ()) →
      FindsToken s asked w t 1 asked
  | next {i : Nat} {before : Tree} {code : Option Int32} :
      (i, before) ∈ calls (run s asked w t).trace →
      (s.executor.invoke i before).exit = .ok code →
      (s.workspace.signal s.host.cwd (s.executor.invoke i before).tree).continues = true →
      i < s.session.budget.toNat →
      FindsToken s asked w t (i + 1) (s.executor.invoke i before).cancels

/-- What happened in a run, for each of the shapes. -/
def Happened (s : Setup σ) (asked : Bool) (w : σ) (t : Tree) : Shape → Prop
  | .nothing => ∃ held cause, Lock.acquire s.host s.session.workDir t = (held, .error cause)
  | .unreset => ∃ held lock fresh cause,
      Lock.acquire s.host s.session.workDir t = (held, .ok lock) ∧
      s.workspace.reset s.host.cwd (s.observer.notify (sessionEvent s) w held).2 =
        (fresh, .error cause)
  | .complete k => ∃ report, (run s asked w t).result = .ok report ∧ report.iterations.length = k
  | .failed k => ∃ before cause, (k, before) ∈ calls (run s asked w t).trace ∧
      (s.executor.invoke k before).exit = .error cause
  | .cancelled k => FindsToken s asked w t k true

/-! ## At most one shape fits -/

theorem lapEvents_append (budget : UInt32) (laps : List Lap) (lap : Lap) :
    lapEvents budget (laps ++ [lap]) =
      lapEvents budget laps ++ lap.events budget (laps.length + 1) := by
  simp [lapEvents, List.zipIdx_append, Nat.add_comm]

theorem length_lapEvents (budget : UInt32) (laps : List Lap) :
    (lapEvents budget laps).length = 2 * laps.length := by
  simp [lapEvents, List.length_flatMap, Lap.events, List.map_const', Nat.mul_comm]

theorem not_isLast_of_mem_lapEvents {budget : UInt32} {laps : List Lap}
    (h : e ∈ lapEvents budget laps) : isLast e = false := by
  obtain ⟨p, -, hp⟩ := List.mem_flatMap.mp h
  rcases List.mem_cons.mp hp with rfl | hp
  · rfl
  · obtain rfl := List.mem_singleton.mp hp
    rfl

/-- The only shape that the events can have. -/
def shapeOf (es : List Event) : Shape :=
  match es.getLast? with
  | some (.complete _ _) => .complete ((es.length - 2) / 2)
  | some (.aborted i _) =>
    if es.length % 2 = 1 then .failed (es.length / 2)
    else if es.length = 2 ∧ i = 0 then .unreset
    else .cancelled (es.length / 2)
  | _ => .nothing

theorem Shape.eq_shapeOf (h : shape.Fits s es) : shape = shapeOf es := by
  cases shape with
  | nothing =>
    obtain rfl : es = [] := h
    rfl
  | unreset =>
    obtain ⟨reason, rfl⟩ := h
    simp [shapeOf]
  | complete k =>
    obtain ⟨-, -, laps, outcome, rfl, -, rfl⟩ := h
    rw [shapeOf, List.getLast?_concat]
    simp [length_lapEvents]
  | failed k =>
    obtain ⟨-, laps, stamp, reason, rfl, -, rfl⟩ := h
    have hodd : (2 * laps.length + 1 + 1 + 1) % 2 = 1 := by omega
    have hhalf : (2 * laps.length + 1 + 1 + 1) / 2 = laps.length + 1 := by omega
    rw [shapeOf, List.append_cons, List.getLast?_concat]
    simp [length_lapEvents, hodd, hhalf]
  | cancelled k =>
    obtain ⟨hk, laps, rfl, -, rfl⟩ := h
    have hlt : s.session.budget.toNat < 2 ^ 32 := UInt32.toNat_lt _
    have heven : (2 * laps.length + 1 + 1) % 2 ≠ 1 := by omega
    have hhalf : (2 * laps.length + 1 + 1) / 2 = laps.length + 1 := by omega
    have hne : UInt32.ofNat (laps.length + 1) ≠ 0 := by
      intro h0
      have htoNat := congrArg UInt32.toNat h0
      rw [UInt32.toNat_ofNat_of_lt' (show laps.length + 1 < 2 ^ 32 by omega)] at htoNat
      simp at htoNat
    rw [shapeOf, List.getLast?_concat]
    simp only [List.length_append, List.length_cons, List.length_nil, length_lapEvents, heven,
      hhalf, hne, and_false, if_false, Nat.zero_add]

/-! ## The events of rounds -/

/-- The laps of the first `n` rounds. -/
def laps (s : Setup σ) (x : Stand σ) (n : Nat) : List Lap :=
  (List.range n).map fun m =>
    ⟨s.clock.stamp (m + 1), (roundAt s x m).code, s.clock.took (m + 1), (roundAt s x m).signal s⟩

theorem laps_succ (s : Setup σ) (x : Stand σ) (n : Nat) :
    laps s x (n + 1) = laps s x n ++ [⟨s.clock.stamp (n + 1), (roundAt s x n).code,
      s.clock.took (n + 1), (roundAt s x n).signal s⟩] := by
  simp [laps, List.range_succ]

theorem length_laps (s : Setup σ) (x : Stand σ) (n : Nat) : (laps s x n).length = n := by
  simp [laps]

theorem events_moments (s : Setup σ) (x : Stand σ) (n : Nat) :
    events (moments s x n) = lapEvents s.session.budget (laps s x n) := by
  induction n with
  | zero => rfl
  | succ n ih =>
    rw [moments_succ, events_append, ih, laps_succ, lapEvents_append, length_laps]
    rfl

theorem events_past (s : Setup σ) (x : Stand σ) (seen : Tree) (n : Nat) (rest : List Moment) :
    events (prologue s seen ++ moments s x n ++ rest) =
      sessionEvent s :: lapEvents s.session.budget (laps s x n) ++ events rest := by
  rw [events_append, events_append, events_moments]
  rfl

theorem continues_of_mem_laps (h : ∀ m < n, GoesOn s x m) :
    ∀ lap ∈ laps s x n, lap.signal.continues = true := by
  intro lap hlap
  obtain ⟨m, hm, rfl⟩ := List.mem_map.mp hlap
  exact (h m (List.mem_range.mp hm)).continues

theorem mem_callsOf {i : Nat} {before : Tree} :
    (i, before) ∈ callsOf s x n ↔ ∃ m < n, i = m + 1 ∧ before = (roundAt s x m).before := by
  simp only [callsOf, List.mem_map, List.mem_range, Prod.mk.injEq]
  constructor
  · rintro ⟨m, hm, rfl, rfl⟩
    exact ⟨m, hm, rfl, rfl⟩
  · rintro ⟨m, hm, rfl, rfl⟩
    exact ⟨m, hm, rfl, rfl⟩

/-- The events before the last one tell nothing of the end of a session, so only `rest` matters. -/
theorem tellsTrue_past {rest : List Moment}
    {result : Except Failure Report} (h : ∀ e ∈ events rest, TellsTrue result e) :
    ∀ e ∈ events (prologue s seen ++ moments s x n ++ rest), TellsTrue result e := by
  intro e he
  rw [events_past] at he
  rcases List.mem_append.mp he with he | he
  · rcases List.mem_cons.mp he with rfl | he
    · trivial
    · have hnot := not_isLast_of_mem_lapEvents he
      cases e with
      | complete _ _ => cases hnot
      | aborted _ _ => cases hnot
      | _ => trivial
  · exact h e he

/-! ## At most one thing happens -/

/-- A check finds the token as it is where the session then stands, after a round that would have
    gone on. -/
theorem FindsToken.stand {b : Bool} {k : Nat} (hb : Begins s asked w t lock seen x)
    (hcalls : calls (run s asked w t).trace = callsOf s x n) (h : FindsToken s asked w t k b) :
    ∃ j, k = j + 1 ∧ (Run.stand s x j).cancelled = b ∧
      ∀ i, j = i + 1 → i < n ∧ (∃ code, (roundAt s x i).reply.exit = .ok code) ∧
        ((roundAt s x i).signal s).continues = true ∧ j < s.session.budget.toNat := by
  cases h with
  | first _ _ => exact ⟨0, rfl, hb.cancelled, fun i hi => by cases hi⟩
  | @next i before code hmem hexit hsig hlt =>
    rw [hcalls] at hmem
    obtain ⟨m, hm, rfl, rfl⟩ := mem_callsOf.mp hmem
    refine ⟨m + 1, rfl, rfl, ?_⟩
    intro i hi
    obtain rfl : m = i := by omega
    exact ⟨hm, ⟨code, hexit⟩, hsig, hlt⟩

/-- A run has the shape of what happened in it, nothing else happened, and what its last event tells
    is true. -/
structure Settles (s : Setup σ) (asked : Bool) (w : σ) (t : Tree) (shape : Shape) : Prop where
  fits : shape.Fits s (events (run s asked w t).trace)
  happened : Happened s asked w t shape
  only : ∀ other, Happened s asked w t other → other = shape
  true_last : ∀ e ∈ events (run s asked w t).trace, TellsTrue (run s asked w t).result e

/-- The loop of the run begins. -/
def GetsPast (s : Setup σ) (w : σ) (t : Tree) : Prop :=
  ∃ held lock fresh, Lock.acquire s.host s.session.workDir t = (held, .ok lock) ∧
    s.workspace.reset s.host.cwd (s.observer.notify (sessionEvent s) w held).2 = (fresh, .ok ())

theorem happened_early (hpast : ¬ GetsPast s w t)
    (hresult : (run s asked w t).result = .error cause)
    (hcalls : calls (run s asked w t).trace = []) (h : Happened s asked w t shape) :
    shape = .nothing ∨ shape = .unreset := by
  cases shape with
  | nothing => exact .inl rfl
  | unreset => exact .inr rfl
  | complete k =>
    obtain ⟨report, hok, -⟩ := h
    rw [hresult] at hok
    cases hok
  | failed k =>
    obtain ⟨before, cause', hmem, -⟩ := h
    rw [hcalls] at hmem
    cases hmem
  | cancelled k =>
    have hfinds : FindsToken s asked w t k true := h
    generalize true = b at hfinds
    cases hfinds with
    | first hlock hreset => exact absurd ⟨_, _, _, hlock, hreset⟩ hpast
    | next hmem _ _ _ =>
      rw [hcalls] at hmem
      cases hmem

theorem settles_refused {held : Tree} (asked : Bool) (w : σ)
    (h : Lock.acquire s.host s.session.workDir t = (held, .error cause)) :
    Settles s asked w t .nothing := by
  have hrun := run_refused asked w h
  have hpast : ¬ GetsPast s w t := by
    rintro ⟨held', lock, fresh, hlock, -⟩
    rw [h] at hlock
    cases hlock
  refine ⟨by rw [hrun]; rfl, ⟨held, cause, h⟩, ?_, ?_⟩
  · intro other hother
    rcases happened_early hpast (by rw [hrun]) (by rw [hrun]; rfl) hother with rfl | rfl
    · rfl
    · obtain ⟨held', lock, fresh, cause', hlock, -⟩ := hother
      rw [h] at hlock
      cases hlock
  · intro e he
    rw [hrun] at he
    cases he

theorem settles_unreset {held fresh : Tree}
    (asked : Bool) (w : σ) (hlock : Lock.acquire s.host s.session.workDir t = (held, .ok lock))
    (hreset : s.workspace.reset s.host.cwd (s.observer.notify (sessionEvent s) w held).2 =
      (fresh, .error cause)) :
    Settles s asked w t .unreset := by
  have hrun := run_unreset_eq asked hlock hreset
  have hpast : ¬ GetsPast s w t := by
    rintro ⟨held', lock', fresh', hlock', hreset'⟩
    rw [hlock] at hlock'
    cases hlock'
    rw [hreset] at hreset'
    cases hreset'
  refine ⟨⟨cause.message, by rw [hrun]; rfl⟩, ⟨held, lock, fresh, cause, hlock, hreset⟩, ?_, ?_⟩
  · intro other hother
    rcases happened_early hpast (by rw [hrun]; rfl) (by rw [hrun]; rfl) hother with rfl | rfl
    · obtain ⟨held', cause', hlock'⟩ := hother
      rw [hlock] at hlock'
      cases hlock'
    · rfl
  · intro e he
    rw [hrun] at he
    rcases List.mem_cons.mp he with rfl | he
    · trivial
    · obtain rfl := List.mem_singleton.mp he
      exact ⟨cause, by rw [hrun]; rfl, rfl⟩

theorem Begins.not_early (h : Begins s asked w t lock seen x) :
    ¬ Happened s asked w t .nothing ∧ ¬ Happened s asked w t .unreset := by
  obtain ⟨⟨held, hlock, htold⟩, hreset, -⟩ := h
  constructor
  · rintro ⟨held', cause, hlock'⟩
    rw [hlock] at hlock'
    cases hlock'
  · rintro ⟨held', lock', fresh, cause, hlock', hreset'⟩
    rw [hlock] at hlock'
    cases hlock'
    rw [htold, hreset] at hreset'
    cases hreset'

/-- What can have happened in a run whose first `n` rounds go on and that begins `made` rounds, at
    most one more: it ended, the round after these `n` failed, or the token was found cancelled, in
    front of that round or behind it. -/
theorem Begins.happened_cases {made : Nat} (hb : Begins s asked w t lock seen x)
    (hgo : ∀ m < n, GoesOn s x m) (hmade : made ≤ n + 1)
    (hcalls : calls (run s asked w t).trace = callsOf s x made) (h : Happened s asked w t shape) :
    (∃ report, (run s asked w t).result = .ok report ∧
        shape = .complete report.iterations.length) ∨
      (n < made ∧ shape = .failed (n + 1) ∧ ∃ cause, (roundAt s x n).reply.exit = .error cause) ∨
      (shape = .cancelled (n + 1) ∧ (stand s x n).cancelled = true) ∨
      (n < made ∧ (∃ code, (roundAt s x n).reply.exit = .ok code) ∧
        ((roundAt s x n).signal s).continues = true ∧ n + 1 < s.session.budget.toNat) := by
  cases shape with
  | nothing => exact absurd h hb.not_early.1
  | unreset => exact absurd h hb.not_early.2
  | complete k =>
    obtain ⟨report, hok, rfl⟩ := h
    exact .inl ⟨report, hok, rfl⟩
  | failed k =>
    obtain ⟨before, cause, hmem, hfails⟩ := h
    rw [hcalls] at hmem
    obtain ⟨m, hm, rfl, rfl⟩ := mem_callsOf.mp hmem
    rcases Nat.lt_or_eq_of_le (Nat.le_of_lt_succ (Nat.lt_of_lt_of_le hm hmade)) with hlt | rfl
    · obtain ⟨code, hcode⟩ := (hgo m hlt).exits
      exact absurd (hcode.symm.trans hfails) (by simp)
    · exact .inr (.inl ⟨hm, rfl, cause, hfails⟩)
  | cancelled k =>
    obtain ⟨j, rfl, hj, hnext⟩ := FindsToken.stand hb hcalls h
    rcases Nat.lt_trichotomy j n with hlt | rfl | hgt
    · exact absurd ((hgo j hlt).asked.symm.trans hj) (by simp)
    · exact .inr (.inr (.inl ⟨rfl, hj⟩))
    · -- a check behind the last round is made only if that round would have gone on
      obtain ⟨i, rfl⟩ : ∃ i, j = i + 1 := ⟨j - 1, by omega⟩
      obtain ⟨hi, hexits, hsig, hlt⟩ := hnext i rfl
      obtain rfl : i = n := by omega
      exact .inr (.inr (.inr ⟨hi, hexits, hsig, hlt⟩))

theorem settles_completed {outcome : Outcome} (hb : Begins s asked w t lock seen x)
    (hc : Completed s x n outcome)
    (hresult : (run s asked w t).result = .ok ⟨s.session.id, outcome, records s x (n + 1)⟩)
    (htrace : (run s asked w t).trace = prologue s seen ++ moments s x (n + 1) ++
      [.event (.complete outcome (UInt32.ofNat (n + 1))) last]) :
    Settles s asked w t (.complete (n + 1)) := by
  have hcalls : calls (run s asked w t).trace = callsOf s x (n + 1) := by
    rw [htrace, calls_ended]
  refine ⟨?_, ⟨_, hresult, length_records s x _⟩, ?_, ?_⟩
  · rw [htrace, events_past]
    refine ⟨by omega, hc.within, laps s x (n + 1), outcome, length_laps s x _, ?_, rfl⟩
    rw [laps_succ, List.dropLast_concat]
    exact continues_of_mem_laps hc.goesOn
  · intro other hother
    rcases hb.happened_cases hc.goesOn (Nat.le_refl _) hcalls hother with
      ⟨report, hok, rfl⟩ | ⟨-, -, cause, hfails⟩ | ⟨-, hasked⟩ | ⟨-, -, hsig, hlt⟩
    · rw [hresult] at hok
      cases hok
      rw [length_records]
    · obtain ⟨code, hcode⟩ := hc.exits
      exact absurd (hcode.symm.trans hfails) (by simp)
    · exact absurd (hc.asked.symm.trans hasked) (by simp)
    · rcases hc.ends with ⟨-, hquiet⟩ | ⟨-, -, hspent⟩
      · exact absurd (hquiet.symm.trans hsig) (by simp)
      · omega
  · rw [htrace]
    refine tellsTrue_past fun e he => ?_
    obtain rfl := List.mem_singleton.mp he
    exact ⟨_, hresult, rfl⟩

theorem settles_stopped (hb : Begins s asked w t lock seen x) (hs : Stopped s x n)
    (hresult : (run s asked w t).result = .error .cancelled)
    (htrace : (run s asked w t).trace = prologue s seen ++ moments s x n ++
      [.event (.aborted (UInt32.ofNat (n + 1)) Failure.cancelled.message) last]) :
    Settles s asked w t (.cancelled (n + 1)) := by
  have hcalls : calls (run s asked w t).trace = callsOf s x n := by
    rw [htrace, calls_ended]
  refine ⟨?_, ?_, ?_, ?_⟩
  · rw [htrace, events_past]
    exact ⟨hs.within, laps s x n, by rw [length_laps], continues_of_mem_laps hs.goesOn, rfl⟩
  · show FindsToken s asked w t (n + 1) true
    rw [← hs.asked]
    cases n with
    | zero =>
      obtain ⟨⟨held, hlock, htold⟩, hreset, hasked⟩ := hb
      rw [show (stand s x 0).cancelled = asked from hasked]
      exact .first hlock (by rw [htold]; exact hreset)
    | succ i =>
      obtain ⟨code, hcode⟩ := (hs.goesOn i (Nat.lt_succ_self i)).exits
      refine .next ?_ hcode (hs.goesOn i (Nat.lt_succ_self i)).continues hs.within
      rw [hcalls]
      exact mem_callsOf.mpr ⟨i, Nat.lt_succ_self i, rfl, rfl⟩
  · intro other hother
    rcases hb.happened_cases hs.goesOn n.le_succ hcalls hother with
      ⟨report, hok, -⟩ | ⟨hlt, -⟩ | ⟨rfl, -⟩ | ⟨hlt, -⟩
    · rw [hresult] at hok
      cases hok
    · exact absurd hlt (Nat.lt_irrefl n)
    · rfl
    · exact absurd hlt (Nat.lt_irrefl n)
  · rw [htrace]
    refine tellsTrue_past fun e he => ?_
    obtain rfl := List.mem_singleton.mp he
    exact ⟨_, hresult, rfl⟩

theorem settles_failed (hb : Begins s asked w t lock seen x)
    (hf : Failed s x n cause) (hresult : (run s asked w t).result = .error cause)
    (htrace : (run s asked w t).trace = prologue s seen ++ moments s x n ++
      ((roundAt s x n).opening s (n + 1) ++
        [.event (.aborted (UInt32.ofNat (n + 1)) cause.message) last])) :
    Settles s asked w t (.failed (n + 1)) := by
  have hcalls : calls (run s asked w t).trace = callsOf s x (n + 1) := by
    rw [htrace, calls_past, callsOf_succ]
    rfl
  refine ⟨?_, ?_, ?_, ?_⟩
  · rw [htrace, events_past]
    exact ⟨hf.within, laps s x n, s.clock.stamp (n + 1), cause.message, by rw [length_laps],
      continues_of_mem_laps hf.goesOn, rfl⟩
  · refine ⟨(roundAt s x n).before, cause, ?_, hf.fails⟩
    rw [hcalls]
    exact mem_callsOf.mpr ⟨n, Nat.lt_succ_self n, rfl, rfl⟩
  · intro other hother
    rcases hb.happened_cases hf.goesOn (Nat.le_refl _) hcalls hother with
      ⟨report, hok, -⟩ | ⟨-, rfl, -⟩ | ⟨-, hasked⟩ | ⟨-, ⟨code, hcode⟩, -⟩
    · rw [hresult] at hok
      cases hok
    · rfl
    · exact absurd (hf.asked.symm.trans hasked) (by simp)
    · exact absurd (hcode.symm.trans hf.fails) (by simp)
  · rw [htrace]
    refine tellsTrue_past fun e he => ?_
    rcases List.mem_cons.mp he with rfl | he
    · trivial
    · obtain rfl := List.mem_singleton.mp he
      exact ⟨_, hresult, rfl⟩

theorem exists_settles (hbudget : 1 ≤ s.session.budget.toNat) (asked : Bool) (w : σ)
    (t : Tree) : ∃ shape, Settles s asked w t shape := by
  rcases hacquire : Lock.acquire s.host s.session.workDir t with ⟨held, cause | lock⟩
  · exact ⟨_, settles_refused asked w hacquire⟩
  · rcases hreset : s.workspace.reset s.host.cwd (s.observer.notify (sessionEvent s) w held).2 with
      ⟨fresh, cause | _⟩
    · exact ⟨_, settles_unreset asked w hacquire hreset⟩
    · let x : Stand σ := ⟨fresh, (s.observer.notify (sessionEvent s) w held).1, asked⟩
      have hb : Begins s asked w t lock (s.observer.notify (sessionEvent s) w held).2 x :=
        ⟨⟨held, hacquire, rfl⟩, hreset, rfl⟩
      have hpast := run_past hbudget hb
      generalize hrun : run s asked w t = ended at hpast
      cases hpast with
      | completed n outcome last hc hresult htrace _ =>
        subst hrun
        exact ⟨_, settles_completed hb hc hresult htrace⟩
      | stopped n last hs hresult htrace _ =>
        subst hrun
        exact ⟨_, settles_stopped hb hs hresult htrace⟩
      | failed n cause last hf hresult htrace _ =>
        subst hrun
        exact ⟨_, settles_failed hb hf hresult htrace⟩

/-! ## The last event -/

/-- Where no event but the one at the end is last, nothing follows a last event. -/
theorem nothing_follows {before rest : List Event} {z : Event}
    (h : ∀ e ∈ es, isLast e = false) (he : isLast e = true)
    (heq : es ++ [z] = before ++ e :: rest) : rest = [] := by
  rcases List.eq_nil_or_concat rest with hnil | ⟨rest', z', rfl⟩
  · exact hnil
  · have heq' : es ++ [z] = (before ++ e :: rest') ++ [z'] := by simpa using heq
    have hes : es = before ++ e :: rest' := (List.append_inj' heq' rfl).1
    have hmem : e ∈ es := by rw [hes]; simp
    rw [h e hmem] at he
    cases he

theorem Shape.Fits.nothing_after_last {before rest : List Event} (h : shape.Fits s es)
    (he : isLast e = true) (heq : es = before ++ e :: rest) : rest = [] := by
  have hstart : ∀ laps, ∀ e ∈ sessionEvent s :: lapEvents s.session.budget laps,
      isLast e = false := by
    intro laps e he
    rcases List.mem_cons.mp he with rfl | he
    · rfl
    · exact not_isLast_of_mem_lapEvents he
  cases shape with
  | nothing =>
    obtain rfl : es = [] := h
    simp at heq
  | unreset =>
    obtain ⟨reason, rfl⟩ := h
    exact nothing_follows (hstart []) he heq
  | complete k =>
    obtain ⟨-, -, laps, outcome, -, -, rfl⟩ := h
    exact nothing_follows (hstart laps) he heq
  | failed k =>
    obtain ⟨-, laps, stamp, reason, -, -, rfl⟩ := h
    rw [List.append_cons] at heq
    refine nothing_follows (fun e he => ?_) he heq
    rcases List.mem_append.mp he with he | he
    · exact hstart laps e he
    · obtain rfl := List.mem_singleton.mp he
      rfl
  | cancelled k =>
    obtain ⟨-, laps, -, -, rfl⟩ := h
    exact nothing_follows (hstart laps) he heq

/-! ## The protocol -/

/-- The events of a run, in full. -/
structure FollowsProtocol (s : Setup σ) (asked : Bool) (w : σ) (t : Tree) : Prop where
  exactlyOne : ∃! shape : Shape, shape.Fits s (events (run s asked w t).trace)
  cause : ∀ shape : Shape,
    shape.Fits s (events (run s asked w t).trace) ↔ Happened s asked w t shape
  tellsTrue : ∀ e ∈ events (run s asked w t).trace, TellsTrue (run s asked w t).result e
  onlyLast : ∀ before e rest, events (run s asked w t).trace = before ++ e :: rest →
    isLast e = true → rest = []

/-- **The protocol of events.**  Whatever the tree, the executor, the observer and the moment of a
    cancellation, the events of a run have exactly one of the five shapes, and each of them exactly
    if its cause happened.  The last event tells the result of the run, and no other event tells an
    end. -/
theorem run_follows_protocol (s : Setup σ) (asked : Bool) (w : σ) (t : Tree)
    (hbudget : 1 ≤ s.session.budget) : FollowsProtocol s asked w t := by
  obtain ⟨shape, h⟩ := exists_settles (by simpa [UInt32.le_iff_toNat_le] using hbudget) asked w t
  have honly : ∀ other : Shape, other.Fits s (events (run s asked w t).trace) → other = shape :=
    fun other hother => (Shape.eq_shapeOf hother).trans (Shape.eq_shapeOf h.fits).symm
  refine ⟨⟨shape, h.fits, honly⟩, ?_, h.true_last, ?_⟩
  · intro other
    constructor
    · intro hother
      rw [honly other hother]
      exact h.happened
    · intro hother
      rw [h.only other hother]
      exact h.fits
  · intro before e rest heq he
    exact h.fits.nothing_after_last he heq

/-- A session of at most five invocations, each of which leaves a history, until the second one
    hangs. -/
def hangingSession : Setup Unit where
  host := ⟨[], 7, fun _ => false⟩
  session := ⟨"id", "Main", "classes", "w", 5⟩
  executor := ⟨"explore", fun n t =>
    { tree := t.put ["history", "w"] (.file Blob.empty)
      exit := if n = 2 then .error (.executorHung (Duration.ofSeconds 1)) else .ok (some 0)
      output := Console.empty
      cancels := false }⟩
  observer := Observer.silent
  clock := ⟨fun _ => ⟨1, 0, 0, 0, 0⟩, fun _ => Duration.ofSeconds 0⟩

theorem hangingSession_follows_protocol :
    FollowsProtocol hangingSession false () Tree.empty ∧
      (Shape.failed 2).Fits hangingSession
        (events (run hangingSession false () Tree.empty).trace) := by
  have h := run_follows_protocol hangingSession false () Tree.empty (by decide)
  refine ⟨h, (h.cause (.failed 2)).mpr ?_⟩
  have hcalls : (calls (run hangingSession false () Tree.empty).trace).map Prod.fst = [1, 2] := by
    decide +kernel
  have hmem : 2 ∈ (calls (run hangingSession false () Tree.empty).trace).map Prod.fst := by
    simp [hcalls]
  obtain ⟨⟨i, before⟩, hcall, rfl⟩ := List.mem_map.mp hmem
  exact ⟨before, .executorHung (Duration.ofSeconds 1), hcall, rfl⟩

end Concolic.Run
