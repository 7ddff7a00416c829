import Mathlib.Order.Bounds.Basic
import Concolic.Proofs.Rounds

/-
  When a session stops: after the first invocation that leaves neither a history nor a backtrack
  flag, or with the budget.
-/

namespace Concolic.Run

variable {σ : Type} {s : Setup σ} {x : Stand σ} {n : Nat} {outcome : Outcome}

/-- Nothing in the tree asks for another invocation. -/
def IsQuiet (s : Setup σ) (tree : Tree) : Prop :=
  tree.isFile s.host.cwd (Path.join s.session.workDir "history") = false ∧
    tree.isFile s.host.cwd (Path.join s.session.workDir "backtrackFlag") = false

/-- The invocation with number `i` was made and left a quiet tree. -/
def QuietAfter (s : Setup σ) (trace : List Moment) (i : Nat) : Prop :=
  ∃ tree, leftBy s trace i = some tree ∧ IsQuiet s tree

theorem continues_eq_false_iff (s : Setup σ) (r : Round σ) :
    (r.signal s).continues = false ↔ IsQuiet s r.reply.tree := by
  rw [Signal.continues, Bool.or_eq_false_iff]
  rfl

/-! ## The trees that invocations leave -/

theorem quietAfter_iff {trace : List Moment} (h : calls trace = callsOf s x n) (i : Nat) :
    QuietAfter s trace i ↔ ∃ m < n, i = m + 1 ∧ IsQuiet s (roundAt s x m).reply.tree := by
  constructor
  · rintro ⟨tree, hleft, hquiet⟩
    cases i with
    | zero => rw [leftBy, h, lookup_callsOf_zero] at hleft; cases hleft
    | succ m =>
      rw [leftBy_of_calls h] at hleft
      split at hleft
      · rename_i hm
        cases hleft
        exact ⟨m, hm, rfl, hquiet⟩
      · cases hleft
  · rintro ⟨m, hm, rfl, hquiet⟩
    exact ⟨_, by rw [leftBy_of_calls h, if_pos hm], hquiet⟩

/-! ## Complete sessions -/

theorem Completed.quiet_imp_last {m : Nat}
    (h : Completed s x n outcome) (hm : m < n + 1) (hq : IsQuiet s (roundAt s x m).reply.tree) :
    m = n := by
  rcases Nat.lt_or_eq_of_le (Nat.le_of_lt_succ hm) with hlt | heq
  · have hgo := (h.goesOn m hlt).continues
    rw [(continues_eq_false_iff s _).mpr hq] at hgo
    cases hgo
  · exact heq

/-- A complete session has explored everything exactly if its last invocation is quiet. -/
theorem Completed.explored_iff (h : Completed s x n outcome) :
    outcome = .explorationExhausted ↔ IsQuiet s (roundAt s x n).reply.tree := by
  rw [← continues_eq_false_iff]
  rcases h.ends with ⟨ho, hc⟩ | ⟨ho, hc, -⟩ <;> simp [ho, hc]

theorem Completed.spent
    (h : Completed s x n outcome) (hq : ¬ IsQuiet s (roundAt s x n).reply.tree) :
    n + 1 = s.session.budget.toNat := by
  rcases h.ends with ⟨-, hc⟩ | ⟨-, -, hn⟩
  · exact absurd ((continues_eq_false_iff s _).mp hc) hq
  · exact hn

theorem completed_of_willing {w : σ} {t seen : Tree} {lock : Lock}
    (hbudget : 1 ≤ s.session.budget.toNat)
    (hexit : ∀ n tree, ∃ code, (s.executor.invoke n tree).exit = .ok code)
    (hcancel : ∀ n tree, (s.executor.invoke n tree).cancels = false)
    (h : Begins s false w t lock seen x) :
    ∃ n outcome last, Completed s x n outcome ∧
      (run s false w t).result = .ok ⟨s.session.id, outcome, records s x (n + 1)⟩ ∧
      (run s false w t).trace = prologue s seen ++ moments s x (n + 1) ++
        [.event (.complete outcome (UInt32.ofNat (n + 1))) last] := by
  have hasked : ∀ n, (stand s x n).cancelled = false := by
    intro n
    cases n with
    | zero => exact h.cancelled
    | succ n => exact hcancel _ _
  have hpast := run_past hbudget h
  generalize run s false w t = ended at hpast ⊢
  cases hpast with
  | completed n outcome last hc hresult htrace _ => exact ⟨n, outcome, last, hc, hresult, htrace⟩
  | stopped n last hs _ _ _ => exact absurd hs.asked (by simp [hasked n])
  | failed n cause last hf _ _ _ =>
    obtain ⟨code, hcode⟩ := hexit (n + 1) (roundAt s x n).before
    have hfails : (s.executor.invoke (n + 1) (roundAt s x n).before).exit = .error cause := hf.fails
    rw [hcode] at hfails
    cases hfails

/-- How a session stops: with a report after `k` invocations. -/
structure StopsByRule (s : Setup σ) (ended : Ended σ) (report : Report) (k : Nat) : Prop where
  returns : ended.result = .ok report
  /-- The invocations that were made are those with the numbers from one to `k`. -/
  invocations : (calls ended.trace).map Prod.fst = List.range' 1 k
  /-- It is the first quiet invocation if the budget has one. -/
  first : (∃ i ≤ s.session.budget.toNat, QuietAfter s ended.trace i) →
    IsLeast {i | i ≤ s.session.budget.toNat ∧ QuietAfter s ended.trace i} k
  /-- It is the budget otherwise. -/
  spent : (¬ ∃ i ≤ s.session.budget.toNat, QuietAfter s ended.trace i) →
    k = s.session.budget.toNat
  length : report.iterations.length = k
  /-- Every record has its number and the signal that is seen in the tree its invocation left. -/
  records : ∀ j < k, ∃ record tree, report.iterations[j]? = some record ∧
    record.number.toNat = j + 1 ∧ leftBy s ended.trace (j + 1) = some tree ∧
    record.signal = ⟨tree.isFile s.host.cwd (Path.join s.session.workDir "history"),
      tree.isFile s.host.cwd (Path.join s.session.workDir "backtrackFlag")⟩
  explored : report.outcome = .explorationExhausted ↔
    ∃ i ≤ s.session.budget.toNat, QuietAfter s ended.trace i
  exhausted : report.outcome = .budgetExhausted ↔
    ¬ ∃ i ≤ s.session.budget.toNat, QuietAfter s ended.trace i
  /-- The count in the last event is exact. -/
  count : ∃ n last, ended.trace.getLast? = some (.event (.complete report.outcome n) last) ∧
    n.toNat = k

/-- **The stopping rule.**  With an executor that always gives an exit code and without
    cancellation, a session that takes its lock and resets its directory gives a report, and makes
    as many invocations as it takes until one is quiet, at most as many as the budget allows. -/
theorem run_stops_at_first_quiet_invocation (s : Setup σ) (w : σ)
    (t held fresh : Tree) (lock : Lock) (hbudget : 1 ≤ s.session.budget)
    (hexit : ∀ n tree, ∃ code, (s.executor.invoke n tree).exit = .ok code)
    (hcancel : ∀ n tree, (s.executor.invoke n tree).cancels = false)
    (hlock : Lock.acquire s.host s.session.workDir t = (held, .ok lock))
    (hreset : s.workspace.reset s.host.cwd (s.observer.notify (sessionEvent s) w held).2 =
      (fresh, .ok ())) :
    ∃ report k, StopsByRule s (run s false w t) report k := by
  have hB : 1 ≤ s.session.budget.toNat := by simpa [UInt32.le_iff_toNat_le] using hbudget
  have hlt : s.session.budget.toNat < 2 ^ 32 := UInt32.toNat_lt _
  let x : Stand σ := ⟨fresh, (s.observer.notify (sessionEvent s) w held).1, false⟩
  have hbegin : Begins s false w t lock (s.observer.notify (sessionEvent s) w held).2 x :=
    ⟨⟨held, hlock, rfl⟩, hreset, rfl⟩
  obtain ⟨n, outcome, last, hcomp, hresult, htrace⟩ :=
    completed_of_willing hB hexit hcancel hbegin
  generalize run s false w t = ended at hresult htrace ⊢
  have hcalls : calls ended.trace = callsOf s x (n + 1) := by
    rw [htrace, calls_ended]
  have hn : n + 1 ≤ s.session.budget.toNat := hcomp.within
  -- a quiet invocation can only be the last one that was made
  have hquiet : ∀ i, QuietAfter s ended.trace i ↔
      i = n + 1 ∧ IsQuiet s (roundAt s x n).reply.tree := by
    intro i
    rw [quietAfter_iff hcalls]
    constructor
    · rintro ⟨m, hm, rfl, hq⟩
      obtain rfl := hcomp.quiet_imp_last hm hq
      exact ⟨rfl, hq⟩
    · rintro ⟨rfl, hq⟩
      exact ⟨n, Nat.lt_succ_self n, rfl, hq⟩
  have hsome : (∃ i ≤ s.session.budget.toNat, QuietAfter s ended.trace i) ↔
      IsQuiet s (roundAt s x n).reply.tree := by
    constructor
    · rintro ⟨i, -, hi⟩
      exact ((hquiet i).mp hi).2
    · intro hq
      exact ⟨n + 1, hn, (hquiet _).mpr ⟨rfl, hq⟩⟩
  have hnumber : ∀ j < n + 1, (UInt32.ofNat (j + 1)).toNat = j + 1 := by
    intro j hj
    have hj32 : j + 1 < UInt32.size := show j + 1 < 2 ^ 32 by omega
    rw [UInt32.toNat_ofNat_of_lt' hj32]
  refine ⟨_, n + 1, ⟨hresult, ?_, ?_, ?_, length_records s x _, ?_, ?_, ?_, ?_⟩⟩
  · rw [hcalls, map_fst_callsOf]
  · intro hex
    refine ⟨⟨hn, (hquiet _).mpr ⟨rfl, hsome.mp hex⟩⟩, ?_⟩
    rintro i ⟨-, hi⟩
    exact ((hquiet i).mp hi).1.ge
  · intro hnone
    exact hcomp.spent fun hq => hnone (hsome.mpr hq)
  · intro j hj
    refine ⟨(roundAt s x j).record s (j + 1), (roundAt s x j).reply.tree, ?_, hnumber j hj, ?_, rfl⟩
    · simp [Run.records, hj]
    · rw [leftBy_of_calls hcalls, if_pos hj]
  · rw [hsome]
    exact hcomp.explored_iff
  · rw [hsome, ← hcomp.explored_iff]
    cases outcome <;> simp
  · refine ⟨UInt32.ofNat (n + 1), last, ?_, hnumber n (Nat.lt_succ_self n)⟩
    rw [htrace]
    simp

/-- A session of at most three invocations, of which the first writes a history and all others
    remove it. -/
def shortSession : Setup Unit where
  host := ⟨[], 7, fun _ => false⟩
  session := ⟨"id", "Main", "classes", "w", 3⟩
  executor := ⟨"explore", fun n t =>
    { tree := if n = 1 then t.put ["history", "w"] (.file Blob.empty) else t.erase ["history", "w"]
      exit := .ok (some 1)
      output := Console.empty
      cancels := false }⟩
  observer := Observer.silent
  clock := ⟨fun _ => ⟨1, 0, 0, 0, 0⟩, fun _ => Duration.ofSeconds 0⟩

theorem shortSession_stops : ∃ report,
    StopsByRule shortSession (run shortSession false () Tree.empty) report 2 := by
  have hcalls : (calls (run shortSession false () Tree.empty).trace).map Prod.fst = [1, 2] := by
    decide +kernel
  obtain ⟨report, k, h⟩ := run_stops_at_first_quiet_invocation shortSession () Tree.empty
    (Tree.empty.put ["w.lock"] (.file ⟨"7".toUTF8, false⟩))
    ((Tree.empty.put ["w.lock"] (.file ⟨"7".toUTF8, false⟩)).put ["w"] .folder) ⟨"w.lock"⟩
    (by decide) (fun _ _ => ⟨some 1, rfl⟩) (fun _ _ => rfl) (by decide +kernel) (by decide +kernel)
  have hk : k = 2 := by
    have hlength := congrArg List.length (h.invocations.symm.trans hcalls)
    simpa using hlength
  exact ⟨report, hk ▸ h⟩

end Concolic.Run
