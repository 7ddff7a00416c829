import Concolic.Proofs.Journal
import Concolic.Proofs.Lockstep

/-
  A larger budget only extends a run.

  The rounds of two sessions that differ in their budgets are the same for all numbers; the budget
  only decides which round is the last one.  So a run is told by the number of its last round
  (`Concludes`), and two runs are compared by comparing two numbers.
-/

namespace Concolic

namespace Lock

open Concolic.Tree (Names)

/-- The tree `t'` is `t`, perhaps without what the path of a lock names. -/
structure GivenBack (h : Host) (path : String) (t t' : Tree) : Prop where
  entries : ∀ loc, t'.node? loc = t.node? loc ∨
    t'.node? loc = none ∧ ∃ d name, loc = name :: d ∧ Names t h.cwd path d name
  pool : t'.pool = t.pool

theorem givenBack_release (h : Host) (lock : Lock) (t : Tree) :
    GivenBack h lock.path t (lock.release h t) := by
  rw [release]
  rcases discard_cases h t lock.path with hsame | ⟨d, name, node, hnames, -, -, herase⟩
  · rw [hsame]
    exact ⟨fun _ => .inl rfl, rfl⟩
  · rw [herase]
    refine ⟨fun loc => ?_, rfl⟩
    by_cases heq : loc = name :: d
    · rw [heq]
      exact .inr ⟨Tree.node?_erase_self t (by simp), d, name, rfl, hnames⟩
    · exact .inl (Tree.node?_erase_ne t heq)

end Lock

namespace Run

variable {σ σ₁ σ₂ : Type}

/-! ## The iterations of a run -/

/-- Where the loop of a run begins, if the run gets there. -/
def begins? (s : Setup σ) (asked : Bool) (w : σ) (t : Tree) : Option (Stand σ) :=
  match Lock.acquire s.host s.session.workDir t with
  | (_, .error _) => none
  | (held, .ok _) =>
    let told := s.observer.notify (sessionEvent s) w held
    match s.workspace.reset s.host.cwd told.2 with
    | (_, .error _) => none
    | (fresh, .ok ()) => some ⟨fresh, told.1, asked⟩

/-- The iterations that a run has performed, whether or not it gives a report of them. -/
def performed (s : Setup σ) (asked : Bool) (w : σ) (t : Tree) : List Iteration :=
  match begins? s asked w t with
  | none => []
  | some x => records s x (roundsOf (run s asked w t).trace)

/-- The tree after the archives of the `i`-th iteration have been made. -/
def archived (s : Setup σ) (i : Nat) (t : Tree) : Tree :=
  (s.workspace.snapshotHistory s.host.cwd
    (s.workspace.snapshotInputs s.host.cwd (UInt32.ofNat i) t).2).2

section Single

variable {s : Setup σ} {asked : Bool} {w : σ} {t seen : Tree} {lock : Lock} {x : Stand σ} {n : Nat}

theorem Begins.begins? (h : Begins s asked w t lock seen x) : begins? s asked w t = some x := by
  obtain ⟨⟨held, hlock, htold⟩, hreset, rfl⟩ := h
  unfold Run.begins?
  simp only [hlock, htold, hreset]

theorem Begins.performed (h : Begins s asked w t lock seen x) :
    performed s asked w t = records s x (roundsOf (run s asked w t).trace) := by
  unfold Run.performed
  simp only [h.begins?]

theorem performed_of_none (h : begins? s asked w t = none) : performed s asked w t = [] := by
  unfold Run.performed
  simp only [h]

theorem performed_refused {held : Tree} {cause : Failure}
    (hlock : Lock.acquire s.host s.session.workDir t = (held, .error cause)) :
    performed s asked w t = [] := by
  refine performed_of_none ?_
  unfold Run.begins?
  simp only [hlock]

theorem performed_unreset {held fresh : Tree} {cause : Failure}
    (hlock : Lock.acquire s.host s.session.workDir t = (held, .ok lock))
    (hreset : s.workspace.reset s.host.cwd (s.observer.notify (sessionEvent s) w held).2 =
      (fresh, .error cause)) : performed s asked w t = [] := by
  refine performed_of_none ?_
  unfold Run.begins?
  simp only [hlock, hreset]

/-- The loop ends in the round that follows `n` others. -/
structure Lasts (s : Setup σ) (x : Stand σ) (n : Nat) : Prop where
  goesOn : ∀ m < n, GoesOn s x m
  within : n < s.session.budget.toNat
  ends : ¬ GoesOn s x n ∨ n + 1 = s.session.budget.toNat

/-- The result of a run whose last round follows `n` others. -/
def verdict (s : Setup σ) (x : Stand σ) (n : Nat) : Except Failure Report :=
  match (roundAt s x n).reply.exit with
  | .error cause => .error cause
  | .ok _ => .ok
      { sessionId := s.session.id
        outcome := if ((roundAt s x n).signal s).continues then .budgetExhausted
          else .explorationExhausted
        iterations := records s x (n + 1) }

/-- The number of rounds that are complete when the one that follows `n` others is the last. -/
def complete (s : Setup σ) (x : Stand σ) (n : Nat) : Nat :=
  match (roundAt s x n).reply.exit with
  | .error _ => n
  | .ok _ => n + 1

/-- All that is said of a run by the number of its last round. -/
structure Concludes (s : Setup σ) (x : Stand σ) (lock : Lock) (n : Nat) (e : Ended σ) : Prop where
  lasts : Lasts s x n
  result : e.result = verdict s x n
  tree : e.tree = lock.release s.host (roundAt s x n).reply.tree
  calls : calls e.trace = callsOf s x (n + 1)
  rounds : roundsOf e.trace = complete s x n

theorem tree_stand_succ (hwatches : s.observer.OnlyWatches) (x : Stand σ) (n : Nat) :
    (stand s x (n + 1)).tree = (roundAt s x n).reply.tree := hwatches _ _ _

theorem not_cancelled (hpatient : ∀ n t, (s.executor.invoke n t).cancels = false)
    (hx : x.cancelled = false) (n : Nat) : (stand s x n).cancelled = false := by
  cases n with
  | zero => exact hx
  | succ n => exact hpatient _ _

/-- **A run that nobody stops** is told by the number of its last round. -/
theorem run_concludes (hwatches : s.observer.OnlyWatches)
    (hpatient : ∀ n t, (s.executor.invoke n t).cancels = false)
    (hbudget : 1 ≤ s.session.budget.toNat) (h : Begins s false w t lock seen x) :
    ∃ n, Concludes s x lock n (run s false w t) := by
  have hasked := not_cancelled hpatient h.cancelled
  obtain ⟨k, p, result, hgo, hend, hrun⟩ := run_ending h
  rw [hrun]
  -- a loop that finishes after `n + 1` rounds, of which the last has an exit code
  have hfinish : ∀ n outcome code, (roundAt s x n).reply.exit = .ok code → Lasts s x n →
      outcome = (if ((roundAt s x n).signal s).continues then Outcome.budgetExhausted
        else .explorationExhausted) →
      (p, result) = finish s outcome (records s x (n + 1)).reverse
        (after s x (prologue s seen) (n + 1)) →
      Concludes s x lock n ⟨result, lock.release s.host p.tree, p.watch, p.trace.reverse⟩ := by
    intro n outcome code hexit hlasts houtcome hpr
    obtain ⟨hresult, htrace⟩ := finish_records s x seen outcome (n + 1)
    rw [← hpr] at hresult htrace
    have htree : p.tree = (roundAt s x n).reply.tree := by
      have hemit := congrArg (fun pr => pr.1.tree) hpr
      exact hemit.trans ((hwatches _ _ _).trans (tree_stand_succ hwatches x n))
    refine ⟨hlasts, ?_, by rw [htree], ?_, ?_⟩
    · rw [verdict, hexit, ← houtcome]
      exact hresult
    · rw [htrace, calls_ended]
    · rw [htrace, roundsOf_past, Run.complete, hexit]
      rfl
  generalize hpr : (p, result) = pr at hend
  cases hend with
  | spent =>
    obtain ⟨n, hn⟩ : ∃ n, s.session.budget.toNat = n + 1 := ⟨s.session.budget.toNat - 1, by omega⟩
    rw [hn] at hgo hpr
    have hlast := hgo n (by omega)
    obtain ⟨code, hexit⟩ := hlast.exits
    exact ⟨n, hfinish n _ code hexit ⟨fun m hm => hgo m (by omega), by omega, .inr hn.symm⟩
      (by rw [hlast.continues]; rfl) hpr⟩
  | cancelled hn hc =>
    rw [hasked] at hc
    cases hc
  | @failed _ cause hn hc hexit =>
    cases hpr
    refine ⟨k, ⟨hgo, hn, .inl fun hgoes => ?_⟩, ?_, ?_, ?_, ?_⟩
    · obtain ⟨code, hcode⟩ := hgoes.exits
      rw [hexit] at hcode
      cases hcode
    · rw [verdict, hexit]
    · exact congrArg (lock.release s.host) (hwatches _ _ _)
    · rw [reverse_trace_emit, reverse_trace_replied, List.append_assoc, calls_past, callsOf_succ]
      rfl
    · rw [reverse_trace_emit, reverse_trace_replied, List.append_assoc, roundsOf_past, Run.complete,
        hexit]
      rfl
  | @explored _ code hn hc hexit hsignal =>
    refine ⟨k, hfinish k _ code hexit ⟨hgo, hn, .inl fun hgoes => ?_⟩ (by rw [hsignal]; rfl) hpr⟩
    rw [hgoes.continues] at hsignal
    cases hsignal

end Single

/-! ## Two budgets -/

/-- The setups differ in their budgets, of which the second is not smaller, in their clocks and in
    their observers, none of which changes the tree; nobody asks to stop. -/
structure Setup.Widened (s₁ : Setup σ₁) (s₂ : Setup σ₂) : Prop where
  host : s₁.host = s₂.host
  session : { s₁.session with budget := s₂.session.budget } = s₂.session
  executor : s₁.executor = s₂.executor
  patient : ∀ n t, (s₁.executor.invoke n t).cancels = false
  watches₁ : s₁.observer.OnlyWatches
  watches₂ : s₂.observer.OnlyWatches
  least : 1 ≤ s₁.session.budget.toNat
  wider : s₁.session.budget.toNat ≤ s₂.session.budget.toNat

namespace Setup.Widened

variable {s₁ : Setup σ₁} {s₂ : Setup σ₂} {x₁ : Stand σ₁} {x₂ : Stand σ₂} {n₁ n₂ : Nat}

theorem workDir (h : s₁.Widened s₂) : s₁.session.workDir = s₂.session.workDir := by
  have hdir := congrArg Session.workDir h.session
  exact hdir

theorem workspace (h : s₁.Widened s₂) : s₁.workspace = s₂.workspace := by
  rw [Setup.workspace, Setup.workspace, h.workDir]

theorem patient₂ (h : s₁.Widened s₂) (n : Nat) (t : Tree) :
    (s₂.executor.invoke n t).cancels = false := h.executor ▸ h.patient n t

theorem round (h : s₁.Widened s₂) (i : Nat) (hx : x₁.tree = x₂.tree) :
    (round s₁ i x₁).inputs = (round s₂ i x₂).inputs ∧
      (round s₁ i x₁).history = (round s₂ i x₂).history ∧
      (round s₁ i x₁).before = (round s₂ i x₂).before ∧
      (round s₁ i x₁).reply = (round s₂ i x₂).reply := by
  have hbefore : (Run.round s₁ i x₁).before = (Run.round s₂ i x₂).before := by
    simp only [Run.round, h.watches₁ _ _ _, h.watches₂ _ _ _, h.workspace, h.host, hx]
  refine ⟨?_, ?_, hbefore, ?_⟩
  · simp only [Run.round, h.workspace, h.host, hx]
  · simp only [Run.round, h.workspace, h.host, hx]
  · show s₁.executor.invoke i (Run.round s₁ i x₁).before =
      s₂.executor.invoke i (Run.round s₂ i x₂).before
    rw [hbefore, h.executor]

section Rounds

variable (h : s₁.Widened s₂) (hx : x₁.tree = x₂.tree)
include h hx

theorem stand (n : Nat) : (stand s₁ x₁ n).tree = (stand s₂ x₂ n).tree := by
  induction n with
  | zero => exact hx
  | succ n ih =>
    rw [tree_stand_succ h.watches₁, tree_stand_succ h.watches₂]
    exact congrArg Reply.tree (h.round (n + 1) ih).2.2.2

theorem roundAt (n : Nat) :
    (roundAt s₁ x₁ n).inputs = (roundAt s₂ x₂ n).inputs ∧
      (roundAt s₁ x₁ n).history = (roundAt s₂ x₂ n).history ∧
      (roundAt s₁ x₁ n).before = (roundAt s₂ x₂ n).before ∧
      (roundAt s₁ x₁ n).reply = (roundAt s₂ x₂ n).reply :=
  h.round (n + 1) (h.stand hx n)

theorem signal (n : Nat) : (Run.roundAt s₁ x₁ n).signal s₁ = (Run.roundAt s₂ x₂ n).signal s₂ := by
  rw [Round.signal, Round.signal, h.workspace, h.host, (h.roundAt hx n).2.2.2]

theorem records (n : Nat) :
    List.Forall₂ (Iteration.Alike Eq) (records s₁ x₁ n) (records s₂ x₂ n) := by
  induction n with
  | zero => exact .nil
  | succ n ih =>
    obtain ⟨hinputs, hhistory, -, hreply⟩ := h.roundAt hx n
    have hcode : (Run.roundAt s₁ x₁ n).code = (Run.roundAt s₂ x₂ n).code := by
      rw [Round.code, Round.code, hreply]
    rw [records_succ, records_succ]
    exact List.rel_append ih (.cons ⟨rfl, hinputs, hhistory, hcode, h.signal hx n⟩ .nil)

theorem callsOf (n : Nat) : callsOf s₁ x₁ n = callsOf s₂ x₂ n := by
  rw [Run.callsOf, Run.callsOf]
  exact List.map_congr_left fun m _ => by rw [(h.roundAt hx m).2.2.1]

theorem goesOn_iff (hasked₁ : x₁.cancelled = false)
    (hasked₂ : x₂.cancelled = false) (n : Nat) : GoesOn s₁ x₁ n ↔ GoesOn s₂ x₂ n := by
  have hreply := (h.roundAt hx n).2.2.2
  have hsignal := h.signal hx n
  constructor
  · rintro ⟨-, hexits, hcontinues⟩
    exact ⟨not_cancelled h.patient₂ hasked₂ n, hreply ▸ hexits, hsignal ▸ hcontinues⟩
  · rintro ⟨-, hexits, hcontinues⟩
    exact ⟨not_cancelled h.patient hasked₁ n, hreply ▸ hexits, hsignal ▸ hcontinues⟩

end Rounds

/-! ## Which round is the last -/

section Last

variable (h : s₁.Widened s₂) (hgoes : ∀ n, GoesOn s₁ x₁ n ↔ GoesOn s₂ x₂ n) (hl₁ : Lasts s₁ x₁ n₁)
  (hl₂ : Lasts s₂ x₂ n₂)
include h hgoes hl₁ hl₂

theorem last_le : n₁ ≤ n₂ := by
  have hwider := h.wider
  have hwithin := hl₁.within
  rcases Nat.lt_or_ge n₂ n₁ with hlt | hge
  · -- the round after `n₂` others goes on, so that the larger budget would be used up
    have hgo := (hgoes n₂).mp (hl₁.goesOn n₂ hlt)
    have hspent := hl₂.ends.resolve_left fun hnot => hnot hgo
    omega
  · exact hge

theorem last_eq (hstops : ¬ GoesOn s₁ x₁ n₁) : n₂ = n₁ := by
  have hle := last_le h hgoes hl₁ hl₂
  rcases Nat.lt_or_ge n₁ n₂ with hlt | hge
  · exact absurd ((hgoes n₁).mpr (hl₂.goesOn n₁ hlt)) hstops
  · omega

theorem last_lt (hgo : GoesOn s₁ x₁ n₁)
    (hlt : s₁.session.budget.toNat < s₂.session.budget.toNat) : n₁ < n₂ := by
  have hle := last_le h hgoes hl₁ hl₂
  have hwithin := hl₁.within
  rcases Nat.lt_or_ge n₁ n₂ with hmore | hge
  · exact hmore
  · obtain rfl : n₂ = n₁ := by omega
    have hspent := hl₂.ends.resolve_left fun hnot => hnot ((hgoes n₂).mp hgo)
    omega

end Last

end Setup.Widened

section Extension

variable {s₁ : Setup σ₁} {s₂ : Setup σ₂} {x₁ : Stand σ₁} {x₂ : Stand σ₂} {n₁ n₂ : Nat}
  {w₁ : σ₁} {w₂ : σ₂} {t : Tree} {lock : Lock} {e₁ : Ended σ₁} {e₂ : Ended σ₂}

/-- What one session with a larger budget does beyond another: it performs the same iterations
    first, and it ends alike unless the smaller budget is used up.  Then it goes on from the tree
    that the last invocation of the other left, of which the other has only taken its lock away.
    The iterations are those of the reports, where there are reports. -/
structure Extends (s₁ : Setup σ₁) (s₂ : Setup σ₂) (e₁ : Ended σ₁) (e₂ : Ended σ₂)
    (done₁ done₂ : List Iteration) : Prop where
  reported₁ : ∀ r, e₁.result = .ok r → r.iterations = done₁
  reported₂ : ∀ r, e₂.result = .ok r → r.iterations = done₂
  iterations : ∃ front rest, done₂ = front ++ rest ∧ List.Forall₂ (Iteration.Alike Eq) done₁ front
  invocations : calls e₁.trace <+: calls e₂.trace
  ended : (∀ r, e₁.result = .ok r → r.outcome ≠ .budgetExhausted) →
    SameEnd (Report.Alike Eq) e₁.result e₂.result ∧ calls e₁.trace = calls e₂.trace ∧
      e₁.tree = e₂.tree
  spent : ∀ r, e₁.result = .ok r → r.outcome = .budgetExhausted →
    (calls e₁.trace).length = s₁.session.budget.toNat ∧
      ∃ left, Lock.GivenBack s₁.host (Lock.pathFor s₁.session.workDir) left e₁.tree ∧
        (s₁.session.budget.toNat < s₂.session.budget.toNat →
          leftBy s₂ e₂.trace s₁.session.budget.toNat = some left ∧
          (calls e₂.trace)[s₁.session.budget.toNat]? = some (s₁.session.budget.toNat + 1,
            archived s₂ (s₁.session.budget.toNat + 1) left))

theorem callsOf_prefix (s : Setup σ) (x : Stand σ) {m n : Nat} (hle : m ≤ n) :
    callsOf s x m <+: callsOf s x n := by
  obtain ⟨k, rfl⟩ := Nat.exists_eq_add_of_le hle
  rw [Run.callsOf, Run.callsOf, List.range_add, List.map_append]
  exact List.prefix_append _ _

theorem records_append (s : Setup σ) (x : Stand σ) {m n : Nat} (hle : m ≤ n) :
    ∃ rest, records s x n = records s x m ++ rest := by
  obtain ⟨k, rfl⟩ := Nat.exists_eq_add_of_le hle
  exact ⟨_, by rw [Run.records, Run.records, List.range_add, List.map_append]⟩

theorem complete_le (h : s₁.Widened s₂) (hx : x₁.tree = x₂.tree) (hle : n₁ ≤ n₂) :
    complete s₁ x₁ n₁ ≤ complete s₂ x₂ n₂ := by
  have hsame : complete s₁ x₁ n₁ = complete s₂ x₂ n₁ := by
    rw [complete, complete, (h.roundAt hx n₁).2.2.2]
  have hbounds : ∀ n, n ≤ complete s₂ x₂ n ∧ complete s₂ x₂ n ≤ n + 1 := by
    intro n
    rw [complete]
    split <;> omega
  have h₁ := hbounds n₁
  have h₂ := hbounds n₂
  rcases Nat.lt_or_eq_of_le hle with hlt | rfl
  · omega
  · omega

theorem verdict_alike (h : s₁.Widened s₂) (hx : x₁.tree = x₂.tree) (n : Nat) :
    SameEnd (Report.Alike Eq) (verdict s₁ x₁ n) (verdict s₂ x₂ n) := by
  have hid : s₁.session.id = s₂.session.id := by
    have hsame := congrArg Session.id h.session
    exact hsame
  rw [verdict, verdict, h.signal hx n, (h.roundAt hx n).2.2.2]
  cases (Run.roundAt s₂ x₂ n).reply.exit with
  | error cause => exact .fails cause
  | ok code => exact .gives ⟨hid, rfl, h.records hx (n + 1)⟩

theorem Concludes.reported {s : Setup σ} {x : Stand σ} {n : Nat} {e : Ended σ} {r : Report}
    (hc : Concludes s x lock n e) (hresult : e.result = .ok r) :
    r.iterations = records s x (roundsOf e.trace) := by
  have hrounds := hc.rounds
  rw [hc.result, verdict] at hresult
  rw [complete] at hrounds
  cases hexit : (roundAt s x n).reply.exit with
  | error cause =>
    rw [hexit] at hresult
    cases hresult
  | ok code =>
    rw [hexit] at hresult hrounds
    cases hresult
    rw [hrounds]

theorem goesOn_of_spent {s : Setup σ} {x : Stand σ} {n : Nat} {r : Report}
    (hasked : (stand s x n).cancelled = false) (hresult : verdict s x n = .ok r)
    (hspent : r.outcome = .budgetExhausted) : GoesOn s x n := by
  rw [verdict] at hresult
  cases hexit : (roundAt s x n).reply.exit with
  | error cause =>
    rw [hexit] at hresult
    cases hresult
  | ok code =>
    rw [hexit] at hresult
    cases hresult
    refine ⟨hasked, ⟨code, hexit⟩, ?_⟩
    cases hcontinues : ((roundAt s x n).signal s).continues with
    | true => rfl
    | false =>
      rw [hcontinues] at hspent
      cases hspent

/-- **Two runs past their resets.** -/
theorem extends_of_concludes (h : s₁.Widened s₂) (hx : x₁.tree = x₂.tree)
    (hasked₁ : x₁.cancelled = false) (hasked₂ : x₂.cancelled = false)
    (hpath : lock.path = Lock.pathFor s₁.session.workDir) (hc₁ : Concludes s₁ x₁ lock n₁ e₁)
    (hc₂ : Concludes s₂ x₂ lock n₂ e₂) :
    Extends s₁ s₂ e₁ e₂ (records s₁ x₁ (roundsOf e₁.trace))
      (records s₂ x₂ (roundsOf e₂.trace)) := by
  have hgoes := h.goesOn_iff hx hasked₁ hasked₂
  have hle := h.last_le hgoes hc₁.lasts hc₂.lasts
  have hreply := (h.roundAt hx n₁).2.2.2
  refine ⟨fun r => hc₁.reported, fun r => hc₂.reported, ?_, ?_, fun hexplored => ?_,
    fun r hresult hspent => ?_⟩
  · rw [hc₁.rounds, hc₂.rounds]
    obtain ⟨rest, hrest⟩ := records_append s₂ x₂ (complete_le h hx hle)
    exact ⟨_, rest, hrest, h.records hx _⟩
  · rw [hc₁.calls, hc₂.calls, h.callsOf hx]
    exact callsOf_prefix s₂ x₂ (by omega)
  · -- the budget was not what ended the first run
    have hstops : ¬ GoesOn s₁ x₁ n₁ := by
      intro hgo
      obtain ⟨code, hexit⟩ := hgo.exits
      refine hexplored _ (by rw [hc₁.result, verdict, hexit]) ?_
      rw [hgo.continues]
      rfl
    obtain rfl := h.last_eq hgoes hc₁.lasts hc₂.lasts hstops
    refine ⟨?_, ?_, ?_⟩
    · rw [hc₁.result, hc₂.result]
      exact verdict_alike h hx n₂
    · rw [hc₁.calls, hc₂.calls, h.callsOf hx]
    · rw [hc₁.tree, hc₂.tree, hreply, h.host]
  · rw [hc₁.result] at hresult
    have hgo := goesOn_of_spent (not_cancelled h.patient hasked₁ n₁) hresult hspent
    have hbudget := hc₁.lasts.ends.resolve_left fun hnot => hnot hgo
    rw [← hbudget]
    refine ⟨by rw [hc₁.calls, Run.callsOf, List.length_map, List.length_range],
      (Run.roundAt s₁ x₁ n₁).reply.tree, ?_, fun hlt => ?_⟩
    · rw [hc₁.tree, ← hpath]
      exact Lock.givenBack_release _ _ _
    · have hmore := h.last_lt hgoes hc₁.lasts hc₂.lasts hgo (hbudget ▸ hlt)
      refine ⟨?_, ?_⟩
      · rw [leftBy_of_calls hc₂.calls, if_pos (by omega), hreply]
      · -- the next round of the second session starts from what this one has left
        have hbefore : (Run.roundAt s₂ x₂ (n₁ + 1)).before =
            archived s₂ (n₁ + 2) (Run.roundAt s₁ x₁ n₁).reply.tree := by
          rw [hreply, ← tree_stand_succ h.watches₂]
          exact h.watches₂ _ _ _
        rw [hc₂.calls, Run.callsOf, List.getElem?_map, List.getElem?_range (by omega), ← hbefore]
        rfl

theorem extends_of_failed {cause : Failure} (hresult₁ : e₁.result = .error cause)
    (hresult₂ : e₂.result = .error cause) (hcalls₁ : calls e₁.trace = [])
    (hcalls₂ : calls e₂.trace = []) (htree : e₁.tree = e₂.tree) : Extends s₁ s₂ e₁ e₂ [] [] := by
  have hno₁ : ∀ r, e₁.result ≠ .ok r := by
    intro r hr
    rw [hresult₁] at hr
    cases hr
  have hno₂ : ∀ r, e₂.result ≠ .ok r := by
    intro r hr
    rw [hresult₂] at hr
    cases hr
  have hcalls : calls e₁.trace = calls e₂.trace := by rw [hcalls₁, hcalls₂]
  refine ⟨fun r hr => absurd hr (hno₁ r), fun r hr => absurd hr (hno₂ r), ⟨[], [], rfl, .nil⟩,
    hcalls ▸ List.prefix_refl _, fun _ => ⟨?_, hcalls, htree⟩, fun r hr => absurd hr (hno₁ r)⟩
  rw [hresult₁, hresult₂]
  exact .fails cause

end Extension

/-- **A larger budget only extends a run.** -/
theorem larger_budget_extends_run {s₁ : Setup σ₁} {s₂ : Setup σ₂} (h : s₁.Widened s₂) (w₁ : σ₁)
    (w₂ : σ₂) (t : Tree) :
    Extends s₁ s₂ (run s₁ false w₁ t) (run s₂ false w₂ t) (performed s₁ false w₁ t)
      (performed s₂ false w₂ t) := by
  cases hlock₁ : Lock.acquire s₁.host s₁.session.workDir t with
  | mk held r =>
    have hlock₂ := hlock₁
    rw [h.host, h.workDir] at hlock₂
    cases r with
    | error cause =>
      rw [performed_refused hlock₁, performed_refused hlock₂, run_refused false w₁ hlock₁,
        run_refused false w₂ hlock₂]
      exact extends_of_failed rfl rfl rfl rfl rfl
    | ok lock =>
      have htold₁ := h.watches₁ (sessionEvent s₁) w₁ held
      have htold₂ := h.watches₂ (sessionEvent s₂) w₂ held
      cases hreset : s₁.workspace.reset s₁.host.cwd held with
      | mk fresh r =>
        have hreset₁ : s₁.workspace.reset s₁.host.cwd
            (s₁.observer.notify (sessionEvent s₁) w₁ held).2 = (fresh, r) := by rw [htold₁, hreset]
        have hreset₂ : s₂.workspace.reset s₂.host.cwd
            (s₂.observer.notify (sessionEvent s₂) w₂ held).2 = (fresh, r) := by
          rw [htold₂, ← h.workspace, ← h.host, hreset]
        cases r with
        | error cause =>
          rw [performed_unreset hlock₁ hreset₁, performed_unreset hlock₂ hreset₂,
            run_unreset_eq false hlock₁ hreset₁, run_unreset_eq false hlock₂ hreset₂]
          refine extends_of_failed rfl rfl rfl rfl ?_
          rw [endedBy, endedBy, h.watches₁, h.watches₂, h.host]
        | ok =>
          have hbegin₁ : Begins s₁ false w₁ t lock _
              ⟨fresh, (s₁.observer.notify (sessionEvent s₁) w₁ held).1, false⟩ :=
            ⟨⟨held, hlock₁, rfl⟩, hreset₁, rfl⟩
          have hbegin₂ : Begins s₂ false w₂ t lock _
              ⟨fresh, (s₂.observer.notify (sessionEvent s₂) w₂ held).1, false⟩ :=
            ⟨⟨held, hlock₂, rfl⟩, hreset₂, rfl⟩
          obtain ⟨n₁, hc₁⟩ := run_concludes h.watches₁ h.patient h.least hbegin₁
          obtain ⟨n₂, hc₂⟩ := run_concludes h.watches₂ h.patient₂ (h.least.trans h.wider) hbegin₂
          rw [hbegin₁.performed, hbegin₂.performed]
          exact extends_of_concludes h rfl rfl rfl (Lock.path_of_acquire hlock₁) hc₁ hc₂

/-- The session that `shortSession` is, with a budget of one invocation. -/
def singleSession : Setup Unit :=
  { shortSession with session := { shortSession.session with budget := 1 } }

theorem singleSession_extended : let ended₁ := run singleSession false () Tree.empty
    let ended₂ := run shortSession false () Tree.empty
    (ended₁.result.toOption.map (·.outcome)) = some .budgetExhausted ∧
      (ended₂.result.toOption.map (·.outcome)) = some .explorationExhausted ∧
      Extends singleSession shortSession ended₁ ended₂ (performed singleSession false () Tree.empty)
        (performed shortSession false () Tree.empty) := by
  have hwidened : singleSession.Widened shortSession :=
    ⟨rfl, rfl, rfl, fun _ _ => rfl, Observer.onlyWatches_silent, Observer.onlyWatches_silent,
      by decide, by decide⟩
  exact ⟨by decide +kernel, by decide +kernel, larger_budget_extends_run hwidened () () Tree.empty⟩

/-- An executor that puts a link to the directory above in the place of the working directory, and a
    history into it. -/
def shiftingSession (budget : UInt32) : Setup Unit :=
  { scriptedSession "w" budget fun _ => [] with
    executor := ⟨"explore", fun n t =>
      { tree := if n = 1 then ((t.erase ["w"]).put ["w"] (.link ".")).put [Artifact.history]
          (.file ⟨"h".toUTF8, false⟩) else t
        exit := .ok (some 0)
        output := Console.empty
        cancels := false }⟩ }

/-- **A lock file that the next iteration finds** and the tree that is left does not hold: the lock
    file has got into the working directory, and a session that ends here gives it back. -/
theorem shiftingSession_differs : let ended₁ := run (shiftingSession 1) false () Tree.empty
    let ended₂ := run (shiftingSession 2) false () Tree.empty
    (ended₁.result.toOption.map (·.outcome)) = some .budgetExhausted ∧
      (ended₁.tree.lookup [] true "w").toOption = some [] ∧
      ended₁.tree.node? ["w.lock"] = none ∧
      ((leftBy (shiftingSession 2) ended₂.trace 1).bind (·.node? ["w.lock"])) ≠ none ∧
      ((calls ended₂.trace)[1]?.bind (·.2.node? ["w.lock"])) ≠ none :=
  ⟨by decide +kernel, by decide +kernel, by decide +kernel, by decide +kernel, by decide +kernel⟩

end Run

end Concolic
