import Concolic.Proofs.Confined
import Concolic.Proofs.Rounds

/-
  What every round of a session keeps.

  As long as the executor keeps to the working directory, what holds outside of it is up to the
  observer alone.  `Upkeep` says what it takes for a property of the tree and of the observer to
  hold at every moment of the loop.
-/

namespace Concolic

/-- The tree at a moment of a run. -/
def Moment.tree : Moment → Tree
  | event _ after => after
  | invocation _ before _ => before

namespace Run

open Concolic.Tree (ChangesInside)

variable {σ : Type}

/-! ## The loop -/

/-- The event belongs to an iteration. -/
def isLap : Event → Bool
  | .iterationStart _ _ _ => true
  | .iterationEnd _ _ _ _ => true
  | _ => false

/-- The path of the working directory led to `place` when the loop began at `x`, and what it needs
    to lead there again is still there. -/
def Minded (s : Setup σ) (x : Stand σ) (place : Loc) (t : Tree) : Prop :=
  s.workspace.Watched s.host.cwd x.tree place t

theorem Minded.eq_of_reaches {s : Setup σ} {x : Stand σ} {place e : Loc} {t : Tree}
    (h : Minded s x place t) (hreach : t.Reaches s.host.cwd s.session.workDir e) : e = place := by
  obtain ⟨n, -, hlead⟩ := h.reaches.way
  obtain ⟨m, -, hlead'⟩ := hreach.way
  exact (hlead.agree (h.guarded.concordant h.plain) hlead').1.symm

theorem Minded.elsewhere {s : Setup σ} {x : Stand σ} {place : Loc} {t t' : Tree}
    (h : Minded s x place t) (hkeeps : Tree.Keeps t t')
    (hinside : ∀ loc, place <:+ loc → t'.node? loc = t.node? loc) : Minded s x place t' := by
  refine ⟨h.reaches, h.plain, h.guarded.keeps.trans hkeeps, fun loc node hin hnode => ?_⟩
  rw [hinside loc hin] at hnode
  exact h.guarded.plain loc node hin hnode

/-- The executor keeps to the working directory and makes no links, as long as the path of the
    directory leads nowhere else than to `place`. -/
def StaysInside (s : Setup σ) (place : Loc) : Prop :=
  ∀ n t, (∀ e, t.Reaches s.host.cwd s.session.workDir e → e = place) →
    ChangesInside place t (s.executor.invoke n t).tree

/-- What it takes to keep `Q` during the loop that begins at `x`. -/
structure Upkeep (s : Setup σ) (x : Stand σ) (place : Loc) (Q : Tree → σ → Prop) : Prop where
  minded : Minded s x place x.tree
  begins : Q x.tree x.watch
  executor : StaysInside s place
  frame : ∀ t t' w, ChangesInside place t t' → Q t w → Q t' w
  observer : ∀ e w t, isLap e = true → Minded s x place t → Q t w →
    Minded s x place (s.observer.notify e w t).2 ∧
      Q (s.observer.notify e w t).2 (s.observer.notify e w t).1

section Upkeep

variable {s : Setup σ} {x : Stand σ} {place : Loc} {Q : Tree → σ → Prop}
  (h : Upkeep s x place Q)
include h

/-- A round keeps what the session stands for: when the executor is invoked, when it replies, and at
    the next stand. -/
theorem Upkeep.round {n : Nat}
    (hn : Minded s x place (stand s x n).tree ∧ Q (stand s x n).tree (stand s x n).watch) :
    (Minded s x place (roundAt s x n).before ∧ Q (roundAt s x n).before (roundAt s x n).watch) ∧
      (Minded s x place (roundAt s x n).reply.tree ∧
        Q (roundAt s x n).reply.tree (roundAt s x n).watch) ∧
      Minded s x place (stand s x (n + 1)).tree ∧
        Q (stand s x (n + 1)).tree (stand s x (n + 1)).watch := by
  obtain ⟨hminded, hkept⟩ := hn
  -- the archives
  have hinputs := hminded.snapshotInputs (UInt32.ofNat (n + 1))
  have hhistory := (hminded.step hinputs).snapshotHistory
  have harchived := hinputs.trans hhistory
  -- the start of the iteration, the invocation and its end
  have hbefore := h.observer (startEvent s (n + 1)) (stand s x n).watch _ rfl
    (hminded.step harchived) (h.frame _ _ _ harchived hkept)
  have hinvoke := h.executor (n + 1) (roundAt s x n).before fun e hreach =>
    hbefore.1.eq_of_reaches hreach
  have hreply : Minded s x place (roundAt s x n).reply.tree ∧
      Q (roundAt s x n).reply.tree (roundAt s x n).watch :=
    ⟨hbefore.1.step hinvoke, h.frame _ _ _ hinvoke hbefore.2⟩
  exact ⟨hbefore, hreply, h.observer ((roundAt s x n).endEvent s (n + 1)) _ _ rfl hreply.1 hreply.2⟩

/-- **The rounds of a session** keep what each of them keeps. -/
theorem Upkeep.stand (n : Nat) :
    Minded s x place (stand s x n).tree ∧ Q (stand s x n).tree (stand s x n).watch := by
  induction n with
  | zero => exact ⟨h.minded, h.begins⟩
  | succ n ih => exact (h.round ih).2.2

theorem Upkeep.before (n : Nat) :
    Minded s x place (roundAt s x n).before ∧ Q (roundAt s x n).before (roundAt s x n).watch :=
  (h.round (h.stand n)).1

theorem Upkeep.replied (n : Nat) :
    Minded s x place (roundAt s x n).reply.tree ∧
      Q (roundAt s x n).reply.tree (roundAt s x n).watch :=
  (h.round (h.stand n)).2.1

theorem Upkeep.opening {n : Nat} {m : Moment}
    (hm : m ∈ (roundAt s x n).opening s (n + 1)) : Minded s x place m.tree ∧ ∃ w, Q m.tree w := by
  have hbefore := h.before n
  have htree : m.tree = (roundAt s x n).before := by
    simp only [Round.opening, List.mem_cons, List.not_mem_nil, or_false] at hm
    rcases hm with rfl | rfl
    · rfl
    · rfl
  rw [htree]
  exact ⟨hbefore.1, _, hbefore.2⟩

theorem Upkeep.moments {n : Nat} {m : Moment} (hm : m ∈ moments s x n) :
    Minded s x place m.tree ∧ ∃ w, Q m.tree w := by
  obtain ⟨k, -, hk⟩ := List.mem_flatMap.mp hm
  rcases List.mem_append.mp hk with hopen | hend
  · exact h.opening hopen
  · have hnext := h.stand (k + 1)
    rw [List.mem_singleton.mp hend]
    exact ⟨hnext.1, _, hnext.2⟩

end Upkeep

end Run

end Concolic
