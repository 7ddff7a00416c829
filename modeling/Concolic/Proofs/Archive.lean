import Concolic.Proofs.Artifact
import Concolic.Proofs.Lock
import Concolic.Proofs.Reset
import Concolic.Proofs.Stopping

/-
  The archive that a session leaves.

  What is in the archive after `n` iterations is a function of the contents after each invocation:
  one archive for every number up to `n` whose inputs were there and real, and the latest inputs and
  history that were there at all.  Executors are free in what they do to regular files of the
  working directory, as long as they keep away from the archives.  Observers may write files
  elsewhere, and rely on whatever the regular files of the working directory do not decide.
-/

namespace Concolic.Run

open Artifact (IsArchive IsArtifact IsNumbered)
open Workspace (Archives Settled)

variable {σ : Type}

/-! ## What an archive holds -/

/-- `r` is the last value before `n` that is there, and nothing if there is none. -/
def IsLatest (f : Nat → Option ByteArray) (n : Nat) (r : Option ByteArray) : Prop :=
  (∃ j < n, f j = r ∧ r ≠ none ∧ ∀ m, j < m → m < n → f m = none) ∨ (r = none ∧ ∀ j < n, f j = none)

/-- The same of an archive that is made only if there is `room` for it. -/
def KeepsLatest (room : Prop) [Decidable room] (f : Nat → Option ByteArray) (n : Nat)
    (r : Option ByteArray) : Prop :=
  if room then IsLatest f n r else r = none

/-- The archive in `d` after `n` iterations, by what the inputs, the marker and the history were
    after each invocation. -/
structure Archived (ws : Workspace) (t : Tree) (d : Loc)
    (inputs marker history : Nat → Option ByteArray) (n : Nat) : Prop where
  /-- The inputs that iteration `i` found, if they were real, and else nothing. -/
  numbered : ∀ i, t.content d (Artifact.number i) =
    if 1 ≤ i ∧ i ≤ n ∧ ws.HasRoom (Artifact.number i) ∧ ws.callsSynthetic (marker (i - 1)) = false
    then inputs (i - 1) else none
  /-- No archive has a number that is written in another way. -/
  canonical : ∀ name, IsNumbered name → t.content d name ≠ none → ∃ i, name = Artifact.number i
  inputsOld : KeepsLatest (ws.HasRoom Artifact.inputsOld) inputs n (t.content d Artifact.inputsOld)
  historyOld : KeepsLatest (ws.HasRoom Artifact.historyOld) history n
    (t.content d Artifact.historyOld)

theorem isLatest_zero (f : Nat → Option ByteArray) : IsLatest f 0 none :=
  .inr ⟨rfl, fun j hj => absurd hj (Nat.not_lt_zero j)⟩

theorem IsLatest.succ {f : Nat → Option ByteArray} {n : Nat} {r : Option ByteArray}
    (h : IsLatest f n r) : IsLatest f (n + 1) ((f n).or r) := by
  cases hf : f n with
  | some bytes =>
    refine .inl ⟨n, Nat.lt_succ_self n, by rw [hf]; rfl, by simp, fun m hm hm' => ?_⟩
    omega
  | none =>
    rw [Option.none_or]
    rcases h with ⟨j, hj, hfj, hr, hlater⟩ | ⟨hr, hnone⟩
    · refine .inl ⟨j, Nat.lt_succ_of_lt hj, hfj, hr, fun m hm hm' => ?_⟩
      rcases Nat.lt_or_eq_of_le (Nat.le_of_lt_succ hm') with hlt | rfl
      · exact hlater m hm hlt
      · exact hf
    · refine .inr ⟨hr, fun j hj => ?_⟩
      rcases Nat.lt_or_eq_of_le (Nat.le_of_lt_succ hj) with hlt | rfl
      · exact hnone j hlt
      · exact hf

theorem IsLatest.congr {f g : Nat → Option ByteArray} {n : Nat} {r : Option ByteArray}
    (hfg : ∀ j < n, f j = g j) (h : IsLatest f n r) : IsLatest g n r := by
  rcases h with ⟨j, hj, hfj, hr, hlater⟩ | ⟨hr, hnone⟩
  · exact .inl ⟨j, hj, hfg j hj ▸ hfj, hr, fun m hm hm' => hfg m hm' ▸ hlater m hm hm'⟩
  · exact .inr ⟨hr, fun j hj => hfg j hj ▸ hnone j hj⟩

section KeepsLatest

variable {room : Prop} [Decidable room] {f g : Nat → Option ByteArray} {n : Nat}
  {r r' : Option ByteArray}

theorem keepsLatest_zero : KeepsLatest room f 0 none := by
  rw [KeepsLatest]
  split
  · exact isLatest_zero f
  · rfl

theorem KeepsLatest.succ (h : KeepsLatest room f n r)
    (hcopy : r' = (if room then f n else none).or r) : KeepsLatest room f (n + 1) r' := by
  rw [KeepsLatest] at h ⊢
  by_cases hroom : room
  · rw [if_pos hroom] at h hcopy ⊢
    rw [hcopy]
    exact h.succ
  · rw [if_neg hroom] at h hcopy ⊢
    rw [hcopy, h]
    rfl

theorem KeepsLatest.congr (hfg : ∀ j < n, f j = g j) (h : KeepsLatest room f n r) :
    KeepsLatest room g n r := by
  rw [KeepsLatest] at h ⊢
  by_cases hroom : room
  · rw [if_pos hroom] at h ⊢
    exact h.congr hfg
  · rw [if_neg hroom] at h ⊢
    exact h

end KeepsLatest

section Archived

variable {ws : Workspace} {t t' : Tree} {d : Loc} {inputs marker history : Nat → Option ByteArray}
  {n : Nat}

theorem Archived.same (h : Archived ws t d inputs marker history n)
    (hsame : ∀ name, IsArchive name → t'.content d name = t.content d name) :
    Archived ws t' d inputs marker history n := by
  refine ⟨fun i => ?_, fun name hname hthere => ?_, ?_, ?_⟩
  · rw [hsame _ (.inl (Artifact.isNumbered_number i))]
    exact h.numbered i
  · rw [hsame name (.inl hname)] at hthere
    exact h.canonical name hname hthere
  · rw [hsame _ (.inr (.inl rfl))]
    exact h.inputsOld
  · rw [hsame _ (.inr (.inr rfl))]
    exact h.historyOld

theorem Archived.congr {inputs' marker' history' : Nat → Option ByteArray}
    (hinputs : ∀ j < n, inputs j = inputs' j) (hmarker : ∀ j < n, marker j = marker' j)
    (hhistory : ∀ j < n, history j = history' j) (h : Archived ws t d inputs marker history n) :
    Archived ws t d inputs' marker' history' n := by
  refine ⟨fun i => ?_, h.canonical, h.inputsOld.congr hinputs, h.historyOld.congr hhistory⟩
  rw [h.numbered i]
  by_cases hi : 1 ≤ i ∧ i ≤ n
  · rw [hinputs (i - 1) (by omega), hmarker (i - 1) (by omega)]
  · rw [if_neg fun hall => hi ⟨hall.1, hall.2.1⟩, if_neg fun hall => hi ⟨hall.1, hall.2.1⟩]

theorem archived_zero (ws : Workspace) (h : ∀ name, IsArtifact name → t.content d name = none) :
    Archived ws t d inputs marker history 0 := by
  refine ⟨fun i => ?_, fun name hname hthere => ?_, ?_, ?_⟩
  · rw [h _ (Workspace.isArtifact_number i), if_neg]
    omega
  · exact absurd (h name (.inl (.inl hname))) hthere
  · rw [h _ (.inl (.inr (.inl rfl)))]
    exact keepsLatest_zero
  · rw [h _ (.inl (.inr (.inr rfl)))]
    exact keepsLatest_zero

/-- **One more iteration.**  The archive grows by its own number, and no other is touched. -/
theorem Archived.step (h : Archived ws t d inputs marker history n)
    (hnext : Archives ws t t' d (n + 1)) (hinputs : inputs n = t.content d Artifact.inputs)
    (hmarker : marker n = t.content d Artifact.marker)
    (hhistory : history n = t.content d Artifact.history) :
    Archived ws t' d inputs marker history (n + 1) := by
  have hothers : ∀ name, IsNumbered name → name ≠ Artifact.number (n + 1) →
      t'.content d name = t.content d name := fun name hname hne =>
    hnext.others name (.inl (.inl hname)) hne (hname.ne (by simp)) (hname.ne (by simp))
  refine ⟨fun i => ?_, fun name hname hthere => ?_, ?_, ?_⟩
  · by_cases hi : i = n + 1
    · subst hi
      have hfree : t.content d (Artifact.number (n + 1)) = none := by
        rw [h.numbered (n + 1), if_neg (by omega)]
      rw [hnext.number, hfree, Nat.add_sub_cancel, hmarker, hinputs, Option.or_none]
      simp
    · have hcond : i ≤ n + 1 ↔ i ≤ n := by omega
      rw [hothers _ (Artifact.isNumbered_number i) fun heq => hi (Artifact.number_injective heq),
        h.numbered i]
      simp only [hcond]
  · by_cases hnew : name = Artifact.number (n + 1)
    · exact ⟨n + 1, hnew⟩
    · rw [hothers name hname hnew] at hthere
      exact h.canonical name hname hthere
  · refine h.inputsOld.succ ?_
    rw [hnext.inputsOld, ← hinputs]
  · refine h.historyOld.succ ?_
    rw [hnext.historyOld, ← hhistory]

end Archived

/-! ## What executors and observers may do -/

/-- Between `t` and `t'` only regular files directly in `d` were created, overwritten or removed,
    and none of them is an archive. -/
def ChangesFilesIn (d : Loc) (t t' : Tree) : Prop :=
  ∀ loc, t'.node? loc ≠ t.node? loc → ∃ name, loc = name :: d ∧ ¬ IsArchive name ∧
    t.node? d = some .folder ∧ t.IsSlot loc ∧ t'.IsSlot loc

/-- In every invocation the executor changes regular files of the working directory only. -/
def KeepsToFiles (s : Setup σ) (trace : List Moment) : Prop :=
  ∀ call before, (call, before) ∈ calls trace → ∀ d,
    before.lookup s.host.cwd true s.session.workDir = .ok d →
    ChangesFilesIn d before (s.executor.invoke call before).tree

/-- An observer that relies on `P` keeps all directories and links and leaves the artifacts alone,
    and no regular file of the working directory matters to what it relies on. -/
structure Discreet (s : Setup σ) (P : Tree → σ → Prop) : Prop where
  relies : ∀ e w t, P t w → P (s.observer.notify e w t).2 (s.observer.notify e w t).1
  keeps : ∀ e w t, P t w → Tree.Keeps t (s.observer.notify e w t).2
  artifacts : ∀ e w t d name, P t w → t.Reaches s.host.cwd s.session.workDir d → IsArtifact name →
    (s.observer.notify e w t).2.node? (name :: d) = t.node? (name :: d)
  files : ∀ w t t' d, P t w → t.Reaches s.host.cwd s.session.workDir d →
    Tree.Rewrites d t t' → P t' w

section Keeping

variable {s : Setup σ} {P : Tree → σ → Prop} {d : Loc} {t t' : Tree} {w : σ}

theorem ChangesFilesIn.rewrites (h : ChangesFilesIn d t t') : Tree.Rewrites d t t' := by
  intro loc hne
  obtain ⟨name, hloc, -, -, hold, hnew⟩ := h loc hne
  exact ⟨name, hloc, hold, hnew⟩

theorem ChangesFilesIn.settled (h : ChangesFilesIn d t t')
    (hs : Settled s.workspace s.host.cwd t d) : Settled s.workspace s.host.cwd t' d := by
  refine hs.of_change h.rewrites.keeps fun name node hname hnode => ?_
  by_cases hsame : t'.node? (name :: d) = t.node? (name :: d)
  · exact .inl (hsame ▸ hnode)
  · obtain ⟨_, -, -, hd, -, hnew⟩ := h _ hsame
    exact .inr ⟨hd, hnew node hnode⟩

theorem ChangesFilesIn.archives (h : ChangesFilesIn d t t')
    (hs : Settled s.workspace s.host.cwd t d) {name : String} (hname : IsArchive name) :
    t'.content d name = t.content d name := by
  refine Tree.content_congr ?_ (hs.not_shared (.inl hname))
  refine Classical.byContradiction fun hne => ?_
  obtain ⟨name', hloc, harchive, -⟩ := h _ hne
  cases hloc
  exact harchive hname

theorem Discreet.settled (h : Discreet s P) (hs : Settled s.workspace s.host.cwd t d) (hP : P t w)
    (e : Event) : Settled s.workspace s.host.cwd (s.observer.notify e w t).2 d ∧
      ∀ name, IsArtifact name → (s.observer.notify e w t).2.content d name = t.content d name := by
  have hsame := fun name hname => h.artifacts e w t d name hP hs.reaches hname
  refine ⟨hs.of_change (h.keeps e w t hP) fun name node hname hnode => ?_, fun name hname => ?_⟩
  · exact .inl (hsame name hname ▸ hnode)
  · exact Tree.content_congr (hsame name hname) (hs.not_shared hname)

end Keeping

/-! ## The rounds of a session -/

/-- What is asked of the first `k` rounds of a session that begins at `x`, with an observer that
    relies on `P`. -/
structure Orderly (s : Setup σ) (P : Tree → σ → Prop) (x : Stand σ) (d : Loc) (k : Nat) : Prop where
  settled : Settled s.workspace s.host.cwd x.tree d
  fresh : ∀ name, IsArtifact name → x.tree.content d name = none
  observer : Discreet s P
  relies : P x.tree x.watch
  executor : ∀ j < k, ∀ e, (roundAt s x j).before.lookup s.host.cwd true s.session.workDir = .ok e →
    ChangesFilesIn e (roundAt s x j).before (roundAt s x j).reply.tree
  bounded : k < UInt32.size

/-- What one round does to the working directory. -/
structure RoundKeeps (s : Setup σ) (x : Stand σ) (d : Loc) (n : Nat) : Prop where
  before : Settled s.workspace s.host.cwd (roundAt s x n).before d
  archives : Archives s.workspace (stand s x n).tree (roundAt s x n).before d (n + 1)
  copied : (roundAt s x n).inputs.numbered.isCopied =
    (if s.workspace.HasRoom (Artifact.number (n + 1)) ∧
        s.workspace.callsSynthetic ((stand s x n).tree.content d Artifact.marker) = false
      then (stand s x n).tree.content d Artifact.inputs else none).isSome
  replied : Settled s.workspace s.host.cwd (roundAt s x n).reply.tree d
  spared : ∀ name, IsArchive name →
    (roundAt s x n).reply.tree.content d name = (roundAt s x n).before.content d name
  next : Settled s.workspace s.host.cwd (stand s x (n + 1)).tree d
  kept : ∀ name, IsArtifact name →
    (stand s x (n + 1)).tree.content d name = (roundAt s x n).reply.tree.content d name

section Orderly

variable {s : Setup σ} {P : Tree → σ → Prop} {x : Stand σ} {d : Loc} {k n : Nat}

/-- One round keeps the working directory in order, and what the observer relies on. -/
theorem Orderly.round (h : Orderly s P x d k) (hn : n < k)
    (hs : Settled s.workspace s.host.cwd (stand s x n).tree d)
    (hP : P (stand s x n).tree (stand s x n).watch) :
    RoundKeeps s x d n ∧ P (stand s x (n + 1)).tree (stand s x (n + 1)).watch := by
  obtain ⟨hsaved, hrewrites, harchives, hcopied⟩ := Workspace.archives_snapshots hs
    (Nat.lt_of_le_of_lt hn h.bounded)
  have hP₁ := h.observer.files _ _ _ d hP hs.reaches hrewrites
  -- the observer learns of the start, the executor replies, the observer learns of the end
  obtain ⟨hbefore, hsame⟩ := h.observer.settled hsaved hP₁ (startEvent s (n + 1))
  have hP₂ := h.observer.relies (startEvent s (n + 1)) _ _ hP₁
  have hfiles := h.executor n hn d hbefore.reaches.lookup
  have hreplied := hfiles.settled hbefore
  have hP₃ := h.observer.files _ _ (roundAt s x n).reply.tree d hP₂ hbefore.reaches hfiles.rewrites
  obtain ⟨hnext, hkept⟩ := h.observer.settled hreplied hP₃ ((roundAt s x n).endEvent s (n + 1))
  exact ⟨⟨hbefore, harchives.same (h.observer.keeps _ _ _ hP₁) hsame, hcopied, hreplied,
    fun name hname => hfiles.archives hbefore hname, hnext, hkept⟩, h.observer.relies _ _ _ hP₃⟩

theorem Orderly.stand_settled (h : Orderly s P x d k) : ∀ n ≤ k,
    Settled s.workspace s.host.cwd (stand s x n).tree d ∧
      P (stand s x n).tree (stand s x n).watch := by
  intro n
  induction n with
  | zero => exact fun _ => ⟨h.settled, h.relies⟩
  | succ n ih =>
    intro hn
    obtain ⟨hs, hP⟩ := ih (by omega)
    obtain ⟨hround, hP'⟩ := h.round (by omega) hs hP
    exact ⟨hround.next, hP'⟩

theorem Orderly.roundKeeps (h : Orderly s P x d k) (hn : n < k) : RoundKeeps s x d n := by
  obtain ⟨hs, hP⟩ := h.stand_settled n (Nat.le_of_lt hn)
  exact (h.round hn hs hP).1

/-- **The archive after every round.** -/
theorem Orderly.stand_archived (h : Orderly s P x d k) : ∀ n ≤ k,
    Archived s.workspace (stand s x n).tree d
      (fun j => (stand s x j).tree.content d Artifact.inputs)
      (fun j => (stand s x j).tree.content d Artifact.marker)
      (fun j => (stand s x j).tree.content d Artifact.history) n := by
  intro n
  induction n with
  | zero => exact fun _ => archived_zero s.workspace h.fresh
  | succ n ih =>
    intro hn
    have hround := h.roundKeeps hn
    have hbefore := (ih (by omega)).step hround.archives rfl rfl rfl
    refine hbefore.same fun name hname => ?_
    rw [hround.kept name (.inl hname), hround.spared name hname]

end Orderly

/-! ## The beginning and the end of a run -/

theorem settled_of_bare {ws : Workspace} {cwd d : Loc} {t : Tree} (hreach : t.Reaches cwd ws.root d)
    (hbare : t.Bare d) :
    Settled ws cwd t d ∧ ∀ name, IsArtifact name → t.content d name = none := by
  refine ⟨⟨hreach, fun {name node} _ hnode => .inr (hbare name node hnode)⟩, fun name _ => ?_⟩
  cases hnode : t.node? (name :: d) with
  | none => exact Tree.content_none hnode
  | some node =>
    rw [Tree.content, Tree.blob?, hnode]
    rcases (hbare name node hnode).2 with rfl | ⟨device, rfl⟩ <;> rfl

theorem release_spares {lock : Lock} {workDir : String} (hlock : lock.path = Lock.pathFor workDir)
    (host : Host) (d : Loc) (t : Tree) :
    (∀ name, IsArtifact name → (lock.release host t).node? (name :: d) = t.node? (name :: d)) ∧
      (t.isFolderAt d = true → (lock.release host t).isFolderAt d = true) := by
  rw [Lock.release, hlock]
  rcases Lock.discard_cases host t (Lock.pathFor workDir) with
    hsame | ⟨e, last, node, hnames, hnode, hfolder, herase⟩
  · rw [hsame]
    exact ⟨fun _ _ => rfl, fun hd => hd⟩
  · obtain ⟨stem, rfl⟩ := Lock.name_of_pathFor hnames
    rw [herase]
    refine ⟨fun name hname => Tree.node?_erase_ne t fun heq => ?_, fun hd => ?_⟩
    · obtain ⟨rfl, -⟩ := List.cons.inj heq
      exact hname.ne_lock stem rfl
    · have hne : d ≠ (stem ++ ".lock") :: e := by
        rintro rfl
        rw [Tree.isFolderAt, hnode] at hd
        exact absurd hd (by simpa using hfolder)
      rwa [Tree.isFolderAt, Tree.node?_erase_ne t hne]

/-! ## Sessions with a script -/

/-- Changes one name in a directory as long as a regular file or nothing has it: with bytes it
    becomes a file with these, and without it is removed. -/
def edit (d : Loc) (t : Tree) (change : String × Option ByteArray) : Tree :=
  match t.node? d, t.node? (change.1 :: d), change.2 with
  | some .folder, none, some bytes => t.put (change.1 :: d) (.file ⟨bytes, false⟩)
  | some .folder, some (.file _), some bytes => t.put (change.1 :: d) (.file ⟨bytes, false⟩)
  | some .folder, some (.file _), none => t.erase (change.1 :: d)
  | _, _, _ => t

/-- A process that is alone. -/
def loneHost : Host := ⟨[], 7, fun _ => false⟩

/-- A session whose executor makes the changes that `script` lists for an invocation. -/
def scriptedSession (workDir : String) (budget : UInt32)
    (script : Nat → List (String × Option ByteArray)) : Setup Unit where
  host := loneHost
  session := ⟨"id", "Main", "classes", workDir, budget⟩
  executor := ⟨"explore", fun n t =>
    { tree := match t.lookup loneHost.cwd true workDir with
        | .ok d => (script n).foldl (edit d) t
        | .error _ => t
      exit := .ok (some 0)
      output := Console.empty
      cancels := false }⟩
  observer := Observer.silent
  clock := ⟨fun _ => ⟨1, 0, 0, 0, 0⟩, fun _ => Duration.ofSeconds 0⟩

section Script

variable {d : Loc} {t t' t'' : Tree} {name : String}

theorem ChangesFilesIn.refl (d : Loc) (t : Tree) : ChangesFilesIn d t t :=
  fun _ hne => absurd rfl hne

theorem ChangesFilesIn.node?_dir (h : ChangesFilesIn d t t') : t'.node? d = t.node? d := by
  refine Classical.byContradiction fun hne => ?_
  obtain ⟨name, hloc, -⟩ := h d hne
  exact absurd (congrArg List.length hloc) (by simp)

theorem ChangesFilesIn.trans (h : ChangesFilesIn d t t') (h' : ChangesFilesIn d t' t'') :
    ChangesFilesIn d t t'' := by
  intro loc hne
  obtain ⟨-, -, hold, hnew⟩ := h.rewrites.trans h'.rewrites loc hne
  by_cases hlast : t''.node? loc = t'.node? loc
  · obtain ⟨name, hloc, hname, hd, -⟩ := h loc (hlast ▸ hne)
    exact ⟨name, hloc, hname, hd, hold, hnew⟩
  · obtain ⟨name, hloc, hname, hd, -⟩ := h' loc hlast
    exact ⟨name, hloc, hname, h.node?_dir ▸ hd, hold, hnew⟩

theorem node?_edit_ne (change : String × Option ByteArray) {loc : Loc} (h : loc ≠ change.1 :: d) :
    (edit d t change).node? loc = t.node? loc := by
  rw [edit]
  split
  · exact Tree.node?_put_ne t h _
  · exact Tree.node?_put_ne t h _
  · exact Tree.node?_erase_ne t h
  · rfl

theorem changesFilesIn_edit (d : Loc) (t : Tree) {change : String × Option ByteArray}
    (h : ¬ IsArchive change.1) : ChangesFilesIn d t (edit d t change) := by
  intro loc hne
  have hloc : loc = change.1 :: d := Classical.byContradiction fun hloc =>
    hne (node?_edit_ne change hloc)
  subst hloc
  refine ⟨change.1, rfl, h, ?_⟩
  rw [edit] at hne ⊢
  split at hne
  · rename_i hd hnode _
    exact ⟨hd, Tree.isSlot_of_none hnode, Tree.isSlot_of_file (Tree.node?_put_self t (by simp) _)⟩
  · rename_i b _ hd hnode _
    exact ⟨hd, Tree.isSlot_of_file hnode, Tree.isSlot_of_file (Tree.node?_put_self t (by simp) _)⟩
  · rename_i b hd hnode _
    exact ⟨hd, Tree.isSlot_of_file hnode, Tree.isSlot_of_none (Tree.node?_erase_self t (by simp))⟩
  · exact absurd rfl hne

theorem changesFilesIn_edits (d : Loc) (changes : List (String × Option ByteArray))
    (h : ∀ change ∈ changes, ¬ IsArchive change.1) (t : Tree) :
    ChangesFilesIn d t (changes.foldl (edit d) t) := by
  induction changes generalizing t with
  | nil => exact .refl d t
  | cons change changes ih =>
    have hfirst := changesFilesIn_edit d t (h change (by simp))
    exact hfirst.trans (ih (fun c hc => h c (List.mem_cons_of_mem _ hc)) _)

theorem node?_edit (hd : t.node? d = some .folder) (hfree : t.IsSlot (name :: d))
    (bytes : ByteArray) :
    (edit d t (name, some bytes)).node? (name :: d) = some (.file ⟨bytes, false⟩) := by
  have hput : edit d t (name, some bytes) = t.put (name :: d) (.file ⟨bytes, false⟩) := by
    rw [edit]
    rcases hfree.cases with hnode | ⟨b, hnode⟩ <;> rw [hd, hnode]
  rw [hput]
  exact Tree.node?_put_self t (by simp) _

end Script

variable {workDir : String} {budget : UInt32} {script : Nat → List (String × Option ByteArray)}

theorem tree_invoke_scriptedSession (budget : UInt32)
    (script : Nat → List (String × Option ByteArray))
    (n : Nat) {d : Loc} {t : Tree} (h : t.lookup loneHost.cwd true workDir = .ok d) :
    ((scriptedSession workDir budget script).executor.invoke n t).tree =
      (script n).foldl (edit d) t := by
  simp only [scriptedSession, h]

theorem keepsToFiles_scriptedSession (h : ∀ n, ∀ change ∈ script n, ¬ IsArchive change.1)
    (trace : List Moment) : KeepsToFiles (scriptedSession workDir budget script) trace := by
  intro call before _ d hfind
  have htree : ((scriptedSession workDir budget script).executor.invoke call before).tree = _ :=
    tree_invoke_scriptedSession budget script call hfind
  rw [htree]
  exact changesFilesIn_edits d (script call) (h call) before

/-- An observer that does nothing relies on nothing. -/
theorem discreet_scriptedSession :
    Discreet (scriptedSession workDir budget script) fun _ _ => True :=
  ⟨fun _ _ _ _ => trivial, fun _ _ t _ => .refl t, fun _ _ _ _ _ _ _ _ => rfl,
    fun _ _ _ _ _ _ _ => trivial⟩

theorem not_isArchive {name : String}
    (h : name ∈ [Artifact.inputs, Artifact.marker, Artifact.history]) : ¬ IsArchive name := by
  rintro (hnumbered | rfl | rfl)
  · have hother : name ∈ [Artifact.inputs, Artifact.marker, Artifact.history,
      Artifact.backtrackFlag, Artifact.inputsOld, Artifact.historyOld] := by
      simp only [List.mem_cons, List.not_mem_nil, or_false] at h ⊢
      tauto
    exact hnumbered.ne hother rfl
  · exact absurd h (by decide)
  · exact absurd h (by decide)

/-- Inputs that are real after the first invocation, synthetic after the second, and gone after the
    third. -/
def mixedScript : Nat → List (String × Option ByteArray)
  | 1 => [(Artifact.inputs, some "a".toUTF8), (Artifact.history, some "h".toUTF8)]
  | 2 => [(Artifact.inputs, some "b".toUTF8), (Artifact.marker, some "false".toUTF8)]
  | 3 => [(Artifact.inputs, none), (Artifact.marker, none)]
  | _ => []

theorem not_isArchive_mixedScript : ∀ n, ∀ change ∈ mixedScript n, ¬ IsArchive change.1 := by
  intro n change hmem
  refine not_isArchive ?_
  unfold mixedScript at hmem
  split at hmem
  iterate 3
    · rcases List.mem_pair.mp hmem with rfl | rfl <;> simp
  · cases hmem

end Concolic.Run
