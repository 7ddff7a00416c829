import Concolic.Proofs.Tree.Frame

/-
  Operations that may be interrupted.

  A `Course` says of an operation in which trees it may be found, and which tree it leaves if
  nothing fails.  Courses are put together as the operations are.
-/

namespace Concolic.Tree

/-! ## Courses -/

/-- How an operation goes. -/
structure Course where
  /-- The operation that starts from the first tree may be found in the second, before, during or
      after it. -/
  visits : Tree → Tree → Prop
  /-- The operation that starts from the first tree leaves the second, and nothing has failed. -/
  ends : Tree → Tree → Prop
  starts : ∀ t, visits t t
  arrives : ∀ t u, ends t u → visits t u

namespace Course

/-- An operation that is done at once or not at all. -/
def step (f : Tree → Except Fault Tree) : Course where
  visits t u := u = t ∨ f t = .ok u
  ends t u := f t = .ok u
  starts _ := .inl rfl
  arrives _ _ h := .inr h

/-- One operation, and another after it unless it fails. -/
def andThen (a b : Course) : Course where
  visits t u := a.visits t u ∨ ∃ m, a.ends t m ∧ b.visits m u
  ends t u := ∃ m, a.ends t m ∧ b.ends m u
  starts t := .inl (a.starts t)
  arrives _ u h := by
    obtain ⟨m, hm, hu⟩ := h
    exact .inr ⟨m, hm, b.arrives m u hu⟩

end Course

/-- The trees after each of the directories that `makeFirst` makes. -/
def trail (t : Tree) (cwd : Loc) : List String → List Tree
  | [] => []
  | p :: up =>
    if p = "" then []
    else match t.makeFolder cwd p with
      | .ok t' => [t']
      | .error f =>
        if f.kind = .notFound then
          t.trail cwd up ++
            match t.makeFirst cwd up with
            | (_, .error _) => []
            | (t', .ok ()) =>
              match t'.makeFolder cwd p with
              | .ok t'' => [t'']
              | .error _ => []
        else []

variable {t t' u : Tree} {cwd d : Loc} {p name : String}

/-- On the way only directories are added. -/
theorem adds_trail (t : Tree) (cwd : Loc) (ps : List String) :
    ∀ u ∈ t.trail cwd ps, Adds t u ∧ Adds u (t.makeFirst cwd ps).1 := by
  induction ps with
  | nil =>
    intro u hu
    cases hu
  | cons p up ih =>
    intro u hu
    rw [trail] at hu
    rw [makeFirst]
    split at hu
    · cases hu
    · rename_i hp
      rw [if_neg hp]
      cases hmade : t.makeFolder cwd p with
      | ok t' =>
        rw [hmade] at hu
        rw [List.mem_singleton.mp hu]
        exact ⟨adds_makeFolder hmade, .refl t'⟩
      | error f =>
        simp only [hmade] at hu ⊢
        by_cases hkind : f.kind = .notFound
        · rw [if_pos hkind] at hu ⊢
          cases hup : t.makeFirst cwd up with
          | mk t₁ r =>
            rw [hup] at hu ih
            have hadds := adds_makeFirst t cwd up
            rw [hup] at hadds
            cases r with
            | error f' =>
              rw [List.append_nil] at hu
              exact ih u hu
            | ok =>
              cases hmade' : t₁.makeFolder cwd p with
              | ok t₂ =>
                simp only [hmade'] at hu ⊢
                rcases List.mem_append.mp hu with hu | hu
                · exact ⟨(ih u hu).1, (ih u hu).2.trans (adds_makeFolder hmade')⟩
                · rw [List.mem_singleton.mp hu]
                  exact ⟨hadds.trans (adds_makeFolder hmade'), .refl t₂⟩
              | error f' =>
                simp only [hmade', List.append_nil] at hu ⊢
                exact ih u hu
        · rw [if_neg hkind] at hu
          cases hu

theorem makeFirst_mem_trail (t : Tree) (cwd : Loc) (ps : List String) :
    (t.makeFirst cwd ps).1 ∈ t :: t.trail cwd ps := by
  induction ps with
  | nil => exact List.mem_cons_self
  | cons p up ih =>
    rw [makeFirst, trail]
    split
    · exact List.mem_cons_self
    · cases hmade : t.makeFolder cwd p with
      | ok t' => simp
      | error f =>
        simp only
        by_cases hkind : f.kind = .notFound
        · rw [if_pos hkind, if_pos hkind]
          cases hup : t.makeFirst cwd up with
          | mk t₁ r =>
            rw [hup] at ih
            cases r with
            | error f' => simpa using ih
            | ok =>
              cases hmade' : t₁.makeFolder cwd p with
              | ok t₂ => simp [hmade']
              | error f' => simpa [hmade'] using ih
        · rw [if_neg hkind, if_neg hkind]
          exact List.mem_cons_self

/-- The bytes that have been written when writing `bytes` stops. -/
def IsPart (part bytes : ByteArray) : Prop := ∃ rest, bytes = part ++ rest

theorem isPart_self (bytes : ByteArray) : IsPart bytes bytes := ⟨ByteArray.empty, by simp⟩

namespace Course

/-- Making a directory and those above it. -/
def makeFolders (cwd : Loc) (p : String) : Course where
  visits t u := u ∈ t :: t.trail cwd (ancestors (p.length + 1) p)
  ends t u := t.makeFolders cwd p = (u, .ok ())
  starts _ := List.mem_cons_self
  arrives t u h := by
    have hmem := makeFirst_mem_trail t cwd (ancestors (p.length + 1) p)
    rwa [← Tree.makeFolders, h] at hmem

/-- Creating or emptying a file and writing bytes to it. -/
def write (cwd : Loc) (p : String) (bytes : ByteArray) : Course where
  visits t u := u = t ∨ (∃ loc, t.create cwd p = .ok (loc, u)) ∨
    ∃ part, IsPart part bytes ∧ t.write cwd p part = .ok u
  ends t u := t.write cwd p bytes = .ok u
  starts _ := .inl rfl
  arrives _ _ h := .inr (.inr ⟨bytes, isPart_self bytes, h⟩)

/-- Opening or creating a file and adding bytes at its end. -/
def append (cwd : Loc) (p : String) (bytes : ByteArray) : Course where
  visits t u := u = t ∨ ∃ part, IsPart part bytes ∧ t.append cwd p part = .ok u
  ends t u := t.append cwd p bytes = .ok u
  starts _ := .inl rfl
  arrives _ _ h := .inr ⟨bytes, isPart_self bytes, h⟩

/-- Waiting until a file is stored. -/
def sync (cwd : Loc) (p : String) : Course := step fun t => (t.sync cwd p).map fun _ => t

end Course

/-- On the way only directories are added. -/
theorem Course.adds_of_makeFolders (h : (Course.makeFolders cwd p).visits t u) :
    Adds t u ∧ Adds u (t.makeFolders cwd p).1 := by
  rcases List.mem_cons.mp h with rfl | hmem
  · exact ⟨.refl u, adds_makeFolders u cwd p⟩
  · exact adds_trail t cwd _ u hmem

theorem Course.visits_makeFolders (t : Tree) (cwd : Loc) (p : String) :
    (Course.makeFolders cwd p).visits t (t.makeFolders cwd p).1 :=
  makeFirst_mem_trail t cwd _

theorem Course.of_sync (h : (Course.sync cwd p).ends t u) : u = t ∧ t.sync cwd p = .ok () := by
  cases hs : t.sync cwd p with
  | error f => simp [Course.sync, Course.step, hs, Except.map] at h
  | ok => exact ⟨by simpa [Course.sync, Course.step, hs, Except.map, eq_comm] using h, rfl⟩

/-! ## What a file reads as -/

/-- The bytes of the file at `p`, if there is one that can be read. -/
def contents? (t : Tree) (cwd : Loc) (p : String) : Option ByteArray :=
  (t.readBlob cwd p).toOption.map Blob.bytes

theorem toOption_readText (t : Tree) (cwd : Loc) (p : String) :
    (t.readText cwd p).toOption = (t.contents? cwd p).bind String.fromUTF8? := by
  rw [readText, contents?]
  cases t.readBlob cwd p with
  | error f => rfl
  | ok b =>
    simp only [bind, Except.bind]
    show _ = String.fromUTF8? b.bytes
    cases String.fromUTF8? b.bytes <;> rfl

/-- A walk to a name has found its directory. -/
theorem names_of_walk {creating follow : Bool} {a : Arrival} {init : List String}
    (htext : checkText p = .ok ()) (hname : IsName name)
    (hsteps : (Path.route p).steps = init ++ [name])
    (h : t.walk creating maxLinks follow (start cwd p) (Path.route p).steps false = .ok a) :
    ∃ d, Names t cwd p d name := by
  rw [hsteps] at h
  obtain ⟨d, n, hn, hlead⟩ := leads_of_walk_append (by simp) _ _ _ _ _ h
  rw [walk_append (by simp) hlead _ (by simp) maxLinks hn, walk_eq_scan] at h
  exact ⟨d, htext, (step_of_scan h).1, hname, init, hsteps, n, hn, hlead⟩

end Concolic.Tree
