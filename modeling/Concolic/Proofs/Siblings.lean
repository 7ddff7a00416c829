import Concolic.Proofs.Survival

/-
  Lock paths as components.

  Two path texts name the same way if they have the same components; empty segments and dots name
  nothing.
-/

namespace Concolic

namespace Path

/-- A component of a path. -/
inductive Component where
  | root
  | here
  | up
  | name (text : String)
  deriving DecidableEq

/-- What a path text begins with, apart from names. -/
def origin (absolute : Bool) (steps : List String) : List Component :=
  if absolute then [.root] else if steps.head? = some "." then [.here] else []

/-- The components of some steps. -/
def named (steps : List String) : List Component :=
  (steps.filter (· ≠ ".")).map fun step => if step = ".." then .up else .name step

/-- All components of a path. -/
def components (p : String) : List Component :=
  origin (isAbsolute p) (route p).steps ++ named (route p).steps

theorem named_append (steps more : List String) :
    named (steps ++ more) = named steps ++ named more := by
  simp [named]

theorem named_dots {steps : List String} (h : ∀ step ∈ steps, step = ".") : named steps = [] := by
  simpa [named] using h

theorem named_name {name : String} (hdot : name ≠ ".") (hup : name ≠ "..") (rest : List String) :
    named (name :: rest) = .name name :: named rest := by
  simp [named, hdot, hup]

theorem components_join (base : String) {name : String} (h : IsPlain name) (hdot : name ≠ ".")
    (hup : name ≠ "..") : components (join base name) = components base ++ [.name name] := by
  have horigin : origin (isAbsolute base) ((route base).steps ++ [name]) =
      origin (isAbsolute base) (route base).steps := by
    cases hsteps : (route base).steps with
    | nil => simp [origin, hdot]
    | cons step steps => rfl
  rw [components, isAbsolute_join base h, route_join base h, horigin, named_append,
    named_name hdot hup, ← List.append_assoc]
  rfl

/-- A text without an anchor does not begin with a dot that is a segment. -/
theorem head_segments {cs : List Char} (h : (anchor cs).1 = []) :
    (segments cs).head? ≠ some ['.'] := by
  intro hdot
  by_cases hslash : '/' ∈ cs
  · obtain ⟨a, b, rfl, ha⟩ := List.eq_append_cons_of_mem hslash
    cases a with
    | nil => cases h
    | cons c a =>
      rw [segments_append_slash, segments_of_not_mem ha (by simp)] at hdot
      cases hdot
      cases h
  · by_cases hnil : cs = []
    · simp [hnil, segments_nil] at hdot
    · rw [segments_of_not_mem hslash hnil] at hdot
      cases hdot
      cases h

theorem origin_parent {p q stem : String} (hname : fileName? p = some stem)
    (hparent : parent? p = some q) :
    origin (isAbsolute p) (route p).steps = origin (isAbsolute q) (route q).steps := by
  rcases trimmed_cases (Text.splitOn '/' (anchor p.toList).2) with
    ⟨hnil, -⟩ | ⟨init, seg, before, after, htrim, -, hbody, -⟩
  · simp [fileName?, parts, hnil] at hname
  · rw [parent?_of_trimmed_concat htrim] at hparent
    cases hparent
    have hpre : trimmed init <+: Text.splitOn '/' (anchor p.toList).2 := ⟨_, hbody.symm⟩
    rw [isAbsolute_rebuilt hpre, route_steps, route_steps, String.toList_ofList,
      segments_rebuilt hpre]
    obtain ⟨happend, hhead | ⟨hhead, -⟩ | ⟨hhead, -⟩⟩ := anchor_cases p.toList
    · have habs : isAbsolute p = true := by rw [isAbsolute, ← happend, hhead]; rfl
      rw [habs]
      rfl
    · rw [segments_anchor, hhead]
      rfl
    · -- a text without an anchor begins with its first name
      have hfirst := head_segments hhead
      have hsegs : segments p.toList = (trimmed init).filter (· ≠ []) ++
          (before ++ seg :: after).filter (· ≠ []) := by
        rw [segments_anchor, hhead, ← List.filter_append, ← hbody]
        rfl
      rw [hsegs] at hfirst ⊢
      rw [hhead]
      cases hinit : (trimmed init).filter (· ≠ []) with
      | nil =>
        rw [hinit, List.nil_append] at hfirst
        have hdot : (((before ++ seg :: after).filter (· ≠ [])).map String.ofList).head?
            ≠ some "." := by
          rw [List.head?_map]
          intro hsome
          obtain ⟨first, hmem, htext⟩ := Option.map_eq_some_iff.mp hsome
          rw [← String.toList_inj, String.toList_ofList] at htext
          rw [htext] at hmem
          exact hfirst hmem
        rw [List.nil_append, origin, origin, if_neg hdot]
        rfl
      | cons x xs => rfl

theorem components_of_fileName {p stem : String} (h : fileName? p = some stem) :
    ∃ q, parent? p = some q ∧ components p = components q ++ [.name stem] ∧
      stem ≠ "." ∧ stem ≠ ".." := by
  obtain ⟨q, before, after, hparent, -, hsteps, hbefore, hafter, hdot, hup⟩ := route_fileName h
  refine ⟨q, hparent, ?_, hdot, hup⟩
  rw [components, origin_parent h hparent, hsteps, named_append, named_append, named_dots hbefore,
    named_name hdot hup, named_dots hafter, ← List.append_assoc]
  rfl

/-- **The last component** is the one that is found, if it is a name. -/
theorem fileName?_of_components {p stem : String} {dir : List Component}
    (h : components p = dir ++ [.name stem]) : fileName? p = some stem := by
  cases hname : fileName? p with
  | some stem' =>
    obtain ⟨q, -, hcomponents, -⟩ := components_of_fileName hname
    rw [h] at hcomponents
    simpa using (List.append_inj' hcomponents rfl).2.symm
  | none =>
    have hlast := congrArg List.getLast? h
    rw [List.getLast?_concat, components] at hlast
    rcases steps_of_no_fileName hname with hdots | ⟨init, after, hsteps, hafter⟩
    · rw [named_dots hdots, List.append_nil, origin] at hlast
      split at hlast
      · cases hlast
      · split at hlast <;> cases hlast
    · have hup : named (init ++ ".." :: after) = named init ++ [.up] := by
        rw [named_append, ← List.singleton_append, named_append, named_dots hafter]
        rfl
      rw [hsteps, hup, ← List.append_assoc, List.getLast?_concat] at hlast
      cases hlast

end Path

namespace Lock

open Concolic.Path

theorem components_pathFor {p f : String} {dir : List Component}
    (h : components p = dir ++ [.name f]) :
    components (pathFor p) = dir ++ [.name (f ++ ".lock")] := by
  have hname := fileName?_of_components h
  obtain ⟨q, hparent, hcomponents, -⟩ := components_of_fileName hname
  have hlength : ∀ name : String, name.toList.length < 5 → f ++ ".lock" ≠ name := by
    intro name hlt heq
    rw [← heq, String.toList_append, List.length_append] at hlt
    exact absurd hlt (Nat.not_lt.mpr (Nat.le_add_left 5 _))
  have hplain : IsPlain (f ++ ".lock") := by
    refine ⟨hlength "" (by decide), ?_⟩
    rw [String.toList_append, List.mem_append]
    rintro (hslash | hslash)
    · exact no_slash_of_fileName? hname hslash
    · exact absurd hslash (by decide)
  rw [pathFor_of_fileName hname hparent,
    components_join q hplain (hlength "." (by decide)) (hlength ".." (by decide))]
  rw [h] at hcomponents
  rw [(List.append_inj' hcomponents rfl).1]

/-- **Lock paths are siblings and do not collide.**  The lock path of a path that has a last
    component has `.lock` after that component and the same components before it; so it is neither
    the path nor inside of it, and different paths have different lock paths. -/
theorem lock_path_beside {p f : String} {dir : List Component}
    (hp : components p = dir ++ [.name f]) :
    fileName? p = some f ∧ fileName? (pathFor p) = some (f ++ ".lock") ∧
      components (pathFor p) = dir ++ [.name (f ++ ".lock")] ∧
      ¬ components p <+: components (pathFor p) ∧
      ∀ (q g : String) (dir' : List Component), components q = dir' ++ [.name g] →
        (components (pathFor p) = components (pathFor q) ↔ components p = components q) := by
  have hlock := components_pathFor hp
  refine ⟨fileName?_of_components hp, fileName?_of_components hlock, hlock, ?_, ?_⟩
  · rw [hp, hlock, List.prefix_append_right_inj]
    intro hprefix
    have hsame : f = f ++ ".lock" := by simpa using hprefix
    have hlength := congrArg (fun name : String => name.toList.length) hsame
    simp at hlength
  · intro q g dir' hq
    rw [hlock, components_pathFor hq, hp, hq]
    simp

theorem windingPath_lock_beside :
    components ".//a/./b c//." = [.here, .name "a", .name "b c"] ∧
      components (pathFor ".//a/./b c//.") = [.here, .name "a", .name "b c.lock"] := by
  have hpath : components ".//a/./b c//." = [.here, .name "a"] ++ [.name "b c"] := by decide +kernel
  exact ⟨hpath, (lock_path_beside hpath).2.2.1⟩

end Lock

end Concolic
