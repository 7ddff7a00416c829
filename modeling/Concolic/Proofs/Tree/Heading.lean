import Concolic.Proofs.Tree.Descent

/-
  Paths that end by going down.

  A path may go through links and up again before it comes to a directory from which it only goes
  down (`Heads`).  What it does from there is a scan of the rest.
-/

namespace Concolic.Tree

variable {t t' u v : Tree} {K : Loc → Prop} {cwd d e : Loc} {p name : String}
  {ss rest : List String}

/-- The path leads to the directory `e`, and from there `rest` goes down. -/
structure Heads (t : Tree) (cwd : Loc) (p : String) (e : Loc) (rest : List String) : Prop where
  no_up : ".." ∉ rest
  way : ∃ init, (Path.route p).steps = init ++ rest ∧ ∃ n ≤ maxLinks, Leads t (start cwd p) init e n

/-- What it does up to there is the same in every tree that keeps the directories and links. -/
theorem Heads.mono (h : Heads t cwd p e rest) (hkeeps : Keeps t t') : Heads t' cwd p e rest := by
  obtain ⟨init, hsteps, n, hn, hlead⟩ := h.way
  exact ⟨h.no_up, init, hsteps, n, hn, hlead.mono hkeeps⟩

theorem heads_start (t : Tree) (cwd : Loc) (hup : ".." ∉ (Path.route p).steps) :
    Heads t cwd p (start cwd p) (Path.route p).steps :=
  ⟨hup, [], rfl, 0, Nat.zero_le _, .nil _⟩

section Heads

variable (h : Heads t cwd p e rest)
include h

theorem Heads.join (hplain : Path.IsPlain name) (hname : name ≠ "..") :
    Heads t cwd (Path.join p name) e (rest ++ [name]) := by
  obtain ⟨init, hsteps, n, hn, hlead⟩ := h.way
  have hstart : start cwd (Path.join p name) = start cwd p := by
    rw [start, start, Path.isAbsolute_join p hplain]
  refine ⟨fun hmem => ?_, init, ?_, n, hn, hstart ▸ hlead⟩
  · rcases List.mem_append.mp hmem with hrest | hlast
    · exact h.no_up hrest
    · exact hname (List.mem_singleton.mp hlast).symm
  · rw [Path.route_join p hplain, hsteps, List.append_assoc]

/-- **From `e` on** a walk is a scan of the rest. -/
theorem Heads.walk (hrest : rest ≠ []) {creating slash : Bool}
    (hc : (creating && slash) = false) (follow : Bool) :
    ∃ jump, t.walk creating maxLinks follow (start cwd p) (Path.route p).steps slash =
      t.scan follow jump slash e rest := by
  obtain ⟨init, hsteps, n, hn, hlead⟩ := h.way
  refine ⟨t.walkOn creating (maxLinks - n) follow, ?_⟩
  rw [hsteps, walk_append hc hlead follow hrest maxLinks hn, walk_eq_scan]

theorem Heads.resolve (hrest : rest ≠ []) (htext : checkText p = .ok ()) (follow : Bool) :
    ∃ jump, t.resolve cwd follow p = t.scan follow jump (Path.route p).slash e rest := by
  rw [resolve_of_text htext]
  exact h.walk hrest rfl follow

theorem Heads.resolveNew (hrest : rest ≠ []) (htext : checkText p = .ok ())
    (hslash : (Path.route p).slash = false) :
    ∃ jump, t.resolveNew cwd p = t.scan true jump false e rest := by
  rw [resolveNew_of_text htext, hslash]
  exact h.walk hrest rfl true

/-- **The path arrives** where the rest goes down to, if anywhere. -/
theorem Heads.arrives (hrest : rest ≠ [])
    (hfree : FreeBetween t e (descend e rest)) {follow : Bool} {a : Arrival}
    (hres : t.resolve cwd follow p = .ok a) : a.spot.loc = descend e rest := by
  obtain ⟨jump, hscan⟩ := h.resolve hrest (text_of_resolve hres) follow
  rw [hscan] at hres
  exact (hfree.descend_of_scan h.no_up hres).1

theorem Heads.arrivesNew (hrest : rest ≠ [])
    (hfree : FreeBetween t e (descend e rest)) (hslash : (Path.route p).slash = false) {a : Arrival}
    (hres : t.resolveNew cwd p = .ok a) : a.spot.loc = descend e rest := by
  obtain ⟨jump, hscan⟩ := h.resolveNew hrest (text_of_resolveNew hres) hslash
  rw [hscan] at hres
  exact (hfree.descend_of_scan h.no_up hres).1

end Heads

theorem Leads.eq_descend {n : Nat} (h : Leads t d ss e n) (hup : ".." ∉ ss)
    (hfree : FreeBetween t d (descend d ss)) : e = descend d ss := by
  induction h with
  | nil => rfl
  | stay _ _ ih => exact ih (List.not_mem_of_not_mem_cons hup) hfree
  | up => exact absurd List.mem_cons_self hup
  | @into d e name ss n _ hname _ _ ih =>
    rw [descend_name hname] at hfree ⊢
    exact ih (List.not_mem_of_not_mem_cons hup) (hfree.step name)
  | @through d e name target ss n _ hname hlink _ _ =>
    rw [descend_name hname] at hfree
    exact absurd hlink (hfree _ _ (List.suffix_cons name d) (suffix_descend _ _))

theorem spotIn_of_between {spot : Spot} (hspot : spot.loc = d) (hbelow : e <:+ d) (hne : e ≠ d)
    (hK : ∀ loc, e <:+ loc → loc <:+ d → K loc) : SpotIn K spot := by
  subst hspot
  cases spot with
  | here dir => exact hK dir hbelow (List.suffix_refl _)
  | entry dir name =>
    have hup : e <:+ dir := (List.suffix_cons_iff.mp hbelow).resolve_left hne
    exact ⟨hK _ hbelow (List.suffix_refl _), hK dir hup (List.suffix_cons name dir)⟩

/-- **A path that heads down where the trees agree** shows the same in both. -/
theorem Heads.meets (hu : Heads u cwd p e rest) (hv : Heads v cwd p e rest) (h : Agree K u v)
    (hne : e ≠ descend e rest) (hfree : FreeBetween u e (descend e rest))
    (hK : ∀ loc, e <:+ loc → loc <:+ descend e rest → K loc) : Meets K u v cwd p := by
  have hrest : rest ≠ [] := by
    rintro rfl
    exact hne rfl
  have hscan : ∀ follow slash jump jump', u.scan follow jump slash e rest =
      v.scan follow jump' slash e rest := fun follow slash jump jump' =>
    scan_agree follow slash jump jump' hu.no_up hfree fun loc hin hloc =>
      h.nodes loc (hK loc hin hloc)
  refine ⟨fun follow => ?_, fun follow a hres => ?_, fun hslash => ?_, fun a hslash hres => ?_⟩
  · cases htext : checkText p with
    | error f => rw [resolve_of_bad_text htext, resolve_of_bad_text htext]
    | ok =>
      obtain ⟨jump, hwalk⟩ := hu.resolve hrest htext follow
      obtain ⟨jump', hwalk'⟩ := hv.resolve hrest htext follow
      rw [hwalk, hwalk', hscan]
  · exact spotIn_of_between (hu.arrives hrest hfree hres) (suffix_descend e rest) hne hK
  · cases htext : checkText p with
    | error f => rw [resolveNew_of_bad_text htext, resolveNew_of_bad_text htext]
    | ok =>
      obtain ⟨jump, hwalk⟩ := hu.resolveNew hrest htext hslash
      obtain ⟨jump', hwalk'⟩ := hv.resolveNew hrest htext hslash
      rw [hwalk, hwalk', hscan]
  · exact spotIn_of_between (hu.arrivesNew hrest hfree hslash hres) (suffix_descend e rest) hne hK

end Concolic.Tree
