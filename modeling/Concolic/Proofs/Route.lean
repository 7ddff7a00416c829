import Concolic.Path

/-
  The steps of path texts.
-/

namespace Concolic

variable {cs seg : List Char} {ps segs init : List (List Char)} {name p : String}

namespace Text

theorem splitOn_of_not_mem {sep : Char} (h : sep ∉ cs) : splitOn sep cs = [cs] := by
  induction cs with
  | nil => rfl
  | cons c cs ih =>
    obtain ⟨hc, hcs⟩ := not_or.mp (mt List.mem_cons.mpr h)
    rw [splitOn_cons, ih hcs, splitStep, if_neg (fun he => hc he.symm)]

theorem splitOn_append_cons (sep : Char) (a b : List Char) :
    splitOn sep (a ++ sep :: b) = splitOn sep a ++ splitOn sep b := by
  induction a with
  | nil =>
    rw [List.nil_append, splitOn_cons, splitOn_nil]
    cases hb : splitOn sep b with
    | nil => exact absurd hb (splitOn_ne_nil sep b)
    | cons p ps => simp [splitStep]
  | cons c a ih =>
    rw [List.cons_append, splitOn_cons, ih, splitOn_cons]
    cases ha : splitOn sep a with
    | nil => exact absurd ha (splitOn_ne_nil sep a)
    | cons p ps =>
      simp only [List.cons_append, splitStep]
      split <;> rfl

theorem splitOn_joinWith {sep : Char} (hne : ps ≠ [])
    (h : ∀ p ∈ ps, sep ∉ p) : splitOn sep (joinWith sep ps) = ps := by
  induction ps with
  | nil => exact absurd rfl hne
  | cons p ps ih =>
    have hp : sep ∉ p := h p (by simp)
    cases ps with
    | nil => exact splitOn_of_not_mem hp
    | cons q ps =>
      rw [joinWith, splitOn_append_cons, splitOn_of_not_mem hp,
        ih (by simp) fun r hr => h r (List.mem_cons_of_mem p hr)]
      · rfl
      · simp

theorem utf8ByteSize_cons (c : Char) (cs : List Char) :
    (String.ofList (c :: cs)).utf8ByteSize = c.utf8Size + (String.ofList cs).utf8ByteSize := by
  have hcons : String.ofList (c :: cs) = String.singleton c ++ String.ofList cs := by
    apply String.toList_inj.mp
    simp
  rw [hcons, String.utf8ByteSize_append, String.utf8ByteSize_singleton]

theorem joinWith_prefix (sep : Char) {qs : List (List Char)} (h : ps <+: qs) :
    joinWith sep ps <+: joinWith sep qs := by
  induction ps generalizing qs with
  | nil => exact List.nil_prefix
  | cons p ps ih =>
    obtain ⟨rest, rfl⟩ := h
    cases ps with
    | nil =>
      cases rest with
      | nil => exact List.prefix_rfl
      | cons r rest => exact ⟨sep :: joinWith sep (r :: rest), rfl⟩
    | cons q ps =>
      have htail : joinWith sep (q :: ps) <+: joinWith sep (q :: ps ++ rest) := ih ⟨rest, rfl⟩
      obtain ⟨more, hmore⟩ := htail
      refine ⟨more, ?_⟩
      show p ++ sep :: joinWith sep (q :: ps) ++ more = p ++ sep :: joinWith sep (q :: ps ++ rest)
      rw [← hmore]
      simp

end Text

namespace Path

/-! ## Segments -/

/-- The segments of a path text that are not empty. -/
def segments (cs : List Char) : List (List Char) := (Text.splitOn '/' cs).filter (· ≠ [])

theorem route_steps (p : String) : (route p).steps = (segments p.toList).map String.ofList := rfl

theorem segments_nil : segments [] = [] := rfl

theorem segments_append_slash (a b : List Char) :
    segments (a ++ '/' :: b) = segments a ++ segments b := by
  rw [segments, Text.splitOn_append_cons, List.filter_append]
  rfl

theorem segments_of_not_mem (h : '/' ∉ cs) (hne : cs ≠ []) : segments cs = [cs] := by
  simp [segments, Text.splitOn_of_not_mem h, hne]

theorem segments_joinWith (h : ∀ p ∈ ps, '/' ∉ p) :
    segments (Text.joinWith '/' ps) = ps.filter (· ≠ []) := by
  by_cases hne : ps = []
  · subst hne
    rfl
  · rw [segments, Text.splitOn_joinWith hne h]

/-! ## Joining a name -/

/-- A name as a path: one segment. -/
structure IsPlain (name : String) : Prop where
  ne_empty : name ≠ ""
  no_slash : '/' ∉ name.toList

theorem IsPlain.segments (h : IsPlain name) : Path.segments name.toList = [name.toList] :=
  segments_of_not_mem h.no_slash fun hnil => h.ne_empty (String.toList_eq_nil_iff.mp hnil)

theorem IsPlain.not_absolute (h : IsPlain name) : isAbsolute name = false := by
  rw [isAbsolute, decide_eq_false_iff_not]
  intro hhead
  exact h.no_slash (List.mem_of_mem_head? hhead)

/-- The text of a path with a plain name joined to it: a gap that ends in a slash, unless the path
    is empty, and the name. -/
theorem toList_join (base : String) (h : IsPlain name) :
    ∃ gap, (join base name).toList = gap ++ name.toList ∧
      (gap = [] ∧ base = "" ∨
        ∃ init, gap = init ++ ['/'] ∧ (base.toList = init ∨ base.toList = init ++ ['/']) ∧
          base ≠ "") := by
  rw [join, h.not_absolute]
  by_cases hempty : base = ""
  · subst hempty
    exact ⟨[], by simp, .inl ⟨rfl, rfl⟩⟩
  · by_cases hlast : base.toList.getLast? = some '/'
    · obtain ⟨init, hinit⟩ := List.getLast?_eq_some_iff.mp hlast
      refine ⟨base.toList, by simp [hlast], .inr ⟨init, hinit, .inr hinit, hempty⟩⟩
    · refine ⟨base.toList ++ ['/'], ?_, .inr ⟨base.toList, rfl, .inl rfl, hempty⟩⟩
      simp [hempty, hlast]

theorem isAbsolute_join (base : String) (h : IsPlain name) :
    isAbsolute (join base name) = isAbsolute base := by
  obtain ⟨gap, hjoin, ⟨rfl, rfl⟩ | ⟨init, rfl, hbase, hne⟩⟩ := toList_join base h
  · have hname := h.not_absolute
    rw [isAbsolute] at hname ⊢
    rw [hjoin, List.nil_append, hname]
    rfl
  · have hne' : base.toList ≠ [] := fun hnil => hne (String.toList_eq_nil_iff.mp hnil)
    rw [isAbsolute, isAbsolute, hjoin]
    rcases hbase with hbase | hbase
    · rw [hbase] at hne' ⊢
      cases init with
      | nil => exact absurd rfl hne'
      | cons c init => rfl
    · rw [hbase]
      cases init <;> rfl

/-- A name that is joined to a path becomes its last step. -/
theorem route_join (base : String) (h : IsPlain name) :
    route (join base name) = ⟨isAbsolute base, (route base).steps ++ [name], false⟩ := by
  have hslash : ∀ gap : List Char, (gap ++ name.toList).getLast? ≠ some '/' := by
    intro gap hlast
    have hne : name.toList ≠ [] := fun hnil => h.ne_empty (String.toList_eq_nil_iff.mp hnil)
    rw [List.getLast?_append, Option.or_of_isSome (by simp [hne])] at hlast
    exact h.no_slash (List.mem_of_mem_getLast? hlast)
  have hsteps : (route (join base name)).steps = (route base).steps ++ [name] := by
    obtain ⟨gap, hjoin, ⟨rfl, rfl⟩ | ⟨init, rfl, hbase, -⟩⟩ := toList_join base h
    · rw [route_steps, hjoin, List.nil_append, h.segments]
      simp [route_steps, segments_nil]
    · have hsegs : segments base.toList = segments init := by
        rcases hbase with hbase | hbase
        · rw [hbase]
        · rw [hbase, segments_append_slash, segments_nil, List.append_nil]
      rw [route_steps, hjoin, List.append_assoc, List.singleton_append, segments_append_slash,
        h.segments, route_steps, hsegs]
      simp
  obtain ⟨gap, hjoin, -⟩ := toList_join base h
  rw [← isAbsolute_join base h, ← hsteps, route]
  simp only [hjoin, decide_eq_false (hslash gap)]

/-! ## Parents -/

/-- The anchor of a path text and the body after it make up the text; after a slash follows any
    body, after a dot one that is empty or begins with a slash, and without an anchor the body does
    not begin with a slash. -/
theorem anchor_cases (cs : List Char) :
    (anchor cs).1 ++ (anchor cs).2 = cs ∧
      ((anchor cs).1 = ['/'] ∨
        ((anchor cs).1 = ['.'] ∧ ((anchor cs).2 = [] ∨ ∃ rest, (anchor cs).2 = '/' :: rest)) ∨
        ((anchor cs).1 = [] ∧ (anchor cs).2.head? ≠ some '/')) := by
  unfold anchor
  split
  · simp
  · simp
  · simp
  · rename_i hslash _ _
    refine ⟨rfl, .inr (.inr ⟨rfl, ?_⟩)⟩
    intro hhead
    cases cs with
    | nil => cases hhead
    | cons c cs =>
      cases hhead
      exact hslash cs rfl

theorem trimmed_append (segs : List (List Char)) :
    ∃ idle, segs = trimmed segs ++ idle ∧ ∀ seg ∈ idle, isIdle seg = true := by
  refine ⟨(segs.reverse.takeWhile isIdle).reverse, ?_, ?_⟩
  · rw [trimmed, ← List.reverse_append, List.takeWhile_append_dropWhile, List.reverse_reverse]
  · intro seg hseg
    exact List.all_eq_true.mp List.all_takeWhile seg (List.mem_reverse.mp hseg)

theorem not_isIdle_of_trimmed (h : trimmed segs = init ++ [seg]) : isIdle seg = false := by
  have hhead : (segs.reverse.dropWhile isIdle).head? = some seg := by
    rw [trimmed] at h
    rw [← List.getLast?_reverse, h]
    simp
  have := List.head?_dropWhile_not isIdle segs.reverse
  rw [hhead] at this
  simpa using this

/-- What the anchor adds to the segments of the body. -/
def anchorSegments (head : List Char) : List (List Char) := if head = ['.'] then [['.']] else []

theorem segments_anchor (cs : List Char) :
    segments cs = anchorSegments (anchor cs).1 ++ segments (anchor cs).2 := by
  obtain ⟨happend, hcases⟩ := anchor_cases cs
  have hcs : segments cs = segments ((anchor cs).1 ++ (anchor cs).2) := by rw [happend]
  rw [hcs]
  rcases hcases with hhead | ⟨hhead, hbody | ⟨rest, hbody⟩⟩ | ⟨hhead, -⟩
  · rw [hhead]
    exact segments_append_slash [] _
  · rw [hhead, hbody]
    rfl
  · rw [hhead, hbody, segments_append_slash, ← List.nil_append ('/' :: rest),
      segments_append_slash]
    rfl
  · rw [hhead]
    rfl

/-- The segments of a text that is put together again from its anchor and the first segments of its
    body, the last of which is not idle. -/
theorem segments_rebuilt (hpre : trimmed segs <+: Text.splitOn '/' (anchor cs).2) :
    segments ((anchor cs).1 ++ Text.joinWith '/' (trimmed segs)) =
      anchorSegments (anchor cs).1 ++ (trimmed segs).filter (· ≠ []) := by
  have hslash : ∀ seg ∈ trimmed segs, '/' ∉ seg := fun seg hseg =>
    Text.not_mem_of_mem_splitOn (hpre.subset hseg)
  obtain ⟨-, hcases⟩ := anchor_cases cs
  rcases hcases with hhead | ⟨hhead, hbody⟩ | ⟨hhead, -⟩
  · rw [hhead, List.singleton_append, ← List.nil_append ('/' :: _), segments_append_slash,
      segments_joinWith hslash]
    rfl
  · -- after a dot the body begins with an empty segment, so that a slash follows the dot
    cases htrim : trimmed segs with
    | nil => simp [hhead, Text.joinWith, segments, anchorSegments, Text.splitOn, Text.splitStep]
    | cons seg rest =>
      rw [htrim] at hpre hslash
      have hseg : seg = [] := by
        rcases hbody with hbody | ⟨body, hbody⟩
        · rw [hbody] at hpre
          exact (List.cons_prefix_cons.mp hpre).1
        · rw [hbody, ← List.nil_append ('/' :: body), Text.splitOn_append_cons] at hpre
          exact (List.cons_prefix_cons.mp hpre).1
      subst hseg
      cases rest with
      | nil =>
        have := not_isIdle_of_trimmed (show trimmed segs = [] ++ [[]] from htrim)
        simp [isIdle] at this
      | cons seg rest =>
        rw [hhead, Text.joinWith, List.nil_append, segments_append_slash, segments_joinWith]
        · simp [segments, anchorSegments, Text.splitOn, Text.splitStep]
        · exact fun p hp => hslash p (List.mem_cons_of_mem _ hp)
        · simp
  · rw [hhead, List.nil_append, segments_joinWith hslash]
    rfl

theorem head?_joinWith_ne {body : List Char}
    (hbody : body.head? ≠ some '/') (hpre : segs <+: Text.splitOn '/' body) :
    (Text.joinWith '/' segs).head? ≠ some '/' := by
  intro hhead
  have := Text.joinWith_prefix '/' hpre
  rw [Text.joinWith_splitOn] at this
  obtain ⟨rest, hrest⟩ := this
  apply hbody
  rw [← hrest, List.head?_append, hhead]
  rfl

/-- The segments of a body are all idle, or divided by the last one that is not. -/
theorem trimmed_cases (body : List (List Char)) :
    trimmed body = [] ∧ (∀ seg ∈ body, isIdle seg = true) ∨
      ∃ init seg before after, trimmed body = init ++ [seg] ∧ isIdle seg = false ∧
        body = trimmed init ++ (before ++ seg :: after) ∧
        (∀ seg ∈ before, isIdle seg = true) ∧ ∀ seg ∈ after, isIdle seg = true := by
  obtain ⟨after, hbody, hafter⟩ := trimmed_append body
  rcases List.eq_nil_or_concat (trimmed body) with hnil | ⟨init, seg, hlast⟩
  · refine .inl ⟨hnil, ?_⟩
    rw [hnil, List.nil_append] at hbody
    rw [hbody]
    exact hafter
  · rw [List.concat_eq_append] at hlast
    obtain ⟨before, hinit, hbefore⟩ := trimmed_append init
    refine .inr ⟨init, seg, before, after, hlast, not_isIdle_of_trimmed hlast, ?_, hbefore, hafter⟩
    rw [← List.append_assoc, ← hinit]
    rw [hlast] at hbody
    simpa using hbody

theorem parent?_of_trimmed_nil (h : trimmed (Text.splitOn '/' (anchor p.toList).2) = []) :
    parent? p = if (anchor p.toList).1 = ['.'] then some "" else none := by
  simp [parent?, parts, h]

theorem parent?_of_trimmed_concat
    (h : trimmed (Text.splitOn '/' (anchor p.toList).2) = init ++ [seg]) :
    parent? p = some (String.ofList ((anchor p.toList).1 ++ Text.joinWith '/' (trimmed init))) := by
  simp [parent?, parts, h]

theorem fileName?_of_trimmed_concat
    (h : trimmed (Text.splitOn '/' (anchor p.toList).2) = init ++ [seg]) :
    fileName? p = if seg = ['.', '.'] then none else some (String.ofList seg) := by
  simp [fileName?, parts, h]

theorem dots_of_isIdle (h : ∀ seg ∈ segs, isIdle seg = true) :
    ∀ step ∈ (segs.filter (· ≠ [])).map String.ofList, step = "." := by
  intro step hstep
  obtain ⟨seg, hseg, rfl⟩ := List.mem_map.mp hstep
  obtain ⟨hmem, hne⟩ := List.mem_filter.mp hseg
  have hidle := h seg hmem
  simp only [isIdle, Bool.or_eq_true, decide_eq_true_eq] at hidle hne
  rcases hidle with hidle | hidle
  · exact absurd hidle hne
  · rw [hidle]

theorem steps_of_isIdle (h : ∀ seg ∈ Text.splitOn '/' (anchor p.toList).2, isIdle seg = true) :
    ∀ step ∈ (route p).steps, step = "." := by
  intro step hstep
  rw [route_steps, segments_anchor, List.map_append] at hstep
  rcases List.mem_append.mp hstep with hanchor | hbody
  · rw [anchorSegments] at hanchor
    split at hanchor
    · simpa using hanchor
    · cases hanchor
  · exact dots_of_isIdle h step hbody

theorem isAbsolute_rebuilt (hpre : segs <+: Text.splitOn '/' (anchor p.toList).2) :
    isAbsolute (String.ofList ((anchor p.toList).1 ++ Text.joinWith '/' segs)) = isAbsolute p := by
  obtain ⟨happend, hcases⟩ := anchor_cases p.toList
  have hp : isAbsolute p = decide (((anchor p.toList).1 ++
      (anchor p.toList).2).head? = some '/') := by
    rw [happend, isAbsolute]
  rw [hp, isAbsolute, String.toList_ofList]
  rcases hcases with hhead | ⟨hhead, -⟩ | ⟨hhead, hbody⟩
  · simp [hhead]
  · simp [hhead]
  · simp [hhead, hbody, head?_joinWith_ne hbody hpre]

/-- **The parent of a path** starts where the path starts, and lacks one real step at its end,
    unless the path has dots only. -/
theorem route_parent {q : String} (h : parent? p = some q) :
    isAbsolute q = isAbsolute p ∧ ∃ rest, (route p).steps = (route q).steps ++ rest ∧
      ((∃ step ∈ rest, step ≠ ".") ∨ (q = "" ∧ ∀ step ∈ rest, step = ".")) := by
  rcases trimmed_cases (Text.splitOn '/' (anchor p.toList).2) with
    ⟨hnil, hidle⟩ | ⟨init, seg, before, after, htrim, hseg, hbody, -⟩
  · rw [parent?_of_trimmed_nil hnil] at h
    split at h
    · rename_i hhead
      cases h
      refine ⟨?_, (route p).steps, rfl, .inr ⟨rfl, steps_of_isIdle hidle⟩⟩
      obtain ⟨happend, -⟩ := anchor_cases p.toList
      rw [isAbsolute, isAbsolute, ← happend, hhead]
      rfl
    · cases h
  · rw [parent?_of_trimmed_concat htrim] at h
    cases h
    have hpre : trimmed init <+: Text.splitOn '/' (anchor p.toList).2 := ⟨_, hbody.symm⟩
    refine ⟨isAbsolute_rebuilt hpre,
      ((before ++ seg :: after).filter (· ≠ [])).map String.ofList, ?_, .inl ?_⟩
    · have hsegs : segments (anchor p.toList).2 =
          (trimmed init).filter (· ≠ []) ++ (before ++ seg :: after).filter (· ≠ []) := by
        rw [← List.filter_append, ← hbody]
        rfl
      rw [route_steps, route_steps, String.toList_ofList, segments_rebuilt hpre, segments_anchor,
        hsegs]
      simp
    · simp only [isIdle, Bool.or_eq_false_iff, decide_eq_false_iff_not] at hseg
      refine ⟨String.ofList seg, List.mem_map_of_mem
        (List.mem_filter.mpr ⟨by simp, by simp [hseg.1]⟩),
        fun hdot => hseg.2 ?_⟩
      rw [← String.toList_ofList (l := seg), hdot]
      rfl

theorem isPrefix_of_parent? {q : String} (h : parent? p = some q) : q.toList <+: p.toList := by
  rcases trimmed_cases (Text.splitOn '/' (anchor p.toList).2) with
    ⟨hnil, -⟩ | ⟨init, seg, before, after, htrim, -, hbody, -⟩
  · rw [parent?_of_trimmed_nil hnil] at h
    split at h
    · cases h
      exact List.nil_prefix
    · cases h
  · rw [parent?_of_trimmed_concat htrim] at h
    cases h
    have hpre := Text.joinWith_prefix '/' (show trimmed init <+: _ from ⟨_, hbody.symm⟩)
    rw [Text.joinWith_splitOn] at hpre
    obtain ⟨rest, hrest⟩ := hpre
    refine ⟨rest, ?_⟩
    rw [String.toList_ofList, List.append_assoc, hrest]
    exact (anchor_cases p.toList).1

/-! ## Last components -/

/-- **The last component of a path** is its last step, dots apart, and its parent has the steps
    before it. -/
theorem route_fileName {stem : String} (h : fileName? p = some stem) :
    ∃ q before after, parent? p = some q ∧ isAbsolute q = isAbsolute p ∧
      (route p).steps = (route q).steps ++ (before ++ stem :: after) ∧
      (∀ step ∈ before, step = ".") ∧ (∀ step ∈ after, step = ".") ∧ stem ≠ "." ∧ stem ≠ ".." := by
  rcases trimmed_cases (Text.splitOn '/' (anchor p.toList).2) with
    ⟨hnil, -⟩ | ⟨init, seg, before, after, htrim, hseg, hbody, hbefore, hafter⟩
  · simp [fileName?, parts, hnil] at h
  · rw [fileName?_of_trimmed_concat htrim] at h
    split at h
    · cases h
    · rename_i hup
      cases h
      have hpre : trimmed init <+: Text.splitOn '/' (anchor p.toList).2 := ⟨_, hbody.symm⟩
      have hdot : String.ofList seg ≠ "." := by
        intro hdot
        rw [← String.toList_inj, String.toList_ofList] at hdot
        rw [hdot] at hseg
        cases hseg
      have hup' : String.ofList seg ≠ ".." := by
        intro hdots
        rw [← String.toList_inj, String.toList_ofList] at hdots
        exact hup hdots
      refine ⟨_, (before.filter (· ≠ [])).map String.ofList,
        (after.filter (· ≠ [])).map String.ofList,
        parent?_of_trimmed_concat htrim, isAbsolute_rebuilt hpre, ?_, dots_of_isIdle hbefore,
        dots_of_isIdle hafter, hdot, hup'⟩
      have hne : seg ≠ [] := by
        rintro rfl
        cases hseg
      have hsegs : segments (anchor p.toList).2 =
          (trimmed init).filter (· ≠ []) ++ (before ++ seg :: after).filter (· ≠ []) := by
        rw [← List.filter_append, ← hbody]
        rfl
      rw [route_steps, route_steps, String.toList_ofList, segments_rebuilt hpre, segments_anchor,
        hsegs]
      simp [hne]

/-- The steps of a path without a last component are dots, or end in a step up, dots apart. -/
theorem steps_of_no_fileName (h : fileName? p = none) :
    (∀ step ∈ (route p).steps, step = ".") ∨
      ∃ init after, (route p).steps = init ++ ".." :: after ∧ ∀ step ∈ after, step = "." := by
  rcases trimmed_cases (Text.splitOn '/' (anchor p.toList).2) with
    ⟨-, hidle⟩ | ⟨init, seg, before, after, htrim, hseg, hbody, -, hafter⟩
  · exact .inl (steps_of_isIdle hidle)
  · rw [fileName?_of_trimmed_concat htrim] at h
    split at h
    · rename_i hup
      subst hup
      have hsegs : segments (anchor p.toList).2 =
          (trimmed init ++ (before ++ ['.', '.'] :: after)).filter (· ≠ []) := by
        rw [← hbody]
        rfl
      refine .inr ⟨(anchorSegments (anchor p.toList).1 ++
        (trimmed init ++ before).filter (· ≠ [])).map String.ofList, _, ?_, dots_of_isIdle hafter⟩
      rw [route_steps, segments_anchor, hsegs]
      simp
    · cases h

theorem last_step_of_no_fileName {last : String} {init : List String} (h : fileName? p = none)
    (hsteps : (route p).steps = init ++ [last]) : last = "." ∨ last = ".." := by
  rcases steps_of_no_fileName h with hdots | ⟨init', after, hup, hafter⟩
  · exact .inl (hdots last (by simp [hsteps]))
  · rw [hup] at hsteps
    have hlast := congrArg List.getLast? hsteps
    rw [List.getLast?_append, List.getLast?_concat, Option.or_of_isSome (by simp)] at hlast
    rcases List.mem_cons.mp (List.mem_of_mem_getLast? hlast) with rfl | hdot
    · exact .inr rfl
    · exact .inl (hafter last hdot)

theorem no_slash_of_fileName? (h : fileName? p = some name) : '/' ∉ name.toList := by
  rw [fileName?] at h
  split at h
  · rename_i seg hlast
    split at h
    · cases h
    · cases h
      obtain ⟨idle, hbody, -⟩ := trimmed_append (Text.splitOn '/' (anchor p.toList).2)
      have hmem : seg ∈ Text.splitOn '/' (anchor p.toList).2 := by
        rw [hbody]
        exact List.mem_append_left _ (List.mem_of_mem_getLast? hlast)
      rw [String.toList_ofList]
      exact Text.not_mem_of_mem_splitOn hmem
  · cases h

/-! ## Slashes at the end -/

/-- A path text with `n` slashes after it. -/
def slashed (p : String) : Nat → String
  | 0 => p
  | n + 1 => slashed p n ++ "/"

theorem toList_slashed_succ (p : String) (n : Nat) :
    (slashed p (n + 1)).toList = (slashed p n).toList ++ ['/'] := by
  rw [slashed, String.toList_append]
  rfl

theorem toList_slashed_ne_nil (h : p.toList ≠ []) (n : Nat) : (slashed p n).toList ≠ [] := by
  cases n with
  | zero => exact h
  | succ n => simp [toList_slashed_succ]

theorem utf8ByteSize_slashed (p : String) (n : Nat) :
    (slashed p n).utf8ByteSize = p.utf8ByteSize + n := by
  induction n with
  | zero => rfl
  | succ n ih =>
    have hslash : "/".utf8ByteSize = 1 := by decide
    rw [slashed, String.utf8ByteSize_append, ih, hslash, Nat.add_assoc]

theorem steps_slashed (p : String) (n : Nat) : (route (slashed p n)).steps = (route p).steps := by
  induction n with
  | zero => rfl
  | succ n ih =>
    rw [← ih, route_steps, route_steps, toList_slashed_succ, segments_append_slash, segments_nil,
      List.append_nil]

theorem isAbsolute_slashed (h : p.toList ≠ []) (n : Nat) :
    isAbsolute (slashed p n) = isAbsolute p := by
  induction n with
  | zero => rfl
  | succ n ih =>
    rw [← ih, isAbsolute, isAbsolute, toList_slashed_succ]
    cases hcs : (slashed p n).toList with
    | nil => exact absurd hcs (toList_slashed_ne_nil h n)
    | cons c cs => rfl

theorem anchor_append_slash (h : cs ≠ []) :
    anchor (cs ++ ['/']) = ((anchor cs).1, (anchor cs).2 ++ ['/']) := by
  -- an anchor is told by the first two characters
  match cs, h with
  | [c], _ =>
    by_cases hslash : c = '/'
    · rw [hslash]; rfl
    · by_cases hdot : c = '.'
      · rw [hdot]; rfl
      · simp [anchor, hslash, hdot]
  | c :: c' :: rest, _ => unfold anchor; split <;> split <;> simp_all

theorem parts_slashed (h : p.toList ≠ []) (n : Nat) : parts (slashed p n) = parts p := by
  induction n with
  | zero => rfl
  | succ n ih =>
    have hanchor := anchor_append_slash (toList_slashed_ne_nil h n)
    have hidle : ∀ segs : List (List Char), trimmed (segs ++ [[]]) = trimmed segs := fun segs => by
      simp [trimmed, isIdle]
    rw [← ih, parts, parts, toList_slashed_succ, hanchor]
    simp only [Text.splitOn_append_cons, Text.splitOn_nil, hidle]

theorem fileName?_slashed (h : p.toList ≠ []) (n : Nat) :
    fileName? (slashed p n) = fileName? p := by
  rw [fileName?, fileName?, parts_slashed h]

theorem parent?_slashed (h : p.toList ≠ []) (n : Nat) : parent? (slashed p n) = parent? p := by
  rw [parent?, parent?, parts_slashed h]

theorem join_slashed (p : String) (n : Nat) (h : IsPlain name) :
    join (slashed p (n + 1)) name = slashed p (n + 1) ++ name := by
  rw [join, h.not_absolute, if_neg Bool.false_ne_true, if_pos]
  right
  simp [toList_slashed_succ]

end Path

end Concolic
