import Concolic.Proofs.Keyed
import Concolic.Proofs.Toml.Value
import Mathlib.Data.List.Forall2

/-
  Documents that are written can be read.

  `Line.Written` says which texts are forms of a line, and each line stands for a path with what is
  there (`places`).  If no path comes twice, all lines can be entered.
-/

namespace Concolic.Toml

variable {c : Char} {name : String}

/-! ## Lines -/

/-- A line of a document. -/
inductive Line where
  | header (name : String)
  | pair (key : String) (v : Value)

/-- A name that needs no quotes. -/
def IsBareName (s : String) : Prop := s ≠ "" ∧ s.toList.all isBare = true

instance : DecidablePred IsBareName := fun _ => inferInstanceAs (Decidable (_ ∧ _))

/-- The forms of a line. -/
inductive Line.Written : Line → List Char → Prop
  | header {name : String} (hname : IsBareName name) :
      Written (.header name) ('[' :: (name.toList ++ [']', '\n']))
  | pair {key : String} {v : Value} {form : List Char} (hkey : IsBareName key)
      (hform : Writes v form) :
      Written (.pair key v) (key.toList ++ ' ' :: '=' :: ' ' :: (form ++ ['\n']))

theorem isBare_ne {d : Char} (h : isBare c = true) (hd : isBare d = false) : c ≠ d := by
  rintro rfl
  rw [h] at hd
  cases hd

theorem skipSpace_bare (h : isBare c = true) (rest : List Char) :
    skipSpace (c :: rest) = c :: rest := by
  have hspace := isBare_ne h (show isBare ' ' = false by decide)
  have htab := isBare_ne h (show isBare '\t' = false by decide)
  exact List.dropWhile_cons_of_neg (by simp [isSpace, hspace, htab])

theorem IsBareName.cons (h : IsBareName name) :
    ∃ c cs, name.toList = c :: cs ∧ isBare c = true := by
  have hne : name.toList ≠ [] := fun hnil => h.1 (String.toList_eq_nil_iff.mp hnil)
  obtain ⟨c, cs, hcs⟩ := List.exists_cons_of_ne_nil hne
  exact ⟨c, cs, hcs, List.all_eq_true.mp h.2 c (by rw [hcs]; exact List.mem_cons_self)⟩

theorem readName_bare (hname : IsBareName name) (hc : isBare c = false)
    (rest : List Char) : readName (name.toList ++ c :: rest) = some (name, c :: rest) := by
  have hall : ∀ x ∈ name.toList, isBare x = true := List.all_eq_true.mp hname.2
  have htake : (name.toList ++ c :: rest).takeWhile isBare = name.toList := by
    rw [List.takeWhile_append_of_pos hall, List.takeWhile_cons_of_neg (by simp [hc]),
      List.append_nil]
  have hdrop : (name.toList ++ c :: rest).dropWhile isBare = c :: rest := by
    rw [List.dropWhile_append_of_pos hall, List.dropWhile_cons_of_neg (by simp [hc])]
  obtain ⟨x, xs, hxs, hx⟩ := hname.cons
  have hhead : ∀ d more, isBare d = false → name.toList ++ c :: rest ≠ d :: more := by
    intro d more hd hcs
    rw [hxs] at hcs
    exact isBare_ne hx hd (List.cons.inj hcs).1
  rw [readName, htake, hdrop]
  · split
    · rename_i hnil
      rw [hxs] at hnil
      cases hnil
    · rw [String.ofList_toList]
  · exact fun more => hhead '"' more (by decide)
  · exact fun more => hhead '\'' more (by decide)

/-- A key ends where something other than a name or a dot comes, blanks apart. -/
theorem readKey_bare (hname : IsBareName name) {d : Char} {rest more : List Char}
    (hd : isBare d = false) (hskip : skipSpace (d :: more) = c :: rest) (hdot : c ≠ '.') :
    readKey (name.toList ++ d :: more) = some ([name], c :: rest) := by
  have hstart : skipSpace (name.toList ++ d :: more) = name.toList ++ d :: more := by
    obtain ⟨x, xs, hxs, hx⟩ := hname.cons
    rw [hxs]
    exact skipSpace_bare hx _
  have hnames : readNames ((name.toList ++ d :: more).length + 1) [] (name.toList ++ d :: more) =
      some ([name], c :: rest) := by
    rw [readNames, hstart, readName_bare hname hd]
    dsimp only
    rw [hskip]
    split
    · rename_i heq
      exact absurd (List.cons.inj heq).1 hdot
    · rfl
  rw [readKey, hnames]
  rfl

theorem readHeader_bare (hname : IsBareName name) (rest : List Char) :
    readHeader [']'] (name.toList ++ ']' :: '\n' :: rest) = some ([name], rest) := by
  rw [readHeader, readKey_bare hname (by decide) rfl (by decide)]
  rfl

theorem Writes.skipSpace {v : Value} {form : List Char} (h : Writes v form) (rest : List Char) :
    skipSpace (form ++ rest) = form ++ rest := by
  cases h with
  | text h =>
    obtain ⟨forms, -, rfl⟩ := h
    rfl
  | @integer n h =>
    cases hds : Nat.toDigits 10 n with
    | nil => exact absurd hds Nat.toDigits_ne_nil
    | cons d ds =>
      have hdigit := Text.isDigit_of_toDigits_eq_cons hds
      have hspace := isDigit_ne hdigit (show Text.isDigit ' ' = false by decide)
      have htab := isDigit_ne hdigit (show Text.isDigit '\t' = false by decide)
      exact List.dropWhile_cons_of_neg (by simp [isSpace, hspace, htab])
  | boolean b => cases b <;> rfl
  | texts h => rfl

theorem readPair_bare {key : String} {v : Value} {form : List Char} (hkey : IsBareName key)
    (hform : Writes v form) (rest : List Char) :
    readPair (key.toList ++ ' ' :: '=' :: ' ' :: (form ++ '\n' :: rest)) =
      some ([key], v, rest) := by
  have hfuel : form.length + 2 ≤ 2 * (' ' :: (form ++ '\n' :: rest)).length + 2 := by
    simp only [List.length_cons, List.length_append]
    omega
  have hskip : skipSpace (' ' :: (form ++ '\n' :: rest)) = form ++ '\n' :: rest :=
    hform.skipSpace ('\n' :: rest)
  rw [readPair, readKey_bare hkey (by decide) rfl (by decide)]
  show (do
    let found ← readValue (2 * (' ' :: (form ++ '\n' :: rest)).length + 2) 0
      (skipSpace (' ' :: (form ++ '\n' :: rest)))
    let rest ← readLineEnd found.2
    some ([key], found.1, rest)) = _
  rw [hskip, readValue_of_writes hform rest hfuel]
  rfl

/-- Enters a line. -/
def Layout.enter (l : Layout) : Line → Option Layout
  | .header name => l.addHeader [name]
  | .pair key v => l.addKey [key] v

/-- **One line** is entered, and reading goes on behind it. -/
theorem readLines_line {line : Line} {cs : List Char} (h : line.Written cs)
    (fuel : Nat) (l : Layout) (rest : List Char) :
    readLines (fuel + 1) l (cs ++ rest) = (l.enter line).bind fun l' => readLines fuel l' rest := by
  cases h with
  | @header name hname =>
    have hheader := readHeader_bare hname rest
    have hcs : '[' :: (name.toList ++ [']', '\n']) ++ rest =
        '[' :: (name.toList ++ ']' :: '\n' :: rest) := by
      simp
    obtain ⟨x, xs, hxs, hx⟩ := hname.cons
    have hskip : skipSpace ('[' :: (name.toList ++ ']' :: '\n' :: rest)) =
      '[' :: (name.toList ++ ']' :: '\n' :: rest) := rfl
    rw [hcs, readLines, hskip]
    split
    · rename_i heq
      cases heq
    iterate 3
      · rename_i heq
        exact absurd (List.cons.inj heq).1 (by decide)
    · rename_i heq
      rw [hxs] at heq
      exact absurd (List.cons.inj (List.cons.inj heq).2).1 (isBare_ne hx (by decide))
    · rename_i heq
      cases heq
      rw [hheader]
      dsimp only [Layout.enter]
      cases l.addHeader _ <;> rfl
    · rename_i hnot
      exact absurd rfl (hnot _)
  | @pair key v form hkey hform =>
    have hpair := readPair_bare hkey hform rest
    obtain ⟨x, xs, hxs, hx⟩ := hkey.cons
    rw [hxs] at hpair ⊢
    simp only [List.append_assoc, List.cons_append, List.nil_append] at hpair ⊢
    rw [readLines, skipSpace_bare hx]
    split
    · rename_i heq
      cases heq
    iterate 5
      · rename_i heq
        exact absurd (List.cons.inj heq).1 (isBare_ne hx (by decide))
    · rw [hpair]
      dsimp only [Layout.enter]
      cases l.addKey _ _ <;> rfl

/-- **All lines** are entered, one after the other. -/
theorem readLines_all {lines : List Line} {texts : List (List Char)}
    (h : List.Forall₂ Line.Written lines texts) {fuel : Nat}
    (hfuel : lines.length < fuel) (l : Layout) :
    readLines fuel l texts.flatten = lines.foldlM Layout.enter l := by
  induction h generalizing fuel l with
  | nil =>
    obtain ⟨fuel, rfl⟩ := Nat.exists_eq_add_of_le' (show 1 ≤ fuel by omega)
    rfl
  | cons hline hlines ih =>
    rw [List.length_cons] at hfuel
    obtain ⟨fuel, rfl⟩ := Nat.exists_eq_add_of_le' (show 1 ≤ fuel by omega)
    rw [List.flatten_cons, readLines_line hline, List.foldlM_cons]
    exact congrArg _ (funext fun l' => ih (by omega) l')

theorem Line.Written.head {line : Line} {cs : List Char} (h : line.Written cs) :
    ∃ c more, cs = c :: more ∧ c ≠ '\ufeff' := by
  cases h with
  | header hname => exact ⟨'[', _, rfl, by decide⟩
  | pair hkey hform =>
    obtain ⟨x, xs, hxs, hx⟩ := hkey.cons
    rw [hxs]
    exact ⟨x, _, rfl, isBare_ne hx (by decide)⟩

theorem read?_of_lines {lines : List Line} {texts : List (List Char)}
    (h : List.Forall₂ Line.Written lines texts) {text : String}
    (htext : text.toList = texts.flatten) : read? text = lines.foldlM Layout.enter .empty := by
  have hmark : dropMark texts.flatten = texts.flatten := by
    cases h with
    | nil => rfl
    | cons hline hlines =>
      obtain ⟨c, more, rfl, hc⟩ := hline.head
      rw [List.flatten_cons, List.cons_append, dropMark]
      exact fun rest hrest => hc (List.cons.inj hrest).1
  have hlen : lines.length ≤ texts.flatten.length := by
    clear hmark htext
    induction h with
    | nil => exact Nat.zero_le _
    | cons hline hlines ih =>
      obtain ⟨c, more, rfl, -⟩ := hline.head
      rw [List.flatten_cons, List.length_append, List.length_cons, List.length_cons]
      omega
  show readLines ((dropMark text.toList).length + 1) .empty (dropMark text.toList) = _
  rw [htext, hmark]
  exact readLines_all h (Nat.lt_succ_of_le hlen) .empty

/-! ## What a layout shows -/

namespace Layout

variable {l : Layout} {path path' : List Step}

theorem get?_set_self (l : Layout) (path : List Step) (slot : Slot) :
    (l.set path slot).get? path = some slot := by
  rw [get?, set, List.lookup_cons, beq_self_eq_true]

theorem get?_set_ne (l : Layout) (h : path' ≠ path) (slot : Slot) :
    (l.set path slot).get? path' = l.get? path' := by
  rw [get?, set, List.lookup_cons, beq_false_of_ne h]
  exact lookup_filter_of_pos l.slots (fun p => decide (p ≠ path)) (decide_eq_true h)

/-- The path that a line stands for, with what is there, and the table that is current behind it. -/
def place (current : List Step) : Line → (List Step × Slot) × List Step
  | .header name => (([.name name], .table .header), [.name name])
  | .pair key v => ((current ++ [.name key], .leaf v), current)

/-- The paths that lines stand for, with what is there. -/
def places (current : List Step) : List Line → List (List Step × Slot)
  | [] => []
  | line :: rest => (place current line).1 :: places (place current line).2 rest

theorem enter_eq (line : Line) (hfree : l.get? (place l.current line).1.1 = none) :
    l.enter line = some { l.set (place l.current line).1.1 (place l.current line).1.2 with
      current := (place l.current line).2 } := by
  cases line with
  | header name =>
    have hfree : l.get? [.name name] = none := hfree
    simp [enter, addHeader, descend, hfree, place]
  | pair key v =>
    have hfree : l.get? (l.current ++ [.name key]) = none := hfree
    simp [enter, addKey, descend, hfree, place]
    rfl

/-- **Lines of which no two stand for one path** can all be entered where there is nothing yet. -/
theorem foldlM_enter {lines : List Line} (hnodup : ((places l.current lines).map Prod.fst).Nodup)
    (hfree : ∀ path ∈ (places l.current lines).map Prod.fst, l.get? path = none) :
    ∃ l', lines.foldlM enter l = some l' ∧
      ∀ path, l'.get? path = ((places l.current lines).lookup path).or (l.get? path) := by
  induction lines generalizing l with
  | nil => exact ⟨l, rfl, fun path => rfl⟩
  | cons line lines ih =>
    rw [places, List.map_cons] at hnodup hfree
    rw [List.nodup_cons] at hnodup
    rw [List.forall_mem_cons] at hfree
    have henter := enter_eq line hfree.1
    rw [places]
    generalize place l.current line = p at *
    obtain ⟨⟨path, slot⟩, current⟩ := p
    have hne : ∀ path' ∈ (places current lines).map Prod.fst, path' ≠ path := by
      rintro path' hmem rfl
      exact hnodup.1 hmem
    obtain ⟨l', hl', hshows⟩ := @ih { l.set path slot with current } hnodup.2 fun path' hpath' =>
      (get?_set_ne l (hne path' hpath') slot).trans (hfree.2 path' hpath')
    refine ⟨l', ?_, fun path' => ?_⟩
    · rw [List.foldlM_cons, henter]
      exact hl'
    · rw [hshows, List.lookup_cons]
      show ((places current lines).lookup path').or ((l.set path slot).get? path') = _
      by_cases heq : path' = path
      · subst heq
        rw [lookup_eq_none_of_notMem hnodup.1, get?_set_self, beq_self_eq_true]
        rfl
      · rw [get?_set_ne l heq, beq_false_of_ne heq]

end Layout

/-! ## Documents -/

/-- The lines of a section: its header, then its keys with their values. -/
def sectionLines (part : String × List (String × Value)) : List Line :=
  .header part.1 :: part.2.map fun p => .pair p.1 p.2

/-- The paths of a section, with what is there. -/
def sectionPlaces (part : String × List (String × Value)) : List (List Step × Slot) :=
  ([.name part.1], .table .header) :: part.2.map fun p => ([.name part.1, .name p.1], .leaf p.2)

theorem places_sections (parts : List (String × List (String × Value))) (current : List Step) :
    Layout.places current (parts.flatMap sectionLines) = parts.flatMap sectionPlaces := by
  induction parts generalizing current with
  | nil => rfl
  | cons part parts ih =>
    have hpairs : ∀ pairs : List (String × Value),
        Layout.places [.name part.1] (pairs.map (fun p => .pair p.1 p.2) ++
          parts.flatMap sectionLines) =
          pairs.map (fun p => ([.name part.1, .name p.1], .leaf p.2)) ++
            parts.flatMap sectionPlaces := by
      intro pairs
      induction pairs with
      | nil => exact ih _
      | cons p pairs ihp => exact congrArg (_ :: ·) ihp
    exact congrArg (_ :: ·) (hpairs part.2)

theorem head_of_mem_sectionPlaces {part : String × List (String × Value)} {e : List Step × Slot}
    (h : e ∈ sectionPlaces part) : e.1.head? = some (.name part.1) := by
  rcases List.mem_cons.mp h with rfl | h
  · rfl
  · obtain ⟨p, -, rfl⟩ := List.mem_map.mp h
    rfl

section Document

variable {parts : List (String × List (String × Value))} {text : String}

theorem nodup_sections (hnames : (parts.map Prod.fst).Nodup)
    (hkeys : ∀ part ∈ parts, (part.2.map Prod.fst).Nodup) :
    ((parts.flatMap sectionPlaces).map Prod.fst).Nodup := by
  rw [List.map_flatMap, List.nodup_flatMap]
  constructor
  · intro part hpart
    have hpaths : ((part.2.map Prod.fst).map fun key => [Step.name part.1, .name key]).Nodup :=
      (hkeys part hpart).map fun a b heq => Step.name.inj (List.cons.inj (List.cons.inj heq).2).1
    rw [List.map_map] at hpaths
    rw [sectionPlaces, List.map_cons, List.map_map, List.nodup_cons]
    exact ⟨by simp, hpaths⟩
  · refine (List.pairwise_map.mp hnames).imp fun {a b} hne path ha hb => ?_
    obtain ⟨e, he, rfl⟩ := List.mem_map.mp ha
    obtain ⟨e', he', heq⟩ := List.mem_map.mp hb
    have hhead := head_of_mem_sectionPlaces he
    rw [← heq, head_of_mem_sectionPlaces he'] at hhead
    exact hne (Step.name.inj (Option.some.inj hhead)).symm

/-- A text is a document of these sections: each header is followed by the keys of its section with
    their values, one to a line. -/
def Describes (parts : List (String × List (String × Value))) (text : String) : Prop :=
  ∃ texts, List.Forall₂ Line.Written (parts.flatMap sectionLines) texts ∧
    text.toList = texts.flatten

/-- The layout shows a section with these keys and values. -/
def Layout.Shows (l : Layout) (name : String) (pairs : List (String × Value)) : Prop :=
  l.get? [.name name] = some (.table .header) ∧
    ∀ key, l.get? [.name name, .name key] = (pairs.lookup key).map Slot.leaf

theorem header_mem_sections {slot : Slot} :
    ([.name name], slot) ∈ parts.flatMap sectionPlaces ↔
      name ∈ parts.map Prod.fst ∧ slot = .table .header := by
  simp [sectionPlaces]

theorem key_mem_sections {key : String} {slot : Slot} :
    ([.name name, .name key], slot) ∈ parts.flatMap sectionPlaces ↔
      ∃ pairs, (name, pairs) ∈ parts ∧ ∃ v, (key, v) ∈ pairs ∧ .leaf v = slot := by
  simp [sectionPlaces]

/-- **A document is read as its sections**, and shows no other. -/
theorem read?_of_describes (h : Describes parts text) (hnames : (parts.map Prod.fst).Nodup)
    (hkeys : ∀ part ∈ parts, (part.2.map Prod.fst).Nodup) :
    ∃ l, read? text = some l ∧ (∀ part ∈ parts, l.Shows part.1 part.2) ∧
      ∀ name, name ∉ parts.map Prod.fst → l.get? [.name name] = none := by
  obtain ⟨texts, hlines, htext⟩ := h
  have hnodup := nodup_sections hnames hkeys
  obtain ⟨l, hl, hshows⟩ := @Layout.foldlM_enter .empty (parts.flatMap sectionLines)
    (places_sections parts [] ▸ hnodup) fun _ _ => rfl
  have hget : ∀ path slot, l.get? path = some slot ↔
      (path, slot) ∈ parts.flatMap sectionPlaces := by
    intro path slot
    rw [← lookup_eq_some_iff hnodup, hshows, ← places_sections parts []]
    exact iff_of_eq (congrArg (· = some slot) Option.or_none)
  refine ⟨l, by rw [read?_of_lines hlines htext, hl], fun part hpart => ⟨?_, fun key => ?_⟩,
    fun name hname => ?_⟩
  · exact (hget _ _).mpr (header_mem_sections.mpr ⟨List.mem_map_of_mem hpart, rfl⟩)
  · refine Option.ext fun slot => ?_
    rw [hget, key_mem_sections, Option.map_eq_some_iff]
    simp only [lookup_eq_some_iff (hkeys part hpart)]
    constructor
    · rintro ⟨pairs, hpairs, v, hv, rfl⟩
      -- no other section has the name
      obtain rfl := congrArg Prod.snd (List.inj_on_of_nodup_map hnames hpart hpairs rfl)
      exact ⟨v, hv, rfl⟩
    · rintro ⟨v, hv, rfl⟩
      exact ⟨part.2, hpart, v, hv, rfl⟩
  · exact Option.eq_none_iff_forall_ne_some.mpr fun slot hslot =>
      hname (header_mem_sections.mp ((hget _ _).mp hslot)).1
end Document

end Concolic.Toml
