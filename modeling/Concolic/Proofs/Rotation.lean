import Concolic.Proofs.StateDir
import Mathlib.Data.List.Induction

/-
  The journal of many sessions.

  A journal that was begun by recording sessions is a list of whole lines (`listing`).  What is lost
  is lost at the old end only, and only when the journal has been cut; `IsTail` is the invariant
  that carries this through any number of sessions and cuts.
-/

namespace Concolic

namespace Text

theorem joinWith_ended (sep : Char) {ps : List (List Char)} (hne : ps ≠ []) :
    joinWith sep ps ++ [sep] = ps.flatMap fun piece => piece ++ [sep] := by
  induction ps with
  | nil => exact absurd rfl hne
  | cons p ps ih =>
    cases ps with
    | nil => simp [joinWith]
    | cons q qs =>
      have hrest := ih (by simp)
      have hjoin : joinWith sep (p :: q :: qs) = p ++ sep :: joinWith sep (q :: qs) := rfl
      rw [hjoin, List.flatMap_cons, ← hrest]
      simp

theorem lines_flatMap {ps : List (List Char)} (h : ∀ p ∈ ps, '\n' ∉ p ∧ p.getLast? ≠ some '\r') :
    lines (ps.flatMap fun p => p ++ ['\n']) = ps := by
  induction ps using List.reverseRecOn with
  | nil => rfl
  | append_singleton ps p ih =>
    have hended : (ps.flatMap fun p => p ++ ['\n']) = [] ∨
        ∃ init, (ps.flatMap fun p => p ++ ['\n']) = init ++ ['\n'] := by
      rcases List.eq_nil_or_concat ps with rfl | ⟨ps', p', rfl⟩
      · exact .inl rfl
      · refine .inr ⟨(ps'.flatMap fun p => p ++ ['\n']) ++ p', ?_⟩
        simp
    obtain ⟨hfeed, hreturn⟩ := h p (by simp)
    rw [List.flatMap_append, List.flatMap_singleton, lines_append_line hended hfeed hreturn,
      ih fun q hq => h q (by simp [hq])]

theorem length_le_utf8ByteSize (cs : List Char) : cs.length ≤ (String.ofList cs).utf8ByteSize := by
  induction cs with
  | nil => simp
  | cons c cs ih =>
    have hc := Char.utf8Size_pos c
    rw [utf8ByteSize_cons, List.length_cons]
    omega

end Text

namespace Json

theorem length_le_between (sep : List Char) {p : List Char} {ps : List (List Char)} (h : p ∈ ps) :
    p.length ≤ (between sep ps).length := by
  induction ps with
  | nil => cases h
  | cons q qs ih =>
    cases qs with
    | nil =>
      rw [List.mem_singleton.mp h]
      exact Nat.le_refl _
    | cons r rs =>
      have hlength : (between sep (q :: r :: rs)).length =
          q.length + (sep.length + (between sep (r :: rs)).length) := by
        simp [between]
      rcases List.mem_cons.mp h with rfl | hmem
      · omega
      · have := ih hmem
        omega

theorem length_le_escaped (cs : List Char) : cs.length ≤ (cs.flatMap escape).length := by
  induction cs with
  | nil => simp
  | cons c cs ih =>
    have hc : 0 < (escape c).length := by
      unfold escape
      split
      iterate 7 simp
      split
      · simp
      · simp
    rw [List.flatMap_cons, List.length_append, List.length_cons]
    omega

theorem length_le_compact {fields : List (String × Scalar)} {name text : String}
    (h : (name, Scalar.text text) ∈ fields) :
    text.toList.length ≤ (compact fields).toList.length := by
  have hmember := length_le_between [','] (List.mem_map.mpr ⟨_, h, rfl⟩ :
    quoted name ++ ':' :: quoted text ∈ fields.map fun f => quoted f.1 ++ ':' :: f.2.print)
  have htext : text.toList.length ≤ (quoted text).length := by
    have := length_le_escaped text.toList
    rw [quoted, List.length_cons, List.length_append]
    omega
  rw [List.length_append, List.length_cons] at hmember
  rw [compact, String.toList_ofList, List.length_cons, List.length_append]
  omega

end Json

namespace StateDir

open Concolic.Tree (Names)

variable {dir : StateDir} {cwd S : Loc} {t t' made : Tree}

/-! ## The newest ones -/

section Newest

variable {α β : Type}

theorem newest_suffix (n : Nat) (xs : List α) : newest n xs <:+ xs := List.drop_suffix _ _

theorem length_newest (n : Nat) (xs : List α) : (newest n xs).length = min n xs.length := by
  rw [newest, List.length_drop]
  omega

theorem newest_nil (n : Nat) : newest n ([] : List α) = [] := List.drop_nil

theorem newest_map (n : Nat) (f : α → β) (xs : List α) :
    newest n (xs.map f) = (newest n xs).map f := by
  rw [newest, newest, List.length_map, List.map_drop]

end Newest

/-! ## Lists of whole lines -/

/-- The line of a session with its end. -/
def wholeLine (e : Finished) : List Char := e.encode.toList ++ ['\n']

/-- The journal that has one line for each of the sessions. -/
def listing (es : List Finished) : String := String.ofList (es.flatMap wholeLine)

theorem toList_listing (es : List Finished) : (listing es).toList = es.flatMap wholeLine :=
  String.toList_ofList

theorem listing_concat (es : List Finished) (e : Finished) :
    listing (es ++ [e]) = listing es ++ e.encode ++ "\n" := by
  apply String.toList_inj.mp
  rw [String.toList_append, String.toList_append, toList_listing, toList_listing,
    List.flatMap_append, List.append_assoc]
  simp [wholeLine]

theorem lines_listing (es : List Finished) :
    Text.lines (listing es).toList = es.map fun e => e.encode.toList := by
  have hlines : ∀ p ∈ es.map (fun e => e.encode.toList), '\n' ∉ p ∧ p.getLast? ≠ some '\r' := by
    intro p hp
    obtain ⟨e, -, rfl⟩ := List.mem_map.mp hp
    exact ⟨e.newline_not_mem_encode, fun hlast => e.return_not_mem_encode
      (List.mem_of_getLast? hlast)⟩
  have hlisting := Text.lines_flatMap hlines
  rw [List.flatMap_map] at hlisting
  rw [toList_listing]
  exact hlisting

theorem decode?_comp_encode :
    (fun line => Finished.decode? (String.ofList line)) ∘ (fun e => e.encode.toList) = some := by
  funext e
  rw [Function.comp, String.ofList_toList, Finished.decode?_encode]

theorem recent_listing (limit : Nat) (es : List Finished) :
    recent limit (listing es) = newest limit es := by
  rw [recent, lines_listing, newest_map, List.filterMap_map, decode?_comp_encode,
    List.filterMap_some]

/-! ## One more session -/

/-- The sessions that a journal keeps when one is added. -/
def retained (es : List Finished) : List Finished :=
  if isFull (listing es) then newest keepLines es else es

/-- **What is kept of a listing** is a listing. -/
theorem kept_listing (es : List Finished) : kept (listing es) = listing (retained es) := by
  rw [kept, retained]
  split
  · rename_i hfull
    -- a journal that is full is not empty, so that something is left of it
    have hne : (newest keepLines es).map (fun e => e.encode.toList) ≠ [] := by
      rintro hnil
      have hlength := length_newest keepLines es
      rw [List.map_eq_nil_iff.mp hnil, List.length_nil, keepLines] at hlength
      obtain rfl : es = [] := List.eq_nil_of_length_eq_zero (by omega)
      exact absurd hfull (by decide)
    apply String.toList_inj.mp
    rw [lines_listing, newest_map, String.toList_append, String.toList_ofList, toList_listing]
    refine (Text.joinWith_ended '\n' hne).trans ?_
    rw [List.flatMap_map]
    rfl
  · rfl

theorem added_listing (es : List Finished) (e : Finished) :
    kept (listing es) ++ e.encode ++ "\n" = listing (retained es ++ [e]) := by
  rw [kept_listing, listing_concat]

/-- The sessions `left` are the last ones of `all`, at least as many as a cut leaves. -/
structure IsTail (all left : List Finished) : Prop where
  suffix : left <:+ all
  enough : min all.length 501 ≤ left.length
  bounded : left.length ≤ 1000

theorem isTail_nil : IsTail [] [] := ⟨List.suffix_refl _, by simp, by simp⟩

theorem length_lt_of_room {es : List Finished} (h : isFull (listing es) = false) :
    es.length < 1000 := by
  rw [isFull, Bool.or_eq_false_iff, lines_listing, List.length_map, decide_eq_false_iff_not,
    maxLines] at h
  omega

/-- **Recording one more session** keeps the newest ones. -/
theorem IsTail.record {all left : List Finished} (h : IsTail all left) (e : Finished) :
    IsTail (all ++ [e]) (retained left ++ [e]) := by
  have hsuffix : ∀ {es : List Finished}, es <:+ left → es ++ [e] <:+ all ++ [e] := by
    intro es hes
    obtain ⟨lost, hlost⟩ := hes.trans h.suffix
    exact ⟨lost, by rw [← hlost, List.append_assoc]⟩
  have henough := h.enough
  have hbounded := h.bounded
  rw [retained]
  split
  · -- the journal has been cut
    have hlength : (newest keepLines left).length = min 500 left.length := length_newest _ _
    refine ⟨hsuffix (newest_suffix _ _), ?_, ?_⟩
    · rw [List.length_append, List.length_append, hlength]
      simp only [List.length_singleton]
      omega
    · rw [List.length_append, hlength]
      simp only [List.length_singleton]
      omega
  · rename_i hroom
    have hlt := length_lt_of_room (by simpa using hroom)
    refine ⟨hsuffix (List.suffix_refl _), ?_, ?_⟩
    · rw [List.length_append, List.length_append]
      simp only [List.length_singleton]
      omega
    · rw [List.length_append]
      simp only [List.length_singleton]
      omega

/-! ## Reading the journal -/

/-- The journal has exactly the sessions `left`, one on each of its lines, and shows as many of the
    last of them as one asks for. -/
structure Lists (dir : StateDir) (cwd S : Loc) (left : List Finished) (t : Tree) : Prop where
  file : IsJournal S (listing left) t
  decoded : (Text.lines (listing left).toList).map
    (fun line => Finished.decode? (String.ofList line)) = left.map some
  history : ∀ limit, dir.history cwd limit t <:+ left ∧
    (dir.history cwd limit t).length = min limit left.length

theorem lists_of_history {left : List Finished} (hfile : IsJournal S (listing left) t)
    (hhistory : ∀ limit, dir.history cwd limit t = newest limit left) : Lists dir cwd S left t := by
  refine ⟨hfile, ?_, fun limit => ?_⟩
  · rw [lines_listing, List.map_map, decode?_comp_encode]
  · rw [hhistory limit]
    exact ⟨newest_suffix limit left, length_newest limit left⟩

theorem listing_ne_empty {es : List Finished} (h : es ≠ []) : listing es ≠ "" := by
  intro hempty
  have hlines := lines_listing es
  rw [hempty] at hlines
  exact h (List.map_eq_nil_iff.mp hlines.symm)

theorem history_of_error {f : Fault} (h : t.readText cwd (dir.file journalName) = .error f)
    (limit : Nat) : dir.history cwd limit t = [] := by
  rw [history, h]

theorem Serves.lists {files : List String} (h : Serves files dir cwd S t)
    (hmem : journalName ∈ files)
    {left : List Finished} (hfile : IsJournal S (listing left) t) : Lists dir cwd S left t := by
  refine lists_of_history hfile fun limit => ?_
  rcases hfile with ⟨hnone, hempty⟩ | ⟨b, hb, hbytes⟩
  · have hleft : left = [] := Classical.byContradiction fun hne => listing_ne_empty hne hempty
    rw [history_of_error ((h.names _ hmem).readText_none hnone), hleft, newest_nil]
  · have hread := (h.names _ hmem).readText_file (slash_file (by decide)) hb
    rw [hbytes, Lock.fromUTF8?_toUTF8, Option.elim_some] at hread
    rw [history, hread]
    exact recent_listing limit left

/-- A journal that is not there has no sessions, also where its directory is not there. -/
theorem Opens.lists_nil {files : List String} (h : Opens files dir cwd S t made)
    (hmem : journalName ∈ files) (hnew : made.node? (journalName :: S) = none) :
    Lists dir cwd S [] t := by
  have hnone : t.node? (journalName :: S) = none := by
    rw [← (h.slots _ hmem).node?_of_adds h.adds, hnew]
  obtain ⟨f, hread⟩ := h.readText_free hmem hnew
  refine lists_of_history (.inl ⟨hnone, rfl⟩) fun limit => ?_
  rw [history_of_error hread, newest_nil]

theorem Opens.journalText_new {files : List String} (h : Opens files dir cwd S t made)
    (hmem : journalName ∈ files) (hnew : made.node? (journalName :: S) = none) :
    dir.journalText cwd t = "" := by
  obtain ⟨f, hread⟩ := h.readText_free hmem hnew
  rw [journalText_eq, hread]

/-! ## Many sessions -/

/-- Records the sessions one after the other.  Gives the tree after them and how each call went. -/
def recordAll (dir : StateDir) (cwd : Loc) (t : Tree) :
    List Finished → Tree × List (Except Fault Unit)
  | [] => (t, [])
  | e :: es =>
    let (t, result) := dir.recordFinished cwd e t
    let (t, results) := recordAll dir cwd t es
    (t, result :: results)

theorem recordAll_cons {e : Finished} {result : Except Fault Unit}
    (h : dir.recordFinished cwd e t = (t', result)) (es : List Finished) :
    recordAll dir cwd t (e :: es) =
      ((recordAll dir cwd t' es).1, result :: (recordAll dir cwd t' es).2) := by
  rw [recordAll, h]

theorem Serves.recordAll (h : Serves (pair journalName) dir cwd S t) {all left : List Finished}
    (hfile : IsJournal S (listing left) t) (htail : IsTail all left) (es : List Finished) :
    ∃ t' left', StateDir.recordAll dir cwd t es = (t', es.map fun _ => .ok ()) ∧
      IsTail (all ++ es) left' ∧ Lists dir cwd S left' t' := by
  have hmem : journalName ∈ pair journalName := by decide
  induction es generalizing t all left with
  | nil => exact ⟨t, left, rfl, by simpa using htail, h.lists hmem hfile⟩
  | cons e es ih =>
    obtain ⟨t₁, hrecord, halters, hjournal⟩ := h.recordFinished (h.makeFolders hmem (by decide)) e
    have hfile₁ := hjournal _ hfile (h.journalText hmem hfile)
    rw [added_listing] at hfile₁
    obtain ⟨t', left', hall, htail', hlists⟩ := ih (h.writes halters) hfile₁ (htail.record e)
    refine ⟨t', left', ?_, by simpa using htail', hlists⟩
    rw [recordAll_cons hrecord, hall]
    rfl

/-- **The journal has the newest sessions.**  Where nothing hinders it from being written, a journal
    takes every session; it has the last ones of them all, in order, at least 501 and at most 1000
    of them once there are as many, each on a line of its own; and it shows as many of these as one
    asks for. -/
theorem journal_has_newest (dir : StateDir) (cwd S : Loc) (t made : Tree) (hform : t.WellFormed)
    (hopens : Opens (pair journalName) dir cwd S t made)
    (hnew : made.node? (journalName :: S) = none) (es : List Finished) :
    ∃ t' left, recordAll dir cwd t es = (t', es.map fun _ => .ok ()) ∧ IsTail es left ∧
      Lists dir cwd S left t' := by
  have hmem : journalName ∈ pair journalName := by decide
  cases es with
  | nil => exact ⟨t, [], rfl, isTail_nil, hopens.lists_nil hmem hnew⟩
  | cons e es =>
    -- the first session makes the directory
    have hserves := hopens.serves hform
    obtain ⟨t₁, hrecord, halters, hjournal⟩ := hserves.recordFinished hopens.makes e
    have hfile := hjournal (listing []) (.inl ⟨hnew, rfl⟩) (hopens.journalText_new hmem hnew)
    rw [added_listing] at hfile
    obtain ⟨t', left, hall, htail, hlists⟩ :=
      (hserves.writes halters).recordAll hfile (isTail_nil.record e) es
    refine ⟨t', left, ?_, by simpa using htail, hlists⟩
    rw [recordAll_cons hrecord, hall]
    rfl

/-- Sessions of which the texts have line ends in them. -/
theorem oddFinished_journalled :
    ∃ t' left, recordAll ⟨"state"⟩ [] Tree.empty [oddFinished, oddFinished] =
      (t', [.ok (), .ok ()]) ∧
      IsTail [oddFinished, oddFinished] left ∧ Lists ⟨"state"⟩ [] ["state"] left t' :=
  journal_has_newest ⟨"state"⟩ [] ["state"] Tree.empty stateTree Tree.wellFormed_empty
    (opens_stateTree pair_journal) (by decide +kernel) [oddFinished, oddFinished]

/-! ## A journal that cannot be cut -/

theorem isFull_listing_long {e : Finished} (h : maxBytes ≤ e.sessionId.toList.length) :
    isFull (listing [e]) = true := by
  have hchars : e.sessionId.toList.length ≤ e.encode.toList.length :=
    Json.length_le_compact (List.mem_cons_self ..)
  have hbytes := Text.length_le_utf8ByteSize (listing [e]).toList
  rw [String.ofList_toList, toList_listing, List.flatMap_singleton, wholeLine, List.length_append,
    List.length_singleton] at hbytes
  rw [isFull, Bool.or_eq_true, decide_eq_true_eq, decide_eq_true_eq]
  right
  omega

/-- **A full journal takes no more sessions** where its temporary file is a directory. -/
theorem Serves.recordFinished_blocked (h : Serves [journalName] dir cwd S t) {text : String}
    (hfile : IsJournal S text t) (hfull : isFull text = true)
    (htemp : Names t cwd (dir.file (temporary journalName)) S (temporary journalName))
    (hblocked : t.node? (temporary journalName :: S) = some .folder) (e : Finished) :
    dir.recordFinished cwd e t = (t, .error .isADirectory) := by
  have hmem : journalName ∈ [journalName] := by decide
  rw [StateDir.recordFinished, h.journalText hmem hfile]
  simp only [hfull, if_true]
  rw [StateDir.replace, h.makeFolders hmem (by decide)]
  simp only [htemp.write_folder (slash_file (by decide)) hblocked]

/-- A state directory in which the temporary file of the journal is a directory. -/
def blockedTree : Tree := stateTree.put [temporary journalName, "state"] .folder

theorem wellFormed_blockedTree : blockedTree.WellFormed :=
  (Tree.wellFormed_empty.put_new rfl (by decide) rfl _).put_new rfl (by decide) rfl _

/-- A finished session with an identifier of `n` characters. -/
def longFinished (n : Nat) : Finished :=
  { oddFinished with sessionId := String.ofList (List.replicate n 'x') }

theorem length_longFinished (n : Nat) : (longFinished n).sessionId.toList.length = n := by
  rw [longFinished, String.toList_ofList, List.length_replicate]

/-- **A session that is not journalled**: the one before it has filled the journal, which cannot be
    cut.  Where there is a file in the place of the state directory, no session is journalled. -/
theorem blockedTree_loses_session :
    (blockedTree.WellFormed ∧ blockedTree.node? [journalName, "state"] = none ∧
      ∃ t', recordAll ⟨"state"⟩ [] blockedTree [longFinished 1048577, oddFinished] =
          (t', [.ok (), .error .isADirectory]) ∧
        ∀ limit, oddFinished ∉ StateDir.history ⟨"state"⟩ [] limit t') ∧
    ∃ t', recordAll ⟨"state"⟩ [] (Tree.empty.put ["state"] (.file Blob.empty)) [oddFinished] =
      (t', [.error .alreadyExists]) := by
  have hnew : blockedTree.node? [journalName, "state"] = none := by decide +kernel
  refine ⟨⟨wellFormed_blockedTree, hnew, ?_⟩, _, rfl⟩
  have hmem : journalName ∈ [journalName] := by decide
  have hserves : Serves [journalName] ⟨"state"⟩ [] ["state"] blockedTree :=
    serves_of_found wellFormed_blockedTree (by decide) (by decide +kernel) (by decide +kernel)
      (by decide +kernel) (fun name hname => by
        rw [List.mem_singleton.mp hname]
        exact Tree.isSlot_of_none hnew)
  have htemp : Names blockedTree [] (StateDir.file ⟨"state"⟩ (temporary journalName)) ["state"]
      (temporary journalName) :=
    names_of_found (by decide +kernel) (by decide +kernel) (by decide) (by decide +kernel)
  -- the first session is added to the journal
  have hempty : IsJournal ["state"] (listing []) blockedTree := .inl ⟨hnew, rfl⟩
  obtain ⟨t₁, b, hfirst, hbytes, hb⟩ := hserves.recordFinished_append
    (hserves.makeFolders hmem (by decide)) (longFinished 1048577) hmem
    (by rw [hserves.journalText hmem hempty]; decide)
  have halters := alters_of_becomes hb (Tree.isSlot_of_file hb.here)
  have hserves₁ := hserves.writes halters
  have hfile : IsJournal ["state"] (listing [longFinished 1048577]) t₁ := by
    refine .inr ⟨b, hb.here, ?_⟩
    rw [hbytes, bytes_blobAt hempty, ← List.nil_append [longFinished 1048577], listing_concat]
    simp [String.append_assoc]
  -- the second one is not
  have hfull : isFull (listing [longFinished 1048577]) = true :=
    isFull_listing_long (by rw [length_longFinished, maxBytes]; omega)
  have hblocked : t₁.node? [temporary journalName, "state"] = some .folder :=
    hb.elsewhere _ (by decide)
  have hsecond := hserves₁.recordFinished_blocked hfile hfull (htemp.mono (hserves.keeps halters))
    hblocked oddFinished
  refine ⟨t₁, ?_, fun limit hlost => ?_⟩
  · rw [recordAll_cons hfirst, recordAll_cons hsecond]
    rfl
  · have hhas := ((hserves₁.lists hmem hfile).history limit).1.subset hlost
    have hid := congrArg (fun e : Finished => e.sessionId.toList.length)
        (List.mem_singleton.mp hhas)
    rw [length_longFinished] at hid
    exact absurd hid (by decide)

end StateDir

end Concolic
