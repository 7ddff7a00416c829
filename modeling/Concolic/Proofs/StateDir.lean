import Concolic.Proofs.Records
import Concolic.Proofs.Tree.Entry
import Concolic.StateDir

/-
  The files of a state directory.

  `Serves` says of some of the four files that their paths lead into one directory in which they are
  free or regular files, and `Ready` says it of all.  What the directory does with these files then
  succeeds, and changes nothing else.
-/

namespace Concolic

namespace Text

/-! ## Lines -/

theorem lines_ended (cs : List Char) : lines (cs ++ ['\n']) = (splitOn '\n' cs).map dropReturn := by
  rw [lines, splitOn_append_cons, splitOn_nil]
  simp

theorem lines_append_line {cs line : List Char} (hcs : cs = [] ∨ ∃ init, cs = init ++ ['\n'])
    (hline : '\n' ∉ line) (hreturn : line.getLast? ≠ some '\r') :
    lines (cs ++ (line ++ ['\n'])) = lines cs ++ [line] := by
  have hkeep : dropReturn line = line := if_neg hreturn
  rcases hcs with rfl | ⟨init, rfl⟩
  · rw [List.nil_append, lines_ended, splitOn_of_not_mem hline]
    simp [hkeep, lines, splitOn_nil]
  · rw [lines_ended, ← List.append_assoc, lines_ended, List.append_assoc, List.singleton_append,
      splitOn_append_cons, splitOn_of_not_mem hline, List.map_append]
    simp [hkeep]

end Text

namespace StateDir

open Concolic.Tree (Becomes IsLeaf IsSlot Keeps Names SameOutside)

variable {dir : StateDir} {cwd S : Loc} {t t' : Tree} {name : String}

/-! ## The directory -/

/-- The names of the files of a state directory. -/
def fileNames : List String := [currentName, journalName, temporary currentName,
    temporary journalName]

theorem isPlain_of_mem (h : name ∈ fileNames) : Path.IsPlain name := by
  have hplain : ∀ name ∈ fileNames, name ≠ "" ∧ '/' ∉ name.toList := by decide
  exact ⟨(hplain name h).1, (hplain name h).2⟩

/-- A file and the temporary one under which it is written. -/
def pair (name : String) : List String := [name, temporary name]

theorem pair_current : ∀ name ∈ pair currentName, name ∈ fileNames := by decide

theorem pair_journal : ∀ name ∈ pair journalName, name ∈ fileNames := by decide

/-- The paths of the files lead into the directory `S`, in which they are free or regular files. -/
structure Serves (files : List String) (dir : StateDir) (cwd S : Loc) (t : Tree) : Prop where
  names : ∀ name ∈ files, Names t cwd (dir.file name) S name
  folder : t.node? S = some .folder
  slots : ∀ name ∈ files, IsSlot t (name :: S)
  leaves : ∀ name ∈ files, IsLeaf t (name :: S)

/-- The directory serves all of its files. -/
abbrev Ready (dir : StateDir) (cwd S : Loc) (t : Tree) : Prop := Serves fileNames dir cwd S t

/-- Nothing but the files changes, and they are free or regular files. -/
structure Alters (files : List String) (S : Loc) (t t' : Tree) : Prop where
  slots : ∀ name ∈ files, IsSlot t' (name :: S)
  elsewhere : ∀ loc, (∀ name ∈ files, loc ≠ name :: S) → t'.node? loc = t.node? loc

/-- Nothing but files of the state directory changes, and they are free or regular files. -/
abbrev Writes (S : Loc) (t t' : Tree) : Prop := Alters fileNames S t t'

section Serves

variable {files files' : List String}

theorem not_isBelow_file {n : String} : Tree.isBelow (name :: S) (n :: S) = false := by
  cases hbelow : Tree.isBelow (name :: S) (n :: S) with
  | false => rfl
  | true =>
    simp only [Tree.isBelow, Bool.and_eq_true, decide_eq_true_eq] at hbelow
    exact absurd (hbelow.1.eq_of_length rfl) hbelow.2

theorem Alters.trans {t'' : Tree} (h : Alters files S t t') (h' : Alters files S t' t'') :
    Alters files S t t'' :=
  ⟨h'.slots, fun loc hloc => (h'.elsewhere loc hloc).trans (h.elsewhere loc hloc)⟩

theorem Serves.subset (h : Serves files dir cwd S t) (hsub : ∀ name ∈ files', name ∈ files) :
    Serves files' dir cwd S t :=
  ⟨fun name hname => h.names name (hsub name hname), h.folder,
    fun name hname => h.slots name (hsub name hname),
    fun name hname => h.leaves name (hsub name hname)⟩

theorem Serves.widen (h : Serves files dir cwd S t) (ha : Alters files' S t t')
    (hsub : ∀ name ∈ files', name ∈ files) : Alters files S t t' := by
  refine ⟨fun name hname => ?_, fun loc hloc => ha.elsewhere loc fun n hn => hloc n (hsub n hn)⟩
  by_cases hmem : name ∈ files'
  · exact ha.slots name hmem
  · intro node hnode
    rw [ha.elsewhere _ ?_] at hnode
    · exact h.slots name hname node hnode
    · rintro n hn heq
      obtain ⟨rfl, -⟩ := List.cons.inj heq
      exact hmem hn

theorem Serves.keeps (h : Serves files dir cwd S t) (ha : Alters files S t t') : Keeps t t' := by
  intro loc node hnode hroad
  rw [ha.elsewhere loc ?_, hnode]
  rintro name hname rfl
  rw [(h.slots name hname).not_isRoad node hnode] at hroad
  cases hroad

theorem Serves.writes (h : Serves files dir cwd S t) (ha : Alters files S t t') :
    Serves files dir cwd S t' := by
  refine ⟨fun name hname => (h.names name hname).mono (h.keeps ha), h.keeps ha _ _ h.folder rfl,
    ha.slots, fun name hname loc hbelow => ?_⟩
  rw [ha.elsewhere loc ?_, h.leaves name hname loc hbelow]
  rintro n - rfl
  rw [not_isBelow_file] at hbelow
  cases hbelow

theorem Alters.linkFree (ha : Alters files S t t') (hfree : t.LinkFree) : t'.LinkFree := by
  intro loc target hnode
  by_cases hmine : ∃ n ∈ files, loc = n :: S
  · obtain ⟨n, hn, rfl⟩ := hmine
    obtain ⟨b, hb⟩ := ha.slots n hn _ hnode
    cases hb
  · rw [ha.elsewhere loc fun n hn heq => hmine ⟨n, hn, heq⟩] at hnode
    exact hfree loc target hnode

theorem Serves.wellFormed (h : Serves files dir cwd S t) (hform : t.WellFormed)
    (ha : Alters files S t t') : t'.WellFormed := by
  have hfolder : t'.node? S = some .folder := (h.writes ha).folder
  -- a name outside of the state directory is as it was
  have hcases : ∀ {name d node}, t'.node? (name :: d) = some node →
      d = S ∧ (∃ b, node = .file b) ∨ t.node? (name :: d) = some node := by
    intro name d node hnode
    by_cases hmine : ∃ n ∈ files, name :: d = n :: S
    · obtain ⟨n, hn, heq⟩ := hmine
      rw [heq] at hnode
      exact .inl ⟨(List.cons.inj heq).2, ha.slots n hn node hnode⟩
    · rw [ha.elsewhere _ fun n hn heq => hmine ⟨n, hn, heq⟩] at hnode
      exact .inr hnode
  constructor
  · intro name d node hnode
    rcases hcases hnode with ⟨rfl, -⟩ | hold
    · rw [Tree.isFolderAt, hfolder]
      rfl
    · exact (h.keeps ha).isFolderAt (hform.placed hold)
  · intro name d node hsealed hnode
    rcases hcases hnode with ⟨rfl, -⟩ | hold
    · rw [hfolder] at hsealed
      cases hsealed
    · refine hform.guarded ?_ hold
      rw [← ha.elsewhere d ?_, hsealed]
      rintro n hn rfl
      obtain ⟨b, hb⟩ := ha.slots n hn _ hsealed
      cases hb

theorem isSuffix_of_isBelow {dir loc : Loc} (h : Tree.isBelow dir loc = true) : dir <:+ loc := by
  simp only [Tree.isBelow, Bool.and_eq_true, decide_eq_true_eq] at h
  exact h.1

theorem Serves.transfer (h : Serves files dir cwd S t) (hkeeps : Keeps t t')
    (hsame : ∀ name ∈ files, ∀ loc, name :: S <:+ loc → t'.node? loc = t.node? loc) :
    Serves files dir cwd S t' := by
  refine ⟨fun name hname => (h.names name hname).mono hkeeps, hkeeps _ _ h.folder rfl,
    fun name hname node hnode => ?_, fun name hname loc hbelow => ?_⟩
  · rw [hsame name hname _ (List.suffix_refl _)] at hnode
    exact h.slots name hname node hnode
  · rw [hsame name hname loc (isSuffix_of_isBelow hbelow)]
    exact h.leaves name hname loc hbelow

theorem slash_file (hname : name ∈ fileNames) : (Path.route (dir.file name)).slash = false := by
  rw [file, Path.route_join dir.root (isPlain_of_mem hname)]

theorem makeFolders_of_names (h : Names t cwd (dir.file name) S name) (hknown : name ∈ fileNames) :
    t.makeFolders cwd dir.root = (t, .ok ()) := by
  obtain ⟨-, -, hempty | hreach⟩ := h.parent (isPlain_of_mem hknown)
  · rw [hempty]
    exact Tree.makeFolders_empty t cwd
  · exact hreach.makeFolders

theorem Serves.makeFolders (h : Serves files dir cwd S t) (hname : name ∈ files)
    (hknown : name ∈ fileNames) : t.makeFolders cwd dir.root = (t, .ok ()) :=
  makeFolders_of_names (h.names name hname) hknown

end Serves

/-! ## A directory that may have to be made -/

/-- The directory is there or can be made, and then the paths of the files lead into it, where they
    are free or regular files. -/
structure Opens (files : List String) (dir : StateDir) (cwd S : Loc) (t made : Tree) : Prop where
  makes : t.makeFolders cwd dir.root = (made, .ok ())
  names : ∀ name ∈ files, Names made cwd (dir.file name) S name
  folder : made.node? S = some .folder
  slots : ∀ name ∈ files, IsSlot made (name :: S)

section Opens

variable {files : List String} {made : Tree}

section Opened

variable (h : Opens files dir cwd S t made)
include h

theorem Opens.adds : Tree.Adds t made := by
  have hadds := Tree.adds_makeFolders t cwd dir.root
  rwa [h.makes] at hadds

theorem Opens.wellFormed (hform : t.WellFormed) : made.WellFormed := by
  have hmade := hform.makeFirst cwd (Tree.ancestors (dir.root.length + 1) dir.root)
  rwa [← Tree.makeFolders, h.makes] at hmade

theorem Opens.serves (hform : t.WellFormed) : Serves files dir cwd S made :=
  ⟨h.names, h.folder, h.slots, fun name hname =>
    (h.wellFormed hform).isLeaf (h.slots name hname).isFolderAt⟩

theorem Opens.readText_free (hname : name ∈ files) (hfree : made.node? (name :: S) = none) :
    ∃ f, t.readText cwd (dir.file name) = .error f :=
  (h.names name hname).readText_before hfree h.adds.within

end Opened

theorem names_of_found (hfind : (t.lookup cwd true dir.root).toOption = some S)
    (hfolder : t.node? S = some .folder) (hknown : name ∈ fileNames)
    (hroom : (dir.file name).utf8ByteSize ≤ Tree.maxPath) : Names t cwd (dir.file name) S name := by
  have hlookup : t.lookup cwd true dir.root = .ok S := by
    cases hfound : t.lookup cwd true dir.root with
    | error f =>
      rw [hfound] at hfind
      cases hfind
    | ok loc =>
      rw [hfound] at hfind
      cases hfind
      rfl
  have hreach := Tree.reaches_of_lookup hlookup rfl (by rw [Tree.isFolderAt, hfolder]; rfl)
  have hnames : ∀ name ∈ fileNames, name ≠ "." ∧ name ≠ ".." ∧ name.utf8ByteSize ≤ Tree.maxName ∧
      '\x00' ∉ name.toList := by decide +kernel
  have hplain := isPlain_of_mem hknown
  obtain ⟨hdot, hup, hfits, hnul⟩ := hnames name hknown
  exact hreach.names hplain ⟨hdot, hup, hfits⟩ (Tree.checkText_join hreach.text hplain hnul hroom)

theorem serves_of_found (hform : t.WellFormed) (hknown : ∀ name ∈ files, name ∈ fileNames)
    (hfind : (t.lookup cwd true dir.root).toOption = some S) (hfolder : t.node? S = some .folder)
    (hroom : ∀ name ∈ files, (dir.file name).utf8ByteSize ≤ Tree.maxPath)
    (hslots : ∀ name ∈ files, IsSlot t (name :: S)) : Serves files dir cwd S t :=
  ⟨fun name hname => names_of_found hfind hfolder (hknown name hname) (hroom name hname), hfolder,
    hslots, fun name hname => hform.isLeaf (hslots name hname).isFolderAt⟩

end Opens

/-! ## A place elsewhere -/

/-- The place and the files of the state directory have nothing to do with each other. -/
def Clear (place S : Loc) : Prop :=
  ∀ name ∈ fileNames, ¬ place <:+ name :: S ∧ ¬ name :: S <:+ place

section Clear

variable {place : Loc}

/-- What is inside a file of the state directory, if anything were, is not inside the place. -/
theorem Clear.not_inside (hclear : Clear place S) (hname : name ∈ fileNames) {loc : Loc}
    (hin : name :: S <:+ loc) : ¬ place <:+ loc := by
  intro hplace
  rcases List.suffix_or_suffix_of_suffix hplace hin with hsub | hsub
  · exact (hclear name hname).1 hsub
  · exact (hclear name hname).2 hsub

theorem Ready.outside (h : Ready dir cwd S t) (hclear : Clear place S)
    (hnames : ∀ name ∈ fileNames, Names (t.without place) cwd (dir.file name) S name) :
    Ready dir cwd S (t.without place) := by
  refine ⟨hnames, ?_, fun name hname node hnode => ?_, fun name hname loc hbelow => ?_⟩
  · have hout : ¬ place <:+ S := fun hin =>
      (hclear currentName (by decide)).1 (hin.trans (List.suffix_cons _ S))
    rw [Tree.node?_without t hout, h.folder]
  · rw [Tree.node?_without t (hclear name hname).1] at hnode
    exact h.slots name hname node hnode
  · rw [Tree.node?_without t (hclear.not_inside hname (isSuffix_of_isBelow hbelow))]
    exact h.leaves name hname loc hbelow

theorem Ready.of_without (h : Ready dir cwd S (t.without place)) (hclear : Clear place S)
    (hsame : SameOutside place t t') : Ready dir cwd S t' := by
  refine h.transfer hsame.keeps_without fun name hname loc hin => ?_
  have hout := hclear.not_inside hname hin
  rw [hsame _ hout, Tree.node?_without t hout]

theorem Ready.without (h : Ready dir cwd S (t.without place)) (hclear : Clear place S)
    (hsame : SameOutside place t t') : Ready dir cwd S (t'.without place) := by
  refine h.transfer hsame.keeps_without_both fun name hname loc hin => ?_
  have hout := hclear.not_inside hname hin
  rw [Tree.node?_without t' hout, hsame _ hout, Tree.node?_without t hout]

theorem Writes.without (hw : Writes S t t') (hclear : Clear place S) :
    Writes S (t.without place) (t'.without place) := by
  refine ⟨fun name hname node hnode => hw.slots name hname node ?_, fun loc hloc => ?_⟩
  · rwa [Tree.node?_without t' (hclear name hname).1] at hnode
  · by_cases hin : place <:+ loc
    · by_cases hroot : loc = []
      · rw [hroot]
        rfl
      · rw [Tree.node?_without_inside t' hin hroot, Tree.node?_without_inside t hin hroot]
    · rw [Tree.node?_without t' hin, Tree.node?_without t hin, hw.elsewhere loc hloc]

end Clear

/-! ## Replacing a file -/

/-- The file `name` has been replaced by one with the contents `b`. -/
structure Replaces (S : Loc) (name : String) (b : Blob) (t t' : Tree) : Prop where
  file : t'.node? (name :: S) = some (.file b)
  cleared : t'.node? (temporary name :: S) = none
  elsewhere : ∀ loc, loc ≠ name :: S → loc ≠ temporary name :: S → t'.node? loc = t.node? loc

theorem Replaces.alters {b : Blob} (hr : Replaces S name b t t') : Alters (pair name) S t t' := by
  refine ⟨fun n hn => ?_, fun loc hloc =>
    hr.elsewhere loc (hloc name (by simp [pair])) (hloc _ (by simp [pair]))⟩
  rw [pair, List.mem_cons, List.mem_singleton] at hn
  rcases hn with rfl | rfl
  · exact Tree.isSlot_of_file hr.file
  · exact Tree.isSlot_of_none hr.cleared

theorem alters_of_becomes {node : Option Node} (hb : Becomes t (name :: S) node t')
    (hslot : IsSlot t' (name :: S)) : Alters [name] S t t' := by
  refine ⟨fun n hn => ?_, fun loc hloc => hb.elsewhere loc (hloc name (by simp))⟩
  rwa [List.mem_singleton.mp hn]

/-- **Replacing a file as a whole** succeeds and leaves no temporary file. -/
theorem Serves.replace (h : Serves (pair name) dir cwd S t)
    (hknown : ∀ n ∈ pair name, n ∈ fileNames) (hne : temporary name ≠ name) (bytes : ByteArray) :
    ∃ t' b, dir.replace cwd name bytes t = (t', .ok ()) ∧ b.bytes = bytes ∧
      Replaces S name b t t' := by
  have hname : name ∈ pair name := by simp [pair]
  have htemp : temporary name ∈ pair name := by simp [pair]
  have hseal : t.node? S ≠ some .sealed := by
    rw [h.folder]
    simp
  obtain ⟨written, b, hwrite, hbytes, hbecomes⟩ := (h.names _ htemp).write
    (slash_file (hknown _ htemp)) (h.slots _ htemp) hseal bytes
  -- the tree with the temporary file
  have hserves := h.writes (h.widen (alters_of_becomes hbecomes (Tree.isSlot_of_file hbecomes.here))
    (by simp [pair]))
  have hsync := (hserves.names _ htemp).sync (slash_file (hknown _ htemp)) hbecomes.here
  have hrename := (hserves.names _ htemp).rename (hserves.names _ hname)
    (slash_file (hknown _ htemp)) (slash_file (hknown _ hname)) hne hbecomes.here
    (hserves.slots _ hname)
  obtain ⟨hnew, hold, helse⟩ := Tree.node?_move_sibling hne (hserves.leaves _ htemp)
    (hserves.leaves _ hname)
  refine ⟨_, b, ?_, hbytes, hnew.trans hbecomes.here, hold, fun loc hloc hloc' => ?_⟩
  · rw [StateDir.replace, h.makeFolders hname (hknown _ hname)]
    simp only [hwrite, hsync, hrename]
  · rw [helse loc hloc hloc', hbecomes.elsewhere loc hloc']

theorem Serves.replace_of_makes {files : List String} {made : Tree}
    (h : Serves files dir cwd S made) {n : String} (hn : n ∈ files) (hknown : n ∈ fileNames)
    (hmakes : t.makeFolders cwd dir.root = (made, .ok ())) (name : String) (bytes : ByteArray) :
    dir.replace cwd name bytes t = dir.replace cwd name bytes made := by
  unfold StateDir.replace
  rw [hmakes, h.makeFolders hn hknown]

/-! ## The record of the running session -/

/-- The session `c` is recorded as running. -/
def Recorded (S : Loc) (c : Current) (t : Tree) : Prop :=
  ∃ b, t.node? (currentName :: S) = some (.file b) ∧ b.bytes = c.encode.toUTF8

/-- **Recording a running session**, in a directory that may have to be made first. -/
theorem Serves.writeCurrent {made : Tree} (h : Serves (pair currentName) dir cwd S made)
    (hmakes : t.makeFolders cwd dir.root = (made, .ok ())) (c : Current) :
    ∃ t', dir.writeCurrent cwd c t = (t', .ok ()) ∧ Alters (pair currentName) S made t' ∧
      Recorded S c t' := by
  obtain ⟨t', b, hreplace, hbytes, hr⟩ := h.replace pair_current (by decide) c.encode.toUTF8
  refine ⟨t', ?_, hr.alters, b, hr.file, hbytes⟩
  rw [← hreplace]
  exact h.replace_of_makes (n := currentName) (by decide) (by decide) hmakes _ _

theorem current?_eq (dir : StateDir) (cwd : Loc) (t : Tree) :
    dir.current? cwd t = match t.readText cwd (dir.file currentName) with
      | .ok text => Current.decode? text
      | .error _ => none := rfl

section Record

variable {files : List String} (h : Serves files dir cwd S t) (hmem : currentName ∈ files)
include h hmem

theorem Serves.current?_of_recorded {c : Current} (hc : Recorded S c t) :
    dir.current? cwd t = some c := by
  obtain ⟨b, hfile, hbytes⟩ := hc
  rw [current?_eq, (h.names _ hmem).readText_file (slash_file (by decide)) hfile, hbytes,
    Lock.fromUTF8?_toUTF8]
  exact Current.decode?_encode c

theorem Serves.current?_of_none (hnone : t.node? (currentName :: S) = none) :
    dir.current? cwd t = none := by
  rw [current?_eq, (h.names _ hmem).readText_none hnone]

/-- **Removing the record of a running session**, whether or not there is one. -/
theorem Serves.clearCurrent : Tree.Becomes t (currentName :: S) none (dir.clearCurrent cwd t) := by
  unfold StateDir.clearCurrent
  rcases (h.slots _ hmem).cases with hnone | ⟨b, hfile⟩
  · simp only [(h.names _ hmem).removeFile_none hnone]
    exact ⟨hnone, fun _ _ => rfl⟩
  · simp only [(h.names _ hmem).removeFile (slash_file (by decide)) hfile rfl]
    exact Tree.becomes_erase t (List.cons_ne_nil _ _)

end Record

/-! ## The journal -/

/-- The journal is the text `text`; a missing one counts as empty. -/
def IsJournal (S : Loc) (text : String) (t : Tree) : Prop :=
  t.node? (journalName :: S) = none ∧ text = "" ∨
    ∃ b, t.node? (journalName :: S) = some (.file b) ∧ b.bytes = text.toUTF8

/-- What is left of a journal when a line is added. -/
def kept (journal : String) : String :=
  if isFull journal then
    String.ofList (Text.joinWith '\n' (newest keepLines (Text.lines journal.toList))) ++ "\n"
  else journal

/-- **The new line of a journal** is one line after those that are kept. -/
theorem lines_kept_append {text : String} (htext : text = "" ∨ ∃ init, text.toList = init ++ ['\n'])
    (entry : Finished) :
    Text.lines (kept text ++ entry.encode ++ "\n").toList =
      Text.lines (kept text).toList ++ [entry.encode.toList] := by
  have hkept : (kept text).toList = [] ∨ ∃ init, (kept text).toList = init ++ ['\n'] := by
    rw [kept]
    split
    · rw [String.toList_append]
      exact .inr ⟨_, rfl⟩
    · rcases htext with rfl | hended
      · exact .inl rfl
      · exact .inr hended
  rw [String.toList_append, String.toList_append, List.append_assoc]
  exact Text.lines_append_line hkept entry.newline_not_mem_encode fun hlast =>
    entry.return_not_mem_encode (List.mem_of_getLast? hlast)

theorem journalText_eq (dir : StateDir) (cwd : Loc) (t : Tree) :
    dir.journalText cwd t = match t.readText cwd (dir.file journalName) with
      | .ok journal => journal
      | .error _ => "" := rfl

section Journal

variable {files : List String} {text : String}

theorem Serves.journalText (h : Serves files dir cwd S t) (hmem : journalName ∈ files)
    (hj : IsJournal S text t) : dir.journalText cwd t = text := by
  rcases hj with ⟨hnone, rfl⟩ | ⟨b, hfile, hbytes⟩
  · rw [journalText_eq, (h.names _ hmem).readText_none hnone]
  · rw [journalText_eq, (h.names _ hmem).readText_file (slash_file (by decide)) hfile, hbytes,
      Lock.fromUTF8?_toUTF8]
    rfl

theorem Serves.readText_journal (h : Serves files dir cwd S t) (hmem : journalName ∈ files)
    (htext : text ≠ "") (hj : IsJournal S text t) :
    t.readText cwd (dir.file journalName) = .ok text := by
  rcases hj with ⟨-, hempty⟩ | ⟨b, hfile, hbytes⟩
  · exact absurd hempty htext
  · rw [(h.names _ hmem).readText_file (slash_file (by decide)) hfile, hbytes,
      Lock.fromUTF8?_toUTF8]
    rfl

theorem bytes_blobAt (hj : IsJournal S text t) :
    (t.blobAt (journalName :: S)).bytes = text.toUTF8 := by
  rcases hj with ⟨hnone, rfl⟩ | ⟨b, hfile, hbytes⟩
  · rw [Tree.blobAt, Tree.blob?, hnone]
    rfl
  · rw [Tree.blobAt, Tree.blob?, hfile]
    exact hbytes

variable {made : Tree} (hmakes : t.makeFolders cwd dir.root = (made, .ok ())) (entry : Finished)
include hmakes

theorem Serves.recordFinished_append (h : Serves files dir cwd S made) (hmem : journalName ∈ files)
    (hroom : isFull (dir.journalText cwd t) = false) :
    ∃ t' b, dir.recordFinished cwd entry t = (t', .ok ()) ∧
      b.bytes = (made.blobAt (journalName :: S)).bytes ++ (entry.encode ++ "\n").toUTF8 ∧
      Becomes made (journalName :: S) (some (.file b)) t' := by
  have hseal : made.node? S ≠ some .sealed := by
    rw [h.folder]
    simp
  obtain ⟨t', b, happend, hbytes, hbecomes⟩ := (h.names _ hmem).append (slash_file (by decide))
    (h.slots _ hmem) hseal (entry.encode ++ "\n").toUTF8
  refine ⟨t', b, ?_, hbytes, hbecomes⟩
  rw [StateDir.recordFinished]
  simp only [hroom, Bool.false_eq_true, if_false, hmakes, happend]

theorem Serves.recordFinished_rotate (h : Serves (pair journalName) dir cwd S made)
    (hfull : isFull (dir.journalText cwd t) = true) :
    ∃ t' b, dir.recordFinished cwd entry t = (t', .ok ()) ∧
      b.bytes = (rotated (dir.journalText cwd t) entry.encode).toUTF8 ∧
      Replaces S journalName b made t' := by
  obtain ⟨t', b, hreplace, hbytes, hr⟩ := h.replace pair_journal (by decide)
    (rotated (dir.journalText cwd t) entry.encode).toUTF8
  refine ⟨t', b, ?_, hbytes, hr⟩
  have hmem : journalName ∈ pair journalName := by decide
  rw [StateDir.recordFinished, ← hreplace, ← h.replace_of_makes hmem (by decide) hmakes]
  simp only [hfull, if_true]

/-- **Adding a finished session to the journal** succeeds, and adds one line to what
    is kept of it. -/
theorem Serves.recordFinished (h : Serves (pair journalName) dir cwd S made) :
    ∃ t', dir.recordFinished cwd entry t = (t', .ok ()) ∧ Alters (pair journalName) S made t' ∧
      ∀ text, IsJournal S text made → dir.journalText cwd t = text →
        IsJournal S (kept text ++ entry.encode ++ "\n") t' := by
  have hmem : journalName ∈ pair journalName := by decide
  cases hfull : isFull (dir.journalText cwd t) with
  | true =>
    obtain ⟨t', b, hrecord, hbytes, hr⟩ := h.recordFinished_rotate hmakes entry hfull
    refine ⟨t', hrecord, hr.alters, fun text hj htext => .inr ⟨b, hr.file, ?_⟩⟩
    rw [htext] at hfull hbytes
    rw [hbytes, kept, hfull, rotated]
    rfl
  | false =>
    obtain ⟨t', b, hrecord, hbytes, hb⟩ := h.recordFinished_append hmakes entry hmem hfull
    refine ⟨t', hrecord, h.widen (alters_of_becomes hb (Tree.isSlot_of_file hb.here))
      (by simp [pair]),
      fun text hj htext => .inr ⟨b, hb.here, ?_⟩⟩
    rw [htext] at hfull
    rw [hbytes, bytes_blobAt hj, kept, hfull]
    simp [String.append_assoc]

end Journal

/-! ## What is written can be read -/

/-- **Records are read back as they were written.**  Writing the record of a running session, in
    whatever directory serves it, and reading it gives the record; the line of a finished session is
    one line and is read as that session. -/
theorem records_read_back (c : Current) (f : Finished) :
    (Current.decode? c.encode = some c ∧
      ∀ (dir : StateDir) (cwd S : Loc) (t made : Tree), t.WellFormed →
        Opens (pair currentName) dir cwd S t made →
        ∃ t', dir.writeCurrent cwd c t = (t', .ok ()) ∧ dir.current? cwd t' = some c) ∧
    '\n' ∉ f.encode.toList ∧ '\r' ∉ f.encode.toList ∧ Finished.decode? f.encode = some f := by
  refine ⟨⟨Current.decode?_encode c, ?_⟩, f.newline_not_mem_encode, f.return_not_mem_encode,
    Finished.decode?_encode f⟩
  intro dir cwd S t made hform hopens
  have hserves := hopens.serves hform
  obtain ⟨t', hwrite, halters, hrecorded⟩ := hserves.writeCurrent hopens.makes c
  exact ⟨t', hwrite, (hserves.writes halters).current?_of_recorded (by decide) hrecorded⟩

/-- A state directory and nothing else. -/
def stateTree : Tree := Tree.empty.put ["state"] .folder

theorem opens_stateTree {files : List String} (hknown : ∀ name ∈ files, name ∈ fileNames) :
    Opens files ⟨"state"⟩ [] ["state"] Tree.empty stateTree := by
  have hroom : ∀ name ∈ fileNames, (StateDir.file ⟨"state"⟩ name).utf8ByteSize ≤ Tree.maxPath := by
    decide +kernel
  have hfree : ∀ name ∈ fileNames, stateTree.node? [name, "state"] = none := by decide +kernel
  exact ⟨rfl, fun name hname => names_of_found (by decide +kernel) rfl (hknown name hname)
      (hroom name (hknown name hname)), rfl,
    fun name hname => Tree.isSlot_of_none (hfree name (hknown name hname))⟩

/-- A record of a running session with all kinds of characters in it and numbers at their limits. -/
def oddCurrent : Current :=
  { sessionId := "\"\\/", entryPoint := "\x00\x1f\x7f", workDir := "a\nb\r\n\tc",
    command := "😀é\u2028"
    status := "aborted: \x7b\x7d[],:", iteration := 4294967295, budget := 0
    lastExit := some (-2147483648), historyPresent := true, backtrackPresent := false
    startedAt := "", elapsedSecs := 18446744073709551615 }

/-- A finished session with line ends in its texts. -/
def oddFinished : Finished :=
  { sessionId := "a\nb", entryPoint := "c\r\n", invocations := 4294967295, outcome := "\"",
    completedAt := "\\n" }

theorem oddCurrent_read_back :
    (∃ t', StateDir.writeCurrent ⟨"state"⟩ [] oddCurrent Tree.empty = (t', .ok ()) ∧
      StateDir.current? ⟨"state"⟩ [] t' = some oddCurrent) ∧
    '\n' ∉ oddFinished.encode.toList ∧ Finished.decode? oddFinished.encode = some oddFinished := by
  obtain ⟨⟨-, hwritten⟩, hline, -, hread⟩ := records_read_back oddCurrent oddFinished
  exact ⟨hwritten _ _ _ _ _ Tree.wellFormed_empty (opens_stateTree pair_current), hline, hread⟩

end StateDir

end Concolic
