import Concolic.Proofs.Rotation
import Concolic.Proofs.Tree.Course
import Concolic.Recorder

/-
  What readers find while a state directory is written to.

  The record and the journal are read by other processes at any time, and the process that writes
  them may stop anywhere.  `writing`, `recording` and `completing` are the courses of the operations
  on them, with the trees in which readers may find these.
-/

namespace Concolic.StateDir

open Concolic.Tree (Adds Becomes Course IsName IsSlot Keeps Names bind_eq_ok contents?)

variable {dir : StateDir} {cwd S d loc : Loc} {t made u : Tree} {name other : String}
  {bytes : ByteArray} {entry : Finished}

/-! ## The operations of a state directory -/

/-- Giving a file new contents as a whole. -/
def replacing (dir : StateDir) (cwd : Loc) (name : String) (bytes : ByteArray) : Course :=
  (Course.makeFolders cwd dir.root).andThen <|
    (Course.write cwd (dir.file (temporary name)) bytes).andThen <|
      (Course.sync cwd (dir.file (temporary name))).andThen <|
        Course.step fun t => t.rename cwd (dir.file (temporary name)) (dir.file name)

/-- Recording the running session. -/
def writing (dir : StateDir) (cwd : Loc) (c : Current) : Course :=
  dir.replacing cwd currentName c.encode.toUTF8

/-- Adding a line to a journal that has room for it. -/
def appending (dir : StateDir) (cwd : Loc) (entry : Finished) : Course :=
  (Course.makeFolders cwd dir.root).andThen <|
    Course.append cwd (dir.file journalName) (entry.encode ++ "\n").toUTF8

/-- Cutting a journal that reads as `journal` and adding a line to it. -/
def rotating (dir : StateDir) (cwd : Loc) (entry : Finished) (journal : String) : Course :=
  dir.replacing cwd journalName (rotated journal entry.encode).toUTF8

/-- Adding a finished session to the journal, which is read first. -/
def recording (dir : StateDir) (cwd : Loc) (entry : Finished) : Course where
  visits t u :=
    isFull (dir.journalText cwd t) = true ∧
      (dir.rotating cwd entry (dir.journalText cwd t)).visits t u ∨
    isFull (dir.journalText cwd t) = false ∧ (dir.appending cwd entry).visits t u
  ends t u :=
    isFull (dir.journalText cwd t) = true ∧
      (dir.rotating cwd entry (dir.journalText cwd t)).ends t u ∨
    isFull (dir.journalText cwd t) = false ∧ (dir.appending cwd entry).ends t u
  starts t := by
    cases isFull (dir.journalText cwd t) with
    | true => exact .inl ⟨rfl, Course.starts _ t⟩
    | false => exact .inr ⟨rfl, Course.starts _ t⟩
  arrives t u h := by
    rcases h with ⟨hfull, h⟩ | ⟨hroom, h⟩
    · exact .inl ⟨hfull, Course.arrives _ t u h⟩
    · exact .inr ⟨hroom, Course.arrives _ t u h⟩

/-- Adding a finished session to the journal and removing the record of the running one. -/
def completing (dir : StateDir) (cwd : Loc) (entry : Finished) : Course :=
  (dir.recording cwd entry).andThen <|
    Course.step fun t => t.removeFile cwd (dir.file currentName)

/-- The course is that of an operation: what the operation leaves is a tree of the course, and the
    last one if nothing has failed. -/
structure Follows (c : Course) (t : Tree) (result : Tree × Except Fault Unit) : Prop where
  visits : c.visits t result.1
  ends : result.2 = .ok () → c.ends t result.1

theorem follows_error {c : Course} {f : Fault} (h : c.visits t u) : Follows c t (u, .error f) :=
  ⟨h, fun hok => by cases hok⟩

theorem follows_ok {c : Course} (h : c.ends t u) : Follows c t (u, .ok ()) :=
  ⟨c.arrives t u h, fun _ => h⟩

/-- The course is that of the operation. -/
theorem replacing_follows (dir : StateDir) (cwd : Loc) (name : String) (bytes : ByteArray)
    (t : Tree) : Follows (dir.replacing cwd name bytes) t (dir.replace cwd name bytes t) := by
  have hmakes := Course.visits_makeFolders t cwd dir.root
  rw [StateDir.replace]
  cases hmade : t.makeFolders cwd dir.root with
  | mk made r =>
    rw [hmade] at hmakes
    cases r with
    | error f => exact follows_error (.inl hmakes)
    | ok =>
      cases hwrite : made.write cwd (dir.file (temporary name)) bytes with
      | error f =>
        simp only [hwrite]
        exact follows_error (.inr ⟨made, hmade, .inl (.inl rfl)⟩)
      | ok written =>
        cases hsync : written.sync cwd (dir.file (temporary name)) with
        | error f =>
          simp only [hwrite, hsync]
          exact follows_error (.inr ⟨made, hmade, .inr ⟨written, hwrite, .inl (.inl rfl)⟩⟩)
        | ok =>
          have hstored : (Course.sync cwd (dir.file (temporary name))).ends written written := by
            simp [Course.sync, Course.step, hsync, Except.map]
          cases hrename : written.rename cwd (dir.file (temporary name)) (dir.file name) with
          | error f =>
            simp only [hwrite, hsync, hrename]
            exact follows_error
              (.inr ⟨made, hmade, .inr ⟨written, hwrite, .inr ⟨written, hstored, .inl rfl⟩⟩⟩)
          | ok renamed =>
            simp only [hwrite, hsync, hrename]
            exact follows_ok ⟨made, hmade, written, hwrite, written, hstored, hrename⟩

theorem appending_follows (dir : StateDir) (cwd : Loc) (entry : Finished) (t : Tree)
    (hroom : isFull (dir.journalText cwd t) = false) :
    Follows (dir.appending cwd entry) t (dir.recordFinished cwd entry t) := by
  have hmakes := Course.visits_makeFolders t cwd dir.root
  unfold StateDir.recordFinished
  simp only [hroom, Bool.false_eq_true, if_false]
  cases hmade : t.makeFolders cwd dir.root with
  | mk made r =>
    rw [hmade] at hmakes
    cases r with
    | error f => exact follows_error (.inl hmakes)
    | ok =>
      cases happend : made.append cwd (dir.file journalName) (entry.encode ++ "\n").toUTF8 with
      | error f =>
        simp only [happend]
        exact follows_error (.inr ⟨made, hmade, .inl rfl⟩)
      | ok added =>
        simp only [happend]
        exact follows_ok ⟨made, hmade, happend⟩

/-- The course is that of the operation. -/
theorem recording_follows (dir : StateDir) (cwd : Loc) (entry : Finished) (t : Tree) :
    Follows (dir.recording cwd entry) t (dir.recordFinished cwd entry t) := by
  cases hfull : isFull (dir.journalText cwd t) with
  | true =>
    have hrotate : dir.recordFinished cwd entry t =
        dir.replace cwd journalName (rotated (dir.journalText cwd t) entry.encode).toUTF8 t := by
      unfold StateDir.recordFinished
      simp only [hfull, if_true]
    have h := replacing_follows dir cwd journalName
      (rotated (dir.journalText cwd t) entry.encode).toUTF8 t
    rw [hrotate]
    exact ⟨.inl ⟨hfull, h.visits⟩, fun hok => .inl ⟨hfull, h.ends hok⟩⟩
  | false =>
    have h := appending_follows dir cwd entry t hfull
    exact ⟨.inr ⟨hfull, h.visits⟩, fun hok => .inr ⟨hfull, h.ends hok⟩⟩

theorem completing_visits_notify (r : Recorder) (c : Current) (outcome : Outcome)
    (invocations : UInt32) (t : Tree)
    (hok : (r.dir.recordFinished r.cwd (r.entry c outcome invocations) t).2 = .ok ()) :
    (r.dir.completing r.cwd (r.entry c outcome invocations)).visits t
      (r.notify (.complete outcome invocations) c t).2 := by
  have hends := (recording_follows r.dir r.cwd (r.entry c outcome invocations) t).ends hok
  rw [Recorder.notify]
  generalize (r.dir.recordFinished r.cwd (r.entry c outcome invocations) t).1 = u at hends ⊢
  refine .inr ⟨u, hends, ?_⟩
  simp only [clearCurrent]
  cases hremove : u.removeFile r.cwd (r.dir.file currentName) with
  | error f => exact .inl rfl
  | ok removed => exact .inr hremove

/-! ## Files that can be named -/

/-- Each file of the directory that can be named is free or a regular file with no other name. -/
def Tidy (dir : StateDir) (cwd : Loc) (t : Tree) : Prop :=
  ∀ name ∈ fileNames, ∀ d, Names t cwd (dir.file name) d name → IsSlot t (name :: d)

theorem isName_of_mem (h : name ∈ fileNames) : IsName name := by
  have hnames : ∀ name ∈ fileNames, name ≠ "." ∧ name ≠ ".." ∧
      name.utf8ByteSize ≤ Tree.maxName := by
    decide +kernel
  exact ⟨(hnames name h).1, (hnames name h).2.1, (hnames name h).2.2⟩

theorem steps_file (hname : name ∈ fileNames) :
    (Path.route (dir.file name)).steps = (Path.route dir.root).steps ++ [name] := by
  rw [file, Path.route_join dir.root (isPlain_of_mem hname)]

theorem eq_of_names (hname : name ∈ fileNames) (hother : other ∈ fileNames)
    (h : Names t cwd (dir.file name) S name) (h' : Names t cwd (dir.file other) d other) :
    d = S := by
  obtain ⟨-, ⟨n, -, hlead⟩, -⟩ := Names.parent h (isPlain_of_mem hname)
  obtain ⟨-, ⟨m, -, hlead'⟩, -⟩ := Names.parent h' (isPlain_of_mem hother)
  exact (hlead'.unique hlead).1

theorem names_of_lookup (hname : name ∈ fileNames)
    (h : t.lookup cwd true (dir.file name) = .ok loc) :
    ∃ d, Names t cwd (dir.file name) d name := by
  obtain ⟨a, hres, -, -⟩ := Tree.lookup_eq_ok h
  have htext := Tree.text_of_resolve hres
  rw [Tree.resolve_of_text htext, slash_file hname] at hres
  exact Tree.names_of_walk htext (isName_of_mem hname) (steps_file hname) hres

theorem readBlob_of_names {b : Blob} (hname : name ∈ fileNames)
    (h : Names t cwd (dir.file name) d name) (hfile : t.node? (name :: d) = some (.file b)) :
    t.readBlob cwd (dir.file name) = .ok b := by
  rw [Tree.readBlob, h.lookup_some (slash_file hname) hfile (by simp) true]
  simp only [bind, Except.bind, Tree.readAt, Tree.blob?, hfile]
  rfl

/-- **What a file reads as** is what stands under its name. -/
theorem Tidy.contents?_eq_some (h : Tidy dir cwd t) (hname : name ∈ fileNames) :
    t.contents? cwd (dir.file name) = some bytes ↔ ∃ d b, Names t cwd (dir.file name) d name ∧
      t.node? (name :: d) = some (.file b) ∧ b.bytes = bytes := by
  constructor
  · intro hread
    cases hfind : t.lookup cwd true (dir.file name) with
    | error f =>
      rw [contents?, Tree.readBlob, hfind] at hread
      cases hread
    | ok loc =>
      obtain ⟨d, hnames⟩ := names_of_lookup hname hfind
      rcases (h name hname d hnames).cases with hnone | ⟨b, hfile⟩
      · rw [hnames.lookup_none hnone] at hfind
        cases hfind
      · rw [contents?, readBlob_of_names hname hnames hfile] at hread
        exact ⟨d, b, hnames, hfile, Option.some.inj hread⟩
  · rintro ⟨d, b, hnames, hfile, rfl⟩
    rw [contents?, readBlob_of_names hname hnames hfile]
    rfl

theorem Tidy.contents?_of_keeps (h : Tidy dir cwd t) (h' : Tidy dir cwd u)
    (hname : name ∈ fileNames)
    (hkeeps : Keeps t u) (hsame : ∀ d b, Names t cwd (dir.file name) d name →
      t.node? (name :: d) = some (.file b) → u.node? (name :: d) = some (.file b))
        (hread : t.contents? cwd (dir.file name) = some bytes) :
    u.contents? cwd (dir.file name) = some bytes := by
  obtain ⟨d, b, hnames, hfile, hbytes⟩ := (h.contents?_eq_some hname).mp hread
  exact (h'.contents?_eq_some hname).mpr ⟨d, b, hnames.mono hkeeps, hsame d b hnames hfile, hbytes⟩

/-! ## While directories are made -/

theorem Tidy.of_adds (h : Tidy dir cwd made) (hadds : Adds u made) : Tidy dir cwd u := by
  intro name hname d hnames node hnode
  exact h name hname d (hnames.mono hadds.keeps) node (hadds.within _ _ hnode)

/-- The file reads as it did or as it does once the directories are there.  It may become readable
    only then, as `a/../b` does when `a` is made. -/
theorem Tidy.contents?_making (h : Tidy dir cwd made) (ht : Tidy dir cwd t) (hu : Tidy dir cwd u)
    (hname : name ∈ fileNames) (hearly : Adds t u) (hlate : Adds u made) :
    u.contents? cwd (dir.file name) = t.contents? cwd (dir.file name) ∨
      u.contents? cwd (dir.file name) = made.contents? cwd (dir.file name) := by
  cases hread : u.contents? cwd (dir.file name) with
  | some bytes =>
    exact .inr (hu.contents?_of_keeps h hname hlate.keeps
      (fun d b _ hfile => hlate.within _ _ hfile) hread).symm
  | none =>
    refine .inl ?_
    cases hold : t.contents? cwd (dir.file name) with
    | none => rfl
    | some bytes =>
      rw [ht.contents?_of_keeps hu hname hearly.keeps (fun d b _ hfile => hearly.within _ _ hfile)
        hold] at hread
      cases hread

/-! ## While files are written -/

section Written

variable {files : List String} (h : Serves files dir cwd S made) (htidy : Tidy dir cwd made)
  (ha : Alters files S made u)
include h htidy ha

omit htidy in
theorem Serves.undo : Alters files S u made :=
  ⟨h.slots, fun loc hloc => (ha.elsewhere loc hloc).symm⟩

theorem Serves.tidy : Tidy dir cwd u := by
  intro name hname d hnames
  have hmade := hnames.mono ((h.writes ha).keeps (h.undo ha))
  by_cases hmem : name ∈ files
  · obtain ⟨rfl, -⟩ := hmade.unique (h.names name hmem)
    exact ha.slots name hmem
  · intro node hnode
    rw [ha.elsewhere] at hnode
    · exact htidy name hname d hmade node hnode
    · rintro n hn heq
      exact hmem ((List.cons.inj heq).1 ▸ hn)

theorem Serves.contents?_other (hname : name ∈ fileNames) (hother : name ∉ files) :
    u.contents? cwd (dir.file name) = made.contents? cwd (dir.file name) := by
  have hu := h.tidy htidy ha
  have hsame : ∀ d, u.node? (name :: d) = made.node? (name :: d) := fun d =>
    ha.elsewhere _ fun n hn heq => hother ((List.cons.inj heq).1 ▸ hn)
  refine Option.ext fun bytes => ⟨fun hread => ?_, fun hread => ?_⟩
  · exact hu.contents?_of_keeps htidy hname ((h.writes ha).keeps (h.undo ha))
      (fun d b _ hfile => by rw [← hsame, hfile]) hread
  · exact htidy.contents?_of_keeps hu hname (h.keeps ha)
      (fun d b _ hfile => by rw [hsame, hfile]) hread

end Written

/-! ## The points of a replacement -/

theorem folder_of_file {b : Blob} (hform : t.WellFormed) (h : t.isFolderAt d = true)
    (hfile : t.node? (name :: d) = some (.file b)) : t.node? d = some .folder := by
  obtain ⟨node, hnode, hfolder⟩ := Tree.isFolderAt_iff.mp h
  cases node with
  | folder => exact hnode
  | «sealed» =>
    rcases hform.guarded hnode hfile with hsealed | ⟨device, hdevice⟩
    · cases hsealed
    · cases hdevice
  | _ => cases hfolder

section Named

variable (h : Tidy dir cwd t) (hform : t.WellFormed) (hname : name ∈ fileNames)
include h hform hname

theorem Tidy.serves_one (hnames : Names t cwd (dir.file name) S name)
    (hfolder : t.node? S = some .folder) : Serves [name] dir cwd S t := by
  have hslot := h name hname S hnames
  refine ⟨fun n hn => ?_, hfolder, fun n hn => ?_, fun n hn => ?_⟩
  all_goals rw [List.mem_singleton.mp hn]
  · exact hnames
  · exact hslot
  · exact hform.isLeaf hslot.isFolderAt

theorem Tidy.serves_of_writeLoc (hwrite : t.writeLoc cwd (dir.file name) = .ok loc) :
    ∃ S, Serves [name] dir cwd S t ∧ Names t cwd (dir.file name) S name ∧ IsSlot t (name :: S) ∧
      t.node? S ≠ some .sealed := by
  have hslash : (Path.route (dir.file name)).slash = false := slash_file hname
  obtain ⟨a, hres, -⟩ := bind_eq_ok hwrite
  obtain ⟨⟨⟩, htext, -⟩ := bind_eq_ok hres
  rw [Tree.resolveNew_of_text htext, hslash] at hres
  obtain ⟨S, hnames⟩ := Tree.names_of_walk htext (isName_of_mem hname) (steps_file hname) hres
  have hslot := h name hname S hnames
  have hfolder : t.node? S = some .folder := by
    rcases hslot.cases with hnone | ⟨b, hfile⟩
    · -- nothing could be created in a sealed directory
      obtain ⟨node, hnode, hfolder⟩ := Tree.isFolderAt_iff.mp hnames.folder
      cases node with
      | folder => exact hnode
      | «sealed» =>
        rw [Tree.writeLoc, hnames.resolveNew hslash fun target => by rw [hnone]; simp] at hwrite
        simp [bind, Except.bind, hnone, Tree.sealFault, hnode] at hwrite
      | _ => cases hfolder
    · exact folder_of_file hform hnames.folder hfile
  exact ⟨S, h.serves_one hform hname hnames hfolder, hnames, hslot, by rw [hfolder]; simp⟩

theorem Tidy.of_write
    (hwrite : t.write cwd (dir.file name) bytes = .ok u) : ∃ S b, Serves [name] dir cwd S t ∧
      b.bytes = bytes ∧ Becomes t (name :: S) (some (.file b)) u := by
  obtain ⟨⟨loc, opened⟩, hcreate, -⟩ := bind_eq_ok hwrite
  obtain ⟨loc', hloc, -⟩ := bind_eq_ok hcreate
  obtain ⟨S, hserves, hnames, hslot, hseal⟩ := h.serves_of_writeLoc hform hname hloc
  obtain ⟨t', b, hwrite', hbytes, hb⟩ := hnames.write (slash_file hname) hslot hseal bytes
  rw [hwrite] at hwrite'
  cases hwrite'
  exact ⟨S, b, hserves, hbytes, hb⟩

theorem Tidy.of_create (hcreate : t.create cwd (dir.file name) = .ok (loc, u)) :
    ∃ S b, Serves [name] dir cwd S t ∧ Becomes t (name :: S) (some (.file b)) u := by
  obtain ⟨loc', hloc, hopened⟩ := bind_eq_ok hcreate
  cases hopened
  obtain ⟨S, hserves, hnames, hslot, hseal⟩ := h.serves_of_writeLoc hform hname hloc
  rw [hnames.writeLoc_slot (slash_file hname) hslot hseal] at hloc
  cases hloc
  have hempty : t.emptied (name :: S) =
      t.put (name :: S) (.file ⟨ByteArray.empty, (t.blobAt (name :: S)).runnable⟩) := by
    rw [Tree.emptied, hslot.device?]
    exact hslot.setBlob _
  rw [hempty]
  exact ⟨S, _, hserves, Tree.becomes_put t (List.cons_ne_nil _ _) _⟩

theorem Tidy.of_append (happend : t.append cwd (dir.file name) bytes = .ok u) :
    ∃ S b, Serves [name] dir cwd S t ∧ b.bytes = (t.blobAt (name :: S)).bytes ++ bytes ∧
      Becomes t (name :: S) (some (.file b)) u := by
  obtain ⟨loc, hloc, -⟩ := bind_eq_ok happend
  obtain ⟨S, hserves, hnames, hslot, hseal⟩ := h.serves_of_writeLoc hform hname hloc
  obtain ⟨t', b, happend', hbytes, hb⟩ := hnames.append (slash_file hname) hslot hseal bytes
  rw [happend] at happend'
  cases happend'
  exact ⟨S, b, hserves, hbytes, hb⟩

end Named

theorem replace_of_ends (h : (dir.replacing cwd name bytes).ends t u) :
    dir.replace cwd name bytes t = (u, .ok ()) := by
  obtain ⟨made, hmade, written, hwrite, stored, hsync, hrename⟩ := h
  have hmade' : t.makeFolders cwd dir.root = (made, .ok ()) := hmade
  have hwrite' : made.write cwd (dir.file (temporary name)) bytes = .ok written := hwrite
  have hrename' : stored.rename cwd (dir.file (temporary name)) (dir.file name) = .ok u := hrename
  obtain ⟨rfl, hs⟩ := Course.of_sync hsync
  simp only [StateDir.replace, hmade', hwrite', hs, hrename']

/-- The tree is well-formed, and its files are tidy once the directories have been made. -/
structure Orderly (dir : StateDir) (cwd : Loc) (t : Tree) : Prop where
  wellFormed : t.WellFormed
  tidy : Tidy dir cwd (t.makeFolders cwd dir.root).1

theorem Orderly.before (h : Orderly dir cwd t) : Tidy dir cwd t :=
  h.tidy.of_adds (Tree.adds_makeFolders t cwd dir.root)

theorem Orderly.after (h : Orderly dir cwd t) (hmakes : t.makeFolders cwd dir.root =
    (made, .ok ())) : made.WellFormed ∧ Tidy dir cwd made := by
  have hmade := h.wellFormed.makeFirst cwd (Tree.ancestors (dir.root.length + 1) dir.root)
  rw [← Tree.makeFolders, hmakes] at hmade
  have htidy := h.tidy
  rw [hmakes] at htidy
  exact ⟨hmade, htidy⟩

/-- The directories are being made. -/
structure Making (dir : StateDir) (cwd : Loc) (t u : Tree) : Prop where
  early : Adds t u
  late : Adds u (t.makeFolders cwd dir.root).1

theorem making_made (h : t.makeFolders cwd dir.root = (made, .ok ())) : Making dir cwd t made := by
  have hadds := Tree.adds_makeFolders t cwd dir.root
  refine ⟨?_, ?_⟩
  · rwa [h] at hadds
  · rw [h]
    exact .refl made

theorem Tidy.serves_pair (h : Tidy dir cwd t) (hform : t.WellFormed)
    (hknown : ∀ n ∈ pair name, n ∈ fileNames) (htemp : Serves [temporary name] dir cwd S t)
    (hnames : Names t cwd (dir.file name) d name) : Serves (pair name) dir cwd S t := by
  have hmem : temporary name ∈ pair name := by simp [pair]
  obtain rfl := eq_of_names (hknown _ hmem) (hknown name (by simp [pair]))
    (htemp.names _ (by simp)) hnames
  have hboth : ∀ n ∈ pair name, Names t cwd (dir.file n) d n := by
    intro n hn
    rw [pair, List.mem_cons, List.mem_singleton] at hn
    rcases hn with rfl | rfl
    · exact hnames
    · exact htemp.names _ (by simp)
  exact ⟨hboth, htemp.folder, fun n hn => h n (hknown n hn) d (hboth n hn),
    fun n hn => hform.isLeaf (h n (hknown n hn) d (hboth n hn)).isFolderAt⟩

/-- **A replacement that is complete** has replaced the file as a whole. -/
theorem Orderly.replaced (horder : Orderly dir cwd t)
    (hknown : ∀ n ∈ pair name, n ∈ fileNames) (hne : temporary name ≠ name)
    (h : (dir.replacing cwd name bytes).ends t u) :
    ∃ made S b, t.makeFolders cwd dir.root = (made, .ok ()) ∧ Serves (pair name) dir cwd S made ∧
      b.bytes = bytes ∧ Replaces S name b made u := by
  have hname : name ∈ fileNames := hknown name (by simp [pair])
  have hreplace := replace_of_ends h
  obtain ⟨made, hmade, written, hwrite, stored, hsync, hrename⟩ := h
  have hmakes : t.makeFolders cwd dir.root = (made, .ok ()) := hmade
  obtain ⟨hform, htidy⟩ := horder.after hmakes
  obtain ⟨S, b, hserves, -, hb⟩ := htidy.of_write hform (hknown _ (by simp [pair])) hwrite
  have ha := alters_of_becomes hb (Tree.isSlot_of_file hb.here)
  obtain ⟨rfl, -⟩ := Course.of_sync hsync
  -- the second name can be followed as well, since the renaming has succeeded
  obtain ⟨a, -, hrest⟩ := bind_eq_ok hrename
  obtain ⟨a', hres, -⟩ := bind_eq_ok hrest
  have htext := Tree.text_of_resolve hres
  rw [Tree.resolve_of_text htext, slash_file hname] at hres
  obtain ⟨d, hnames⟩ := Tree.names_of_walk htext (isName_of_mem hname) (steps_file hname) hres
  have hpair := htidy.serves_pair hform hknown hserves
    (hnames.mono ((hserves.writes ha).keeps (hserves.undo ha)))
  obtain ⟨t', b', hreplace', hbytes, hr⟩ := hpair.replace hknown hne bytes
  rw [hpair.replace_of_makes (n := name) (by simp [pair]) hname hmakes, hreplace'] at hreplace
  cases hreplace
  exact ⟨made, S, b', hmakes, hpair, hbytes, hr⟩

/-- **A replacement that is under way** makes directories, or it writes to the temporary file, or it
    is complete. -/
theorem Orderly.replacing_cases (horder : Orderly dir cwd t)
    (htemp : temporary name ∈ fileNames) (h : (dir.replacing cwd name bytes).visits t u) :
    Making dir cwd t u ∨
      (∃ made S, t.makeFolders cwd dir.root = (made, .ok ()) ∧
        Serves [temporary name] dir cwd S made ∧ Alters [temporary name] S made u) ∨
      (dir.replacing cwd name bytes).ends t u := by
  rcases h with hmaking | ⟨made, hmade, hrest⟩
  · obtain ⟨hearly, hlate⟩ := Course.adds_of_makeFolders hmaking
    exact .inl ⟨hearly, hlate⟩
  have hmakes : t.makeFolders cwd dir.root = (made, .ok ()) := hmade
  obtain ⟨hform, htidy⟩ := horder.after hmakes
  have hdraft : ∀ {S b}, Serves [temporary name] dir cwd S made →
      Becomes made (temporary name :: S) (some (.file b)) u →
      ∃ made S, t.makeFolders cwd dir.root = (made, .ok ()) ∧
        Serves [temporary name] dir cwd S made ∧ Alters [temporary name] S made u :=
    fun hserves hb => ⟨made, _, hmakes, hserves, alters_of_becomes hb (Tree.isSlot_of_file hb.here)⟩
  rcases hrest with hwriting | ⟨written, hwrite, hrest⟩
  · rcases hwriting with rfl | ⟨loc, hcreate⟩ | ⟨part, -, hpart⟩
    · exact .inl (making_made hmakes)
    · obtain ⟨S, b, hserves, hb⟩ := htidy.of_create hform htemp hcreate
      exact .inr (.inl (hdraft hserves hb))
    · obtain ⟨S, b, hserves, -, hb⟩ := htidy.of_write hform htemp hpart
      exact .inr (.inl (hdraft hserves hb))
  · obtain ⟨S, b, hserves, -, hb⟩ := htidy.of_write hform htemp hwrite
    rcases hrest with hstoring | ⟨stored, hsync, rfl | hrename⟩
    · obtain rfl : u = written := by
        rcases hstoring with rfl | hsync
        · rfl
        · exact (Course.of_sync hsync).1
      exact .inr (.inl (hdraft hserves hb))
    · obtain ⟨rfl, -⟩ := Course.of_sync hsync
      exact .inr (.inl (hdraft hserves hb))
    · exact .inr (.inr ⟨made, hmade, written, hwrite, stored, hsync, hrename⟩)

/-! ## What the files read as -/

/-- The file reads as it did, perhaps only now that the directories are there. -/
def ReadsAsBefore (dir : StateDir) (cwd : Loc) (name : String) (t u : Tree) : Prop :=
  u.contents? cwd (dir.file name) = t.contents? cwd (dir.file name) ∨
    u.contents? cwd (dir.file name) =
      (t.makeFolders cwd dir.root).1.contents? cwd (dir.file name)

theorem Orderly.making (h : Orderly dir cwd t) (hmaking : Making dir cwd t u)
    (hname : name ∈ fileNames) : ReadsAsBefore dir cwd name t u :=
  h.tidy.contents?_making h.before (h.tidy.of_adds hmaking.late) hname hmaking.early hmaking.late

theorem Orderly.unwritten {files : List String} (h : Orderly dir cwd t)
    (hmakes : t.makeFolders cwd dir.root = (made, .ok ())) (hserves : Serves files dir cwd S made)
    (ha : Alters files S made u) (hname : name ∈ fileNames) (hother : name ∉ files) :
    ReadsAsBefore dir cwd name t u := by
  refine .inr ?_
  rw [hmakes]
  exact hserves.contents?_other (h.after hmakes).2 ha hname hother

/-- **Replacing a file** leaves it as it was or gives it all of its new bytes, and leaves all other
    files as they were. -/
theorem Orderly.replacing (h : Orderly dir cwd t)
    (hknown : ∀ n ∈ pair name, n ∈ fileNames) (hne : temporary name ≠ name)
    (hvisits : (dir.replacing cwd name bytes).visits t u) :
    (ReadsAsBefore dir cwd name t u ∨ u.contents? cwd (dir.file name) = some bytes) ∧
      ∀ other ∈ fileNames, other ∉ pair name → ReadsAsBefore dir cwd other t u := by
  have hname : name ∈ fileNames := hknown name (by simp [pair])
  rcases h.replacing_cases (hknown _ (by simp [pair])) hvisits with
    hmaking | ⟨made, S, hmakes, hserves, ha⟩ | hends
  · exact ⟨.inl (h.making hmaking hname), fun other hother _ => h.making hmaking hother⟩
  · refine ⟨.inl (h.unwritten hmakes hserves ha hname (by simpa using hne.symm)),
      fun other hother hout => h.unwritten hmakes hserves ha hother fun hin => hout ?_⟩
    rw [List.mem_singleton.mp hin]
    simp [pair]
  · obtain ⟨made, S, b, hmakes, hserves, hbytes, hr⟩ := h.replaced hknown hne hends
    refine ⟨.inr ?_, fun other hother hout => h.unwritten hmakes hserves hr.alters hother hout⟩
    have hu := hserves.tidy (h.after hmakes).2 hr.alters
    exact (hu.contents?_eq_some hname).mpr
      ⟨S, b, (hserves.writes hr.alters).names name (by simp [pair]), hr.file, hbytes⟩

/-- **Adding a finished session to the journal** does not touch the record of the running one. -/
theorem Orderly.recording (h : Orderly dir cwd t)
    (hvisits : (dir.recording cwd entry).visits t u) : ReadsAsBefore dir cwd currentName t u := by
  rcases hvisits with ⟨-, hrotating⟩ | ⟨-, happending⟩
  · exact (h.replacing pair_journal (by decide) hrotating).2 currentName (by decide) (by decide)
  · rcases happending with hmaking | ⟨made, hmade, rfl | ⟨part, -, happend⟩⟩
    · obtain ⟨hearly, hlate⟩ := Course.adds_of_makeFolders hmaking
      exact h.making ⟨hearly, hlate⟩ (by decide)
    · exact h.making (making_made hmade) (by decide)
    · obtain ⟨hform, htidy⟩ := h.after hmade
      obtain ⟨S, b, hserves, -, hb⟩ := htidy.of_append hform (by decide) happend
      exact h.unwritten hmade hserves (alters_of_becomes hb (Tree.isSlot_of_file hb.here))
        (by decide) (by decide)

theorem current?_eq_contents (dir : StateDir) (cwd : Loc) (t : Tree) :
    dir.current? cwd t =
      ((t.contents? cwd (dir.file currentName)).bind String.fromUTF8?).bind Current.decode? := by
  rw [← Tree.toOption_readText, current?_eq]
  cases t.readText cwd (dir.file currentName) <;> rfl

theorem history_eq_contents (dir : StateDir) (cwd : Loc) (limit : Nat) (t : Tree) :
    dir.history cwd limit t =
      (((t.contents? cwd (dir.file journalName)).bind String.fromUTF8?).map
        (recent limit)).getD [] := by
  rw [← Tree.toOption_readText, history]
  cases t.readText cwd (dir.file journalName) <;> rfl

theorem journalText_eq_contents (dir : StateDir) (cwd : Loc) (t : Tree) :
    dir.journalText cwd t =
      ((t.contents? cwd (dir.file journalName)).bind String.fromUTF8?).getD "" := by
  rw [← Tree.toOption_readText, journalText_eq]
  cases t.readText cwd (dir.file journalName) <;> rfl

theorem contents?_of_full (h : isFull (dir.journalText cwd t) = true) :
    ∃ bytes, t.contents? cwd (dir.file journalName) = some bytes := by
  cases hread : t.contents? cwd (dir.file journalName) with
  | some bytes => exact ⟨bytes, rfl⟩
  | none =>
    rw [journalText_eq_contents, hread] at h
    exact absurd h (show isFull "" ≠ true by decide)

/-- **A journal that is cut** reads as it did or as all of the new one. -/
theorem Orderly.rotating (h : Orderly dir cwd t) (hfull : isFull (dir.journalText cwd t) = true)
    (hvisits : (dir.recording cwd entry).visits t u) :
    u.contents? cwd (dir.file journalName) = t.contents? cwd (dir.file journalName) ∨
      u.contents? cwd (dir.file journalName) =
        some (rotated (dir.journalText cwd t) entry.encode).toUTF8 := by
  have hrotating : (dir.rotating cwd entry (dir.journalText cwd t)).visits t u := by
    rcases hvisits with ⟨-, hrotating⟩ | ⟨hroom, -⟩
    · exact hrotating
    · rw [hfull] at hroom
      cases hroom
  have hadds := Tree.adds_makeFolders t cwd dir.root
  obtain ⟨bytes, hread⟩ := contents?_of_full hfull
  -- what was there is still there once the directories are made
  have hlater := h.before.contents?_of_keeps h.tidy (by decide) hadds.keeps
    (fun d b _ hfile => hadds.within _ _ hfile) hread
  rcases (h.replacing pair_journal (by decide) hrotating).1 with (hsame | hsame) | hnew
  · exact .inl hsame
  · exact .inl (by rw [hsame, hlater, hread])
  · exact .inr hnew

/-! ## A session that is complete -/

/-- The journal is empty, or text that ends with a line end. -/
def WholeJournal (dir : StateDir) (cwd : Loc) (t : Tree) : Prop :=
  ∀ bytes, t.contents? cwd (dir.file journalName) = some bytes →
    ∃ text : String, bytes = text.toUTF8 ∧ (text = "" ∨ ∃ init, text.toList = init ++ ['\n'])

theorem WholeJournal.text (h : WholeJournal dir cwd t) :
    (dir.journalText cwd t = "" ∨ ∃ init, (dir.journalText cwd t).toList = init ++ ['\n']) ∧
      ∀ bytes, t.contents? cwd (dir.file journalName) = some bytes →
        bytes = (dir.journalText cwd t).toUTF8 := by
  rw [journalText_eq_contents]
  cases hread : t.contents? cwd (dir.file journalName) with
  | none => exact ⟨.inl rfl, fun bytes hb => by cases hb⟩
  | some bytes =>
    obtain ⟨text, rfl, htext⟩ := h bytes hread
    rw [Option.bind_some, Lock.fromUTF8?_toUTF8]
    exact ⟨htext, fun bytes hb => (Option.some.inj hb).symm⟩

theorem recent_one {text : String} (htext : text = "" ∨ ∃ init, text.toList = init ++ ['\n'])
    (entry : Finished) : recent 1 (kept text ++ entry.encode ++ "\n") = [entry] := by
  rw [recent, lines_kept_append htext, newest]
  simp [Finished.decode?_encode]

theorem Orderly.recording_ends (h : Orderly dir cwd t)
    (hends : (dir.recording cwd entry).ends t u) :
    ∃ made files S b, t.makeFolders cwd dir.root = (made, .ok ()) ∧ Serves files dir cwd S made ∧
      Alters files S made u ∧ journalName ∈ files ∧ u.node? (journalName :: S) = some (.file b) ∧
      b.bytes = if isFull (dir.journalText cwd t) then
          (rotated (dir.journalText cwd t) entry.encode).toUTF8
        else (made.blobAt (journalName :: S)).bytes ++ (entry.encode ++ "\n").toUTF8 := by
  rcases hends with ⟨hfull, hrotating⟩ | ⟨hroom, happending⟩
  · obtain ⟨made, S, b, hmakes, hserves, hb, hr⟩ := h.replaced pair_journal (by decide) hrotating
    refine ⟨made, pair journalName, S, b, hmakes, hserves, hr.alters, by decide, hr.file, ?_⟩
    rw [hb, hfull]
    rfl
  · obtain ⟨made, hmade, happend⟩ := happending
    obtain ⟨hform, htidy⟩ := h.after hmade
    obtain ⟨S, b, hserves, hb, hbecomes⟩ := htidy.of_append hform (by decide) happend
    refine ⟨made, [journalName], S, b, hmade, hserves,
      alters_of_becomes hbecomes (Tree.isSlot_of_file hbecomes.here), by simp, hbecomes.here, ?_⟩
    rw [hb, hroom]
    rfl

theorem Orderly.recorded_tidy (h : Orderly dir cwd t)
    (hends : (dir.recording cwd entry).ends t u) : u.WellFormed ∧ Tidy dir cwd u := by
  obtain ⟨made, files, S, b, hmakes, hserves, ha, -, -, -⟩ := h.recording_ends hends
  obtain ⟨hform, htidy⟩ := h.after hmakes
  exact ⟨hserves.wellFormed hform ha, hserves.tidy htidy ha⟩

/-- **A session that has been added to the journal** is the last one in it. -/
theorem Orderly.recorded (h : Orderly dir cwd t)
    (hthere : t.makeFolders cwd dir.root = (t, .ok ())) (hj : WholeJournal dir cwd t)
    (hends : (dir.recording cwd entry).ends t u) : dir.history cwd 1 u = [entry] := by
  obtain ⟨htext, hbytes⟩ := hj.text
  obtain ⟨made, files, S, b, hmakes, hserves, ha, hmem, hfile, hb⟩ := h.recording_ends hends
  obtain ⟨hform, htidy⟩ := h.after hmakes
  obtain rfl : t = made := congrArg Prod.fst (hthere.symm.trans hmakes)
  have hnames := hserves.names journalName hmem
  have hold : (t.blobAt (journalName :: S)).bytes = (dir.journalText cwd t).toUTF8 := by
    rw [Tree.blobAt, Tree.blob?]
    rcases (hserves.slots journalName hmem).cases with hnone | ⟨b₀, hfile₀⟩
    · rw [hnone, journalText_eq, hnames.readText_none hnone]
      rfl
    · rw [hfile₀]
      exact hbytes _ ((htidy.contents?_eq_some (by decide)).mpr ⟨S, b₀, hnames, hfile₀, rfl⟩)
  have hnew : b.bytes = (kept (dir.journalText cwd t) ++ entry.encode ++ "\n").toUTF8 := by
    rw [hb, hold, kept, rotated]
    cases isFull (dir.journalText cwd t) with
    | true => rfl
    | false => simp [String.append_assoc]
  have hread := ((hserves.tidy htidy ha).contents?_eq_some (by decide)).mpr
    ⟨S, b, (hserves.writes ha).names _ hmem, hfile, hnew⟩
  rw [history_eq_contents, hread, Option.bind_some, Lock.fromUTF8?_toUTF8, Option.map_some,
    Option.getD_some, recent_one htext entry]

theorem Tidy.removed (h : Tidy dir cwd t) (hform : t.WellFormed)
    (hremove : t.removeFile cwd (dir.file currentName) = .ok u) :
    u.contents? cwd (dir.file currentName) = none ∧
      u.contents? cwd (dir.file journalName) = t.contents? cwd (dir.file journalName) := by
  obtain ⟨d, name, node, hnames, hnode, -, -, rfl⟩ := Tree.removeFile_eq_ok hremove
  obtain rfl : name = currentName := by
    obtain ⟨init, hsteps, -⟩ := hnames.way
    rw [steps_file (by decide)] at hsteps
    simpa using (List.append_inj' hsteps rfl).2.symm
  obtain ⟨b, rfl⟩ := h currentName (by decide) d hnames node hnode
  have hserves := h.serves_one hform (by decide) hnames (folder_of_file hform hnames.folder hnode)
  have hb := Tree.becomes_erase t (List.cons_ne_nil currentName d)
  have ha := alters_of_becomes hb (Tree.isSlot_of_none hb.here)
  refine ⟨?_, hserves.contents?_other h ha (by decide) (by decide)⟩
  have hafter := (hserves.writes ha).names currentName (by simp)
  rw [contents?, Tree.readBlob, hafter.lookup_none hb.here]
  rfl

/-- **Completing a session** leaves the record as it was or removes it. -/
theorem Orderly.completing_current (h : Orderly dir cwd t)
    (hvisits : (dir.completing cwd entry).visits t u) :
    ReadsAsBefore dir cwd currentName t u ∨ u.contents? cwd (dir.file currentName) = none := by
  rcases hvisits with hrecording | ⟨m, hends, rfl | hremove⟩
  · exact .inl (h.recording hrecording)
  · exact .inl (h.recording ((dir.recording cwd entry).arrives t u hends))
  · obtain ⟨hform, htidy⟩ := h.recorded_tidy hends
    exact .inr (htidy.removed hform hremove).1

theorem Orderly.completing_journal (h : Orderly dir cwd t)
    (hfull : isFull (dir.journalText cwd t) = true)
    (hvisits : (dir.completing cwd entry).visits t u) :
    u.contents? cwd (dir.file journalName) = t.contents? cwd (dir.file journalName) ∨
      u.contents? cwd (dir.file journalName) =
        some (rotated (dir.journalText cwd t) entry.encode).toUTF8 := by
  rcases hvisits with hrecording | ⟨m, hends, hremoving⟩
  · exact h.rotating hfull hrecording
  · have hm := h.rotating hfull ((dir.recording cwd entry).arrives t m hends)
    rcases hremoving with rfl | hremove
    · exact hm
    · obtain ⟨hform, htidy⟩ := h.recorded_tidy hends
      rwa [(htidy.removed hform hremove).2]

/-- The session is shown as running. -/
def ShowsRunning (dir : StateDir) (cwd : Loc) (id : String) (t : Tree) : Prop :=
  ∃ c, dir.current? cwd t = some c ∧ c.sessionId = id

/-- The session is shown as the last one that has finished. -/
def ShowsFinished (dir : StateDir) (cwd : Loc) (id : String) (t : Tree) : Prop :=
  ∃ f ∈ dir.history cwd 1 t, f.sessionId = id

/-- **A session that is being completed** is shown as running or as finished. -/
theorem Orderly.shown (h : Orderly dir cwd t) (hj : WholeJournal dir cwd t)
    (hshown : ShowsRunning dir cwd entry.sessionId t)
    (hvisits : (dir.completing cwd entry).visits t u) :
    ShowsRunning dir cwd entry.sessionId u ∨ ShowsFinished dir cwd entry.sessionId u := by
  -- the directory is there, since its record can be read
  have hthere : t.makeFolders cwd dir.root = (t, .ok ()) := by
    obtain ⟨c, hcurrent, -⟩ := hshown
    cases hread : t.contents? cwd (dir.file currentName) with
    | none =>
      rw [current?_eq_contents, hread] at hcurrent
      cases hcurrent
    | some bytes =>
      obtain ⟨d, b, hnames, -, -⟩ := (h.before.contents?_eq_some (by decide)).mp hread
      exact makeFolders_of_names hnames (by decide)
  have hrunning : ∀ {v}, (dir.recording cwd entry).visits t v →
      ShowsRunning dir cwd entry.sessionId v := by
    intro v hv
    have hsame : v.contents? cwd (dir.file currentName) =
        t.contents? cwd (dir.file currentName) := by
      rcases h.recording hv with hsame | hsame
      · exact hsame
      · rw [hsame, hthere]
    obtain ⟨c, hcurrent, hid⟩ := hshown
    refine ⟨c, ?_, hid⟩
    rw [current?_eq_contents, hsame, ← current?_eq_contents, hcurrent]
  rcases hvisits with hrecording | ⟨m, hends, rfl | hremove⟩
  · exact .inl (hrunning hrecording)
  · exact .inl (hrunning ((dir.recording cwd entry).arrives t u hends))
  · obtain ⟨hform, htidy⟩ := h.recorded_tidy hends
    refine .inr ⟨entry, ?_, rfl⟩
    rw [history_eq_contents, (htidy.removed hform hremove).2, ← history_eq_contents,
      h.recorded hthere hj hends]
    exact List.mem_singleton.mpr rfl

/-- **Readers see no torn state and lose no session.**  In whatever tree they find a recorder at
    work, from the first step to the last: when it writes the record of the running session, the
    record reads as before or as the new one; when it cuts the journal, the journal reads as before
    or as the new one, and the record as before; when it completes a session, the record reads as
    before or is gone, a journal that is cut reads as before or as the new one, and the session, if
    it was shown as running, is shown as running or as finished.  The trees that the operations
    leave, if all goes well or not, are among these trees. -/
theorem readers_see_whole_states (r : Recorder) (t : Tree) (hform : t.WellFormed)
    (htidy : Tidy r.dir r.cwd (t.makeFolders r.cwd r.dir.root).1) :
    (∀ c,
      (∀ u, (r.dir.writing r.cwd c).visits t u →
        ReadsAsBefore r.dir r.cwd currentName t u ∨
          u.contents? r.cwd (r.dir.file currentName) = some c.encode.toUTF8) ∧
      (r.dir.writing r.cwd c).visits t (r.dir.writeCurrent r.cwd c t).1) ∧
    (∀ entry, isFull (r.dir.journalText r.cwd t) = true →
      (∀ u, (r.dir.recording r.cwd entry).visits t u →
        ReadsAsBefore r.dir r.cwd currentName t u ∧
          (u.contents? r.cwd (r.dir.file journalName) = t.contents? r.cwd (r.dir.file journalName) ∨
            u.contents? r.cwd (r.dir.file journalName) =
              some (rotated (r.dir.journalText r.cwd t) entry.encode).toUTF8)) ∧
      (r.dir.recording r.cwd entry).visits t (r.dir.recordFinished r.cwd entry t).1) ∧
    ∀ c outcome invocations,
      (∀ u, (r.dir.completing r.cwd (r.entry c outcome invocations)).visits t u →
        (ReadsAsBefore r.dir r.cwd currentName t u ∨
          u.contents? r.cwd (r.dir.file currentName) = none) ∧
        (isFull (r.dir.journalText r.cwd t) = true →
          u.contents? r.cwd (r.dir.file journalName) = t.contents? r.cwd (r.dir.file journalName) ∨
            u.contents? r.cwd (r.dir.file journalName) = some (rotated (r.dir.journalText r.cwd t)
              (r.entry c outcome invocations).encode).toUTF8) ∧
        (WholeJournal r.dir r.cwd t → ShowsRunning r.dir r.cwd c.sessionId t →
          ShowsRunning r.dir r.cwd c.sessionId u ∨ ShowsFinished r.dir r.cwd c.sessionId u)) ∧
      ((r.dir.recordFinished r.cwd (r.entry c outcome invocations) t).2 = .ok () →
        (r.dir.completing r.cwd (r.entry c outcome invocations)).visits t
          (r.notify (.complete outcome invocations) c t).2) := by
  have h : Orderly r.dir r.cwd t := ⟨hform, htidy⟩
  refine ⟨fun c => ⟨?_, (replacing_follows r.dir r.cwd _ _ t).visits⟩,
    fun entry hfull => ⟨?_, (recording_follows r.dir r.cwd entry t).visits⟩,
    fun c outcome invocations => ⟨?_, completing_visits_notify r c outcome invocations t⟩⟩
  · intro u hvisits
    exact (h.replacing pair_current (by decide) hvisits).1
  · intro u hvisits
    exact ⟨h.recording hvisits, h.rotating hfull hvisits⟩
  · intro u hvisits
    exact ⟨h.completing_current hvisits, fun hfull => h.completing_journal hfull hvisits,
      fun hj hshown => h.shown hj hshown hvisits⟩

/-- A session that has been recorded where there was nothing is shown all along until its end. -/
theorem oddCurrent_never_lost :
    ∃ t, StateDir.writeCurrent ⟨"state"⟩ [] oddCurrent Tree.empty = (t, .ok ()) ∧
      ShowsRunning ⟨"state"⟩ [] oddCurrent.sessionId t ∧
      ∀ u, (completing ⟨"state"⟩ [] (Recorder.entry ⟨⟨"state"⟩, [], "now"⟩ oddCurrent
          .explorationExhausted 3)).visits t u →
        ShowsRunning ⟨"state"⟩ [] oddCurrent.sessionId u ∨
          ShowsFinished ⟨"state"⟩ [] oddCurrent.sessionId u := by
  have hopens : Opens fileNames ⟨"state"⟩ [] ["state"] Tree.empty stateTree :=
    opens_stateTree fun _ hname => hname
  have hready : Ready ⟨"state"⟩ [] ["state"] stateTree := hopens.serves Tree.wellFormed_empty
  obtain ⟨t, hwrite, ha, hrecorded⟩ :=
    (hready.subset pair_current).writeCurrent hopens.makes oddCurrent
  have hserves := hready.writes (hready.widen ha pair_current)
  have hform := hready.wellFormed (hopens.wellFormed Tree.wellFormed_empty)
    (hready.widen ha pair_current)
  have htidy : Tidy ⟨"state"⟩ [] t := by
    intro name hname d hnames
    obtain ⟨rfl, -⟩ := hnames.unique (hserves.names name hname)
    exact hserves.slots name hname
  have hshown : ShowsRunning ⟨"state"⟩ [] oddCurrent.sessionId t :=
    ⟨oddCurrent, hserves.current?_of_recorded (by decide) hrecorded, rfl⟩
  have hjournal : WholeJournal ⟨"state"⟩ [] t := by
    intro bytes hread
    obtain ⟨d, b, hnames, hfile, -⟩ := (htidy.contents?_eq_some (by decide)).mp hread
    obtain ⟨rfl, -⟩ := hnames.unique (hserves.names journalName (by decide))
    rw [ha.elsewhere _ (by decide)] at hfile
    cases hfile
  have hmem : currentName ∈ fileNames := by decide
  have hthere : t.makeFolders [] "state" = (t, .ok ()) := hserves.makeFolders hmem hmem
  refine ⟨t, hwrite, hshown, fun u hvisits => ?_⟩
  have hmain := readers_see_whole_states ⟨⟨"state"⟩, [], "now"⟩ t hform (by
    rw [hthere]
    exact htidy)
  exact ((hmain.2.2 oddCurrent .explorationExhausted 3).1 u hvisits).2.2 hjournal hshown

end Concolic.StateDir
