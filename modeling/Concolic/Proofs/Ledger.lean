import Concolic.Proofs.Interruption
import Concolic.Proofs.Remnant
import Concolic.Proofs.Tree.Filling
import Mathlib.Data.List.DropRight

/-
  Journals of any text.

  A journal may hold anything that another program or an interrupted write has left.  The last
  sessions are looked for among the last lines, so that a line that is no session hides one that is.
  And where the last line has no end, the new session continues it, and is lost unless that line was
  blank.
-/

namespace Concolic.StateDir

open Concolic.Tree (Fills Names NoRoad bind_eq_ok contents? contents?_of_blob?)

variable {dir : StateDir} {cwd S loc : Loc} {t t' made : Tree} {name text : String} {b : Blob}
  {bytes : ByteArray} {e : Finished}

/-! ## The files of the journal -/

/-- The path of the journal leads to a regular file with the text, or to nothing once the directory
    is there, and the text is empty. -/
def HasJournal (dir : StateDir) (cwd : Loc) (text : String) (t : Tree) : Prop :=
  (∃ loc b, t.lookup cwd true (dir.file journalName) = .ok loc ∧ t.blob? loc = some b ∧
    b.bytes = text.toUTF8) ∨
  text = "" ∧ (t.makeFolders cwd dir.root).1.lookup cwd true (dir.file journalName) =
    .error .notFound

/-- The path of a file does not end at a link. -/
def IsPlainFile (dir : StateDir) (name : String) (cwd : Loc) (t : Tree) : Prop :=
  ∀ place, t.place? cwd (dir.file name) = some place → ∀ target, t.node? place ≠ some (.link target)

theorem makeFolders_of_lookup (hname : name ∈ fileNames)
    (hfind : t.lookup cwd true (dir.file name) = .ok loc) :
    t.makeFolders cwd dir.root = (t, .ok ()) := by
  obtain ⟨S, hnames⟩ := names_of_lookup hname hfind
  exact makeFolders_of_names hnames hname

theorem HasJournal.journalText (h : HasJournal dir cwd text t) : dir.journalText cwd t = text := by
  rw [journalText_eq_contents]
  rcases h with ⟨loc, b, hfind, hb, hbytes⟩ | ⟨rfl, hmissing⟩
  · rw [contents?_of_blob? hfind hb, hbytes, Option.bind_some, Lock.fromUTF8?_toUTF8]
    rfl
  · have hnone : t.contents? cwd (dir.file journalName) = none := by
      cases hfind : t.lookup cwd true (dir.file journalName) with
      | error f =>
        rw [contents?, Tree.readBlob, hfind]
        rfl
      | ok loc =>
        rw [makeFolders_of_lookup (by decide) hfind, hfind] at hmissing
        cases hmissing
    rw [hnone]
    rfl

/-! ## Adding to a file -/

/-- **A line that is added** comes after the text, whatever names the file has. -/
theorem contents?_append (hj : HasJournal dir cwd text t)
    (hmakes : t.makeFolders cwd dir.root = (made, .ok ()))
    (happend : made.append cwd (dir.file journalName) bytes = .ok t') :
    t'.contents? cwd (dir.file journalName) = some (text.toUTF8 ++ bytes) := by
  obtain ⟨loc, hwrite, hextend⟩ := bind_eq_ok happend
  obtain ⟨d, last, rfl, hres, hroad⟩ := Tree.writeLoc_eq_ok hwrite
  have hne : last :: d ≠ [] := List.cons_ne_nil last d
  rcases hj with ⟨loc, b, hfind, hb, hbytes⟩ | ⟨rfl, hmissing⟩
  · obtain rfl : t = made :=
      congrArg Prod.fst ((makeFolders_of_lookup (by decide) hfind).symm.trans hmakes)
    obtain rfl := Tree.writeLoc_of_lookup hfind hwrite
    have hfills := Tree.extend_of_blob? hne hb hextend
    rw [contents?_of_blob? (hfills.lookup hroad rfl hres) hfills.here, hbytes]
  · -- nothing is there yet
    have hnone : made.node? (last :: d) = none := by
      cases hnode : made.node? (last :: d) with
      | none => rfl
      | some node =>
        have hfind : made.lookup cwd true (dir.file journalName) = .ok (last :: d) :=
          Tree.lookup_of_resolve (a := ⟨.entry d last, false⟩) hres hnode
            (fun hslash => by cases hslash)
        rw [hmakes, hfind] at hmissing
        cases hmissing
    rcases Tree.extend_cases hne hextend with ⟨hdevice, -⟩ | ⟨-, hfills⟩
    · rw [Tree.device?, hnone] at hdevice
      cases hdevice
    · rw [contents?_of_blob? (hfills.lookup hroad rfl hres) hfills.here, Tree.blobAt,
        Tree.blob?, hnone]
      rfl

/-! ## Replacing a file -/

theorem fills_of_write (hname : name ∈ fileNames) (hplain : IsPlainFile dir name cwd t)
    (hwrite : t.write cwd (dir.file name) bytes = .ok t')
    (hsync : t'.sync cwd (dir.file name) = .ok ()) :
    ∃ S b, Names t cwd (dir.file name) S name ∧ b.bytes = bytes ∧ Fills t (name :: S) b t' ∧
      NoRoad t (name :: S) := by
  obtain ⟨loc, hloc, hcases⟩ := Tree.write_cases hwrite
  obtain ⟨S, hnames, rfl⟩ := Tree.names_of_writeLoc (isName_of_mem hname) (steps_file hname)
    (slash_file hname) hplain hloc
  rcases hcases with ⟨hdevice, rfl⟩ | ⟨b, hbytes, hfills⟩
  · -- a device is written to, but does not store anything
    obtain ⟨device, hnode⟩ : ∃ device, t'.node? (name :: S) = some (.device device) := by
      rw [Tree.device?] at hdevice
      split at hdevice
      · exact ⟨_, ‹_›⟩
      · cases hdevice
    obtain ⟨found, hfind, hstored⟩ := bind_eq_ok hsync
    rw [hnames.lookup_some (slash_file hname) hnode (by simp) true] at hfind
    cases hfind
    rw [if_pos hdevice] at hstored
    cases hstored
  · obtain ⟨_, _, heq, -, hroad⟩ := Tree.writeLoc_eq_ok hloc
    exact ⟨S, b, hnames, hbytes, hfills, heq ▸ hroad⟩

/-- **A file that has been replaced** has the new contents, whatever links led to it and whatever
    names it and its temporary file have. -/
theorem contents?_replace (hknown : ∀ n ∈ pair name, n ∈ fileNames) (hne : temporary name ≠ name)
    (hform : t.WellFormed) (hfind : t.lookup cwd true (dir.file name) = .ok loc)
    (hb : t.blob? loc = some b) (hplain : IsPlainFile dir (temporary name) cwd t)
    (h : (dir.replacing cwd name bytes).ends t t') :
    t'.contents? cwd (dir.file name) = some bytes := by
  have hname : name ∈ fileNames := hknown name (by simp [pair])
  have htemp : temporary name ∈ fileNames := hknown _ (by simp [pair])
  obtain ⟨S, hnames⟩ := names_of_lookup hname hfind
  obtain ⟨made, hmade, written, hwrite, stored, hsync, hrename⟩ := h
  obtain rfl : t = made := congrArg Prod.fst ((makeFolders_of_names hnames hname).symm.trans hmade)
  obtain ⟨rfl, hsync⟩ := Tree.Course.of_sync hsync
  obtain ⟨S', b', hnamesTemp, hbytes, hfills, hroad⟩ := fills_of_write htemp hplain hwrite hsync
  obtain rfl := eq_of_names hname htemp hnames hnamesTemp
  -- both names can be followed in the tree with the temporary file
  have hkeeps := hfills.keeps hroad
  obtain ⟨b'', hb''⟩ := hfills.file hb
  have hfind' := Tree.lookup_mono hkeeps hfind hb''
  have hleaf : ∀ n, stored.isFolderAt (n :: S') = false → Tree.IsLeaf stored (n :: S') := by
    intro n hn
    refine hfills.isLeaf (hform.isLeaf ?_) not_isBelow_file
    cases hfolder : t.isFolderAt (n :: S') with
    | false => rfl
    | true =>
      rw [hkeeps.isFolderAt hfolder] at hn
      cases hn
  rw [(hnamesTemp.mono hkeeps).contents?_rename (hnames.mono hkeeps)
    (slash_file hname) hne hfills.here
    hleaf hfind' (Tree.noRoad_of_blob? hb'').isFolderAt hrename, hbytes]

/-! ## Recording a session -/

/-- **A session that has been recorded** is in the journal, after what has been kept of it. -/
theorem contents?_recordFinished (hform : t.WellFormed) (hj : HasJournal dir cwd text t)
    (hplain : isFull text = true → IsPlainFile dir (temporary journalName) cwd t)
    (hok : dir.recordFinished cwd e t = (t', .ok ())) :
    t'.contents? cwd (dir.file journalName) = some (kept text ++ e.encode ++ "\n").toUTF8 := by
  have hends := (recording_follows dir cwd e t).ends (congrArg Prod.snd hok)
  rw [hok] at hends
  rcases hends with ⟨hfull, hrotating⟩ | ⟨hroom, made, hmade, happend⟩
  · rw [hj.journalText] at hfull hrotating
    rcases hj with ⟨loc, b, hfind, hb, -⟩ | ⟨rfl, -⟩
    · rw [contents?_replace pair_journal (by decide) hform hfind hb (hplain hfull) hrotating, kept,
        if_pos hfull, rotated]
    · exact absurd hfull (by decide)
  · rw [hj.journalText] at hroom
    rw [contents?_append hj hmade happend, kept, if_neg (by simp [hroom])]
    simp [String.append_assoc]

theorem history_of_contents (h : t.contents? cwd (dir.file journalName) = some text.toUTF8)
    (limit : Nat) : dir.history cwd limit t = recent limit text := by
  rw [history_eq_contents, h, Option.bind_some, Lock.fromUTF8?_toUTF8]
  rfl

/-! ## Where a journal is cut -/

theorem isFull_iff : isFull text = true ↔
    1000 ≤ (Text.lines text.toList).length ∨ 1048576 < text.utf8ByteSize := by
  rw [isFull, Bool.or_eq_true, decide_eq_true_eq, decide_eq_true_eq]
  rfl

theorem newest_min {α : Type} (n : Nat) (xs : List α) :
    newest (min n xs.length) xs = newest n xs := by
  rw [newest, newest]
  congr 1
  omega

theorem kept_of_full (hwhole : text = "" ∨ ∃ init, text.toList = init ++ ['\n'])
    (hfull : isFull text = true) :
    (kept text).toList =
      (newest 500 (Text.lines text.toList)).flatMap fun line => line ++ ['\n'] := by
  obtain ⟨init, hinit⟩ : ∃ init, text.toList = init ++ ['\n'] := by
    refine hwhole.resolve_left ?_
    rintro rfl
    exact absurd hfull (by decide)
  have hpos : 0 < (Text.lines text.toList).length := by
    rw [hinit, Text.lines_ended, List.length_map]
    exact List.length_pos_of_ne_nil (Text.splitOn_ne_nil _ _)
  have hne : newest 500 (Text.lines text.toList) ≠ [] := by
    refine List.ne_nil_of_length_pos ?_
    rw [length_newest]
    omega
  rw [kept, if_pos hfull, String.toList_append, String.toList_ofList]
  exact Text.joinWith_ended '\n' hne

/-- **When a journal is cut.**  A journal of whole lines that has 1000 lines or is longer than
    1048576 bytes becomes its newest 500 lines and the new one, each with its end; any other one
    gets the new line after its text. -/
theorem journal_cut_above_limits (dir : StateDir) (cwd : Loc) (t t' : Tree) (text : String)
    (e : Finished) (hform : t.WellFormed) (hj : HasJournal dir cwd text t)
    (hplain : isFull text = true → IsPlainFile dir (temporary journalName) cwd t)
    (hwhole : text = "" ∨ ∃ init, text.toList = init ++ ['\n'])
    (hok : dir.recordFinished cwd e t = (t', .ok ())) :
    t'.contents? cwd (dir.file journalName) = some (String.toUTF8
      (if 1000 ≤ (Text.lines text.toList).length ∨ 1048576 < text.utf8ByteSize then
        String.ofList ((newest (min 500 (Text.lines text.toList).length) (Text.lines text.toList) ++
          [e.encode.toList]).flatMap fun line => line ++ ['\n'])
      else text ++ e.encode ++ "\n")) := by
  rw [contents?_recordFinished hform hj hplain hok]
  split
  · rename_i hlimit
    have hkept := kept_of_full hwhole (isFull_iff.mpr hlimit)
    refine congrArg (fun journal => some (String.toUTF8 journal)) (String.toList_inj.mp ?_)
    rw [newest_min, List.flatMap_append, ← hkept]
    simp
  · rename_i hlimit
    rw [kept, if_neg (fun hfull => hlimit (isFull_iff.mp hfull))]

/-! ### A directory with a journal -/

/-- A state directory with a journal in it. -/
def journalTree (text : String) : Tree :=
  stateTree.put [journalName, "state"] (.file ⟨text.toUTF8, false⟩)

/-- Lines of equal length. -/
def rows (n m : Nat) : List (List Char) := List.replicate n (List.replicate m 'x')

/-- The text of lines of equal length. -/
def rowsText (n m : Nat) : String := String.ofList ((rows n m).flatMap fun line => line ++ ['\n'])

theorem alters_journalTree (text : String) :
    Alters (pair journalName) ["state"] stateTree (journalTree text) := by
  have hserves := (opens_stateTree pair_journal).serves Tree.wellFormed_empty
  have hbecomes := Tree.becomes_put stateTree (List.cons_ne_nil journalName ["state"])
    (.file ⟨text.toUTF8, false⟩)
  exact hserves.widen (alters_of_becomes hbecomes (Tree.isSlot_of_file hbecomes.here))
    (by simp [pair])

theorem serves_journalTree (text : String) :
    Serves (pair journalName) ⟨"state"⟩ [] ["state"] (journalTree text) :=
  ((opens_stateTree pair_journal).serves Tree.wellFormed_empty).writes (alters_journalTree text)

theorem wellFormed_journalTree (text : String) : (journalTree text).WellFormed :=
  ((opens_stateTree pair_journal).serves Tree.wellFormed_empty).wellFormed
    ((opens_stateTree pair_journal).wellFormed Tree.wellFormed_empty) (alters_journalTree text)

theorem node?_journalTree (text : String) :
    (journalTree text).node? [journalName, "state"] = some (.file ⟨text.toUTF8, false⟩) :=
  Tree.node?_put_self stateTree (List.cons_ne_nil _ _) _

theorem hasJournal_journalTree (text : String) :
    HasJournal ⟨"state"⟩ [] text (journalTree text) := by
  have hnode := node?_journalTree text
  exact .inl ⟨_, _, ((serves_journalTree text).names journalName (by decide)).lookup_some
    (slash_file (by decide)) hnode (by simp) true, Tree.blob?_of_file hnode, rfl⟩

theorem readText_journalTree (text : String) :
    (journalTree text).readText [] (StateDir.file ⟨"state"⟩ journalName) = .ok text := by
  rw [((serves_journalTree text).names journalName (by decide)).readText_file
    (slash_file (by decide))
    (node?_journalTree text), Lock.fromUTF8?_toUTF8]
  rfl

theorem isPlainFile_journalTree (text : String) :
    IsPlainFile ⟨"state"⟩ (temporary journalName) [] (journalTree text) := by
  intro place hplace target hlink
  have hserves := serves_journalTree text
  have htemp : temporary journalName ∈ pair journalName := by decide
  rw [(hserves.names _ htemp).place?_of_slash (slash_file (by decide))] at hplace
  cases hplace
  obtain ⟨b, hb⟩ := hserves.slots _ htemp _ hlink
  cases hb

theorem exists_recordFinished (text : String) (e : Finished) :
    ∃ t', recordFinished ⟨"state"⟩ [] e (journalTree text) = (t', .ok ()) := by
  have hserves := serves_journalTree text
  have hmem : journalName ∈ pair journalName := by decide
  obtain ⟨t', hrecord, -, -⟩ := hserves.recordFinished (hserves.makeFolders hmem (by decide)) e
  exact ⟨t', hrecord⟩

theorem lines_rowsText (n m : Nat) : Text.lines (rowsText n m).toList = rows n m := by
  rw [rowsText, String.toList_ofList]
  refine Text.lines_flatMap fun p hp => ?_
  have hx : ∀ c ∈ p, c = 'x' := by
    rw [List.eq_of_mem_replicate hp]
    exact fun c hc => List.eq_of_mem_replicate hc
  refine ⟨fun hfeed => absurd (hx _ hfeed) (by decide), fun hreturn => ?_⟩
  exact absurd (hx _ (List.mem_of_getLast? hreturn)) (by decide)

theorem newest_rows {k n : Nat} (h : k ≤ n) (m : Nat) : newest k (rows n m) = rows k m := by
  rw [newest, rows, rows, List.length_replicate, List.drop_replicate, Nat.sub_sub_self h]

theorem length_flatMap_rows (n m : Nat) :
    ((rows n m).flatMap fun line => line ++ ['\n']).length = n * (m + 1) := by
  simp [rows, List.length_flatMap]

theorem utf8ByteSize_of_ascii {cs : List Char} (h : ∀ c ∈ cs, c.utf8Size = 1) :
    (String.ofList cs).utf8ByteSize = cs.length := by
  induction cs with
  | nil => rfl
  | cons c cs ih =>
    have hcs := ih fun d hd => h d (by simp [hd])
    rw [Text.utf8ByteSize_cons, h c (by simp), hcs, List.length_cons]
    omega

theorem utf8ByteSize_rowsText (n m : Nat) : (rowsText n m).utf8ByteSize = n * (m + 1) := by
  rw [rowsText, utf8ByteSize_of_ascii, length_flatMap_rows]
  intro c hc
  obtain ⟨line, hline, hmem⟩ := List.mem_flatMap.mp hc
  rw [List.eq_of_mem_replicate hline] at hmem
  rcases List.mem_append.mp hmem with hx | hfeed
  · rw [List.eq_of_mem_replicate hx]
    rfl
  · rw [List.mem_singleton.mp hfeed]
    rfl

theorem rowsText_ended (n m : Nat) : ∃ init, (rowsText (n + 1) m).toList = init ++ ['\n'] := by
  refine ⟨((rows n m).flatMap fun line => line ++ ['\n']) ++ List.replicate m 'x', ?_⟩
  rw [rowsText, String.toList_ofList, rows, List.replicate_succ', rows]
  simp

theorem rowsText_longer {k n : Nat} (h : k < n) (m : Nat) (line : String) :
    rowsText n m ++ line ++ "\n" ≠
      String.ofList ((rows k m ++ [line.toList]).flatMap fun line => line ++ ['\n']) := by
  intro heq
  have hlength := congrArg (fun s => s.toList.length) heq
  have hlt : k * (m + 1) < n * (m + 1) := Nat.mul_lt_mul_of_pos_right h (Nat.succ_pos m)
  simp only [String.toList_append, String.toList_ofList, List.length_append, List.flatMap_append,
    List.flatMap_singleton, rowsText, length_flatMap_rows] at hlength
  have hfeed : "\n".toList.length = 1 := by decide
  rw [hfeed, List.length_singleton] at hlength
  omega

theorem toUTF8_injective : Function.Injective String.toUTF8 := by
  intro a b h
  have hread := Lock.fromUTF8?_toUTF8 a
  rw [h, Lock.fromUTF8?_toUTF8] at hread
  exact (Option.some.inj hread).symm

theorem blankLines_cut : ∃ t',
    recordFinished ⟨"state"⟩ [] oddFinished (journalTree (rowsText 1000 0)) = (t', .ok ()) ∧
      t'.contents? [] (StateDir.file ⟨"state"⟩ journalName) =
        some (String.toUTF8 (rowsText 500 0 ++ oddFinished.encode ++ "\n")) := by
  obtain ⟨t', hok⟩ := exists_recordFinished (rowsText 1000 0) oddFinished
  refine ⟨t', hok, ?_⟩
  have hlength : (rows 1000 0).length = 1000 := List.length_replicate
  rw [journal_cut_above_limits ⟨"state"⟩ [] _ t' _ oddFinished (wellFormed_journalTree _)
    (hasJournal_journalTree _) (fun _ => isPlainFile_journalTree _)
      (.inr (rowsText_ended 999 0)) hok, lines_rowsText, hlength, if_pos (.inl (Nat.le_refl 1000))]
  refine congrArg (fun journal => some (String.toUTF8 journal)) (String.toList_inj.mp ?_)
  have hnewest : newest (min 500 1000) (rows 1000 0) = rows 500 0 := by
    rw [show min 500 1000 = 500 by decide, newest_rows (by decide)]
  rw [hnewest, List.flatMap_append, String.toList_ofList, String.toList_append,
    String.toList_append, rowsText, String.toList_ofList]
  simp

/-- **A journal of exactly 1048576 bytes is not cut.** -/
theorem limitText_not_cut :
    (rowsText 512 2047).utf8ByteSize = 1048576 ∧
      ∃ t', recordFinished ⟨"state"⟩ [] oddFinished
        (journalTree (rowsText 512 2047)) = (t', .ok ()) ∧
        t'.contents? [] (StateDir.file ⟨"state"⟩ journalName) ≠ some (String.toUTF8 (String.ofList
          ((newest (min 500 512) (Text.lines (rowsText 512 2047).toList) ++
            [oddFinished.encode.toList]).flatMap fun line => line ++ ['\n']))) := by
  have hsize : (rowsText 512 2047).utf8ByteSize = 1048576 := utf8ByteSize_rowsText 512 2047
  have hlength : (rows 512 2047).length = 512 := List.length_replicate
  obtain ⟨t', hok⟩ := exists_recordFinished (rowsText 512 2047) oddFinished
  refine ⟨hsize, t', hok, ?_⟩
  have hroom : isFull (rowsText 512 2047) ≠ true := by
    rw [Ne, isFull_iff, lines_rowsText, hlength, hsize]
    omega
  rw [contents?_recordFinished (wellFormed_journalTree _) (hasJournal_journalTree _)
    (fun _ => isPlainFile_journalTree _) hok, kept, if_neg hroom, lines_rowsText]
  rw [show min 500 512 = 500 by decide, newest_rows (by decide)]
  intro heq
  exact rowsText_longer (by decide) 2047 oddFinished.encode (toUTF8_injective (Option.some.inj heq))

/-! ## The last sessions -/

theorem newest_append_iff {α : Type} {n : Nat} {xs ys : List α} (h : ys.length ≤ n) :
    newest n (xs ++ ys) = ys ↔ xs = [] ∨ ys.length = n := by
  constructor
  · intro heq
    have hlength := length_newest n (xs ++ ys)
    rw [heq, List.length_append] at hlength
    by_cases hxs : xs = []
    · exact .inl hxs
    · have := List.length_pos_of_ne_nil hxs
      exact .inr (by omega)
  · rintro (rfl | rfl)
    · rw [List.nil_append, newest, Nat.sub_eq_zero_of_le h, List.drop_zero]
    · rw [newest, List.length_append, Nat.add_sub_cancel]
      exact List.drop_left

/-- Taking the newest elements first and choosing among them is choosing first, exactly if all of
    them are chosen, or none of the others is. -/
theorem filterMap_newest_eq_iff {α β : Type} (f : α → Option β) (n : Nat) (xs : List α) :
    (newest n xs).filterMap f = newest n (xs.filterMap f) ↔
      (∀ x ∈ newest n xs, (f x).isSome = true) ∨ ∀ x ∈ xs.take (xs.length - n), f x = none := by
  have hparts : xs.filterMap f =
      (xs.take (xs.length - n)).filterMap f ++ (newest n xs).filterMap f := by
    rw [newest, ← List.filterMap_append, List.take_append_drop]
  have hcount : ((newest n xs).filterMap f).length =
      (newest n xs).countP (fun x => (f x).isSome) := List.length_filterMap_eq_countP
  have hle : (newest n xs).countP (fun x => (f x).isSome) ≤ (newest n xs).length :=
    List.countP_le_length
  have hlength := length_newest n xs
  rw [hparts, eq_comm, newest_append_iff (by omega), List.filterMap_eq_nil_iff, or_comm]
  constructor
  · rintro (hall | hnone)
    · exact .inl (List.countP_eq_length.mp (by omega))
    · exact .inr hnone
  · rintro (hall | hnone)
    · -- fewer elements than were asked for are all of them
      rw [← List.countP_eq_length, ← hcount] at hall
      by_cases hfew : xs.length ≤ n
      · right
        rw [Nat.sub_eq_zero_of_le hfew]
        simp
      · left
        omega
    · exact .inr hnone

/-- **What is shown of a journal.**  Of the last lines, as many as one asks for, those that are
    sessions.  They are the last sessions of the journal, but there may be more of them: the ones
    that were asked for are shown exactly if all of these lines are sessions, or none of the lines
    before them is. -/
theorem history_of_last_lines (dir : StateDir) (cwd : Loc) (t : Tree) (text : String)
    (hread : t.readText cwd (dir.file journalName) = .ok text) (limit : Nat) :
    let decode := fun line => Finished.decode? (String.ofList line)
    let lines := Text.lines text.toList
    dir.history cwd limit t <:+ lines.filterMap decode ∧
    (dir.history cwd limit t).length =
    (newest limit lines).countP (fun line => (decode line).isSome) ∧
    (dir.history cwd limit t = newest limit (lines.filterMap decode) ↔
      (∀ line ∈ newest limit lines, (decode line).isSome = true) ∨
        ∀ line ∈ lines.take (lines.length - limit), decode line = none) := by
  intro decode lines
  have hshown : dir.history cwd limit t = (newest limit lines).filterMap decode := by
    rw [history, hread]
    rfl
  rw [hshown]
  refine ⟨?_, List.length_filterMap_eq_countP, filterMap_newest_eq_iff decode limit lines⟩
  refine ⟨(lines.take (lines.length - limit)).filterMap decode, ?_⟩
  rw [newest, ← List.filterMap_append, List.take_append_drop]

/-- A journal of one session, with a blank line after it. -/
def gapText : String := listing [oddFinished] ++ "\n"

theorem lines_gapText : Text.lines gapText.toList = [oddFinished.encode.toList, []] := by
  have hended : (listing [oddFinished]).toList = [] ∨
      ∃ init, (listing [oddFinished]).toList = init ++ ['\n'] := by
    refine .inr ⟨oddFinished.encode.toList, ?_⟩
    rw [toList_listing, List.flatMap_singleton, wholeLine]
  have hlines : Text.lines ((listing [oddFinished]).toList ++ ([] ++ ['\n'])) =
      Text.lines (listing [oddFinished]).toList ++ [[]] :=
    Text.lines_append_line hended (by simp) (by simp)
  rw [lines_listing] at hlines
  rw [gapText, String.toList_append]
  exact hlines

theorem gapText_shown :
    (journalTree gapText).readText [] (StateDir.file ⟨"state"⟩ journalName) = .ok gapText ∧
      StateDir.history ⟨"state"⟩ [] 2 (journalTree gapText) =
        newest 2 ((Text.lines gapText.toList).filterMap fun line =>
          Finished.decode? (String.ofList line)) := by
  have hread := readText_journalTree gapText
  refine ⟨hread, (history_of_last_lines _ _ _ _ hread 2).2.2.mpr (.inr fun line hline => ?_)⟩
  rw [lines_gapText] at hline
  cases hline

/-- **A blank line hides a session.** -/
theorem gapText_hides_session :
    StateDir.history ⟨"state"⟩ [] 1 (journalTree gapText) = [] ∧
      newest 1 ((Text.lines gapText.toList).filterMap fun line =>
        Finished.decode? (String.ofList line)) = [oddFinished] := by
  let decode := fun line => Finished.decode? (String.ofList line)
  have hblank : decode [] = none := by decide +kernel
  have hsession : decode oddFinished.encode.toList = some oddFinished := by
    show Finished.decode? (String.ofList oddFinished.encode.toList) = some oddFinished
    rw [String.ofList_toList, Finished.decode?_encode]
  constructor
  · rw [history, readText_journalTree]
    show (newest 1 (Text.lines gapText.toList)).filterMap decode = []
    rw [lines_gapText]
    exact List.filterMap_cons_none hblank
  · show newest 1 ((Text.lines gapText.toList).filterMap decode) = [oddFinished]
    rw [lines_gapText, List.filterMap_cons_some hsession, List.filterMap_cons_none hblank]
    rfl

/-! ## A line without an end -/

/-- What stands after the last line end of a journal. -/
def unfinished (text : String) : List Char := text.toList.rtakeWhile (· ≠ '\n')

theorem newest_concat {α : Type} (n : Nat) (xs : List α) (x : α) :
    newest (n + 1) (xs ++ [x]) = newest n xs ++ [x] := by
  rw [newest, newest, List.length_append, List.length_singleton, Nat.add_sub_add_right,
    List.drop_append_of_le_length (Nat.sub_le _ _)]

theorem ended_of_unfinished (text : String) : ∃ whole, whole ++ unfinished text = text.toList ∧
    (whole = [] ∨ ∃ init, whole = init ++ ['\n']) := by
  refine ⟨text.toList.rdropWhile (· ≠ '\n'), List.rdropWhile_append_rtakeWhile, ?_⟩
  by_cases hnil : text.toList.rdropWhile (· ≠ '\n') = []
  · exact .inl hnil
  · have hlast : (text.toList.rdropWhile (· ≠ '\n')).getLast hnil = '\n' := by
      simpa using List.rdropWhile_last_not _ _ hnil
    have hsplit := List.dropLast_append_getLast hnil
    rw [hlast] at hsplit
    exact .inr ⟨_, hsplit.symm⟩

theorem lines_continued {whole rest : List Char} (e : Finished)
    (hwhole : whole = [] ∨ ∃ init, whole = init ++ ['\n']) (hrest : '\n' ∉ rest) :
    Text.lines (whole ++ rest ++ e.encode.toList ++ ['\n']) =
      Text.lines whole ++ [rest ++ e.encode.toList] := by
  have hfeed : '\n' ∉ rest ++ e.encode.toList := by
    simp [hrest, e.newline_not_mem_encode]
  have hreturn : (rest ++ e.encode.toList).getLast? ≠ some '\r' := by
    intro hlast
    rw [List.getLast?_append_of_ne_nil _ (by rw [Finished.encode, Json.compact]; simp)] at hlast
    exact e.return_not_mem_encode (List.mem_of_getLast? hlast)
  rw [← Text.lines_append_line hwhole hfeed hreturn]
  simp

/-- **The new session continues the last line** of a journal that is not cut, if that has no end. -/
theorem lines_added (text : String) (e : Finished) :
    ∃ before, Text.lines (kept text ++ e.encode ++ "\n").toList =
      before ++ [(if isFull text then [] else unfinished text) ++ e.encode.toList] := by
  have hend : "\n".toList = ['\n'] := by decide
  rw [String.toList_append, String.toList_append, hend]
  cases hfull : isFull text with
  | true =>
    have hended : ∃ init, (kept text).toList = init ++ ['\n'] := by
      rw [kept, if_pos hfull, String.toList_append, hend]
      exact ⟨_, rfl⟩
    have hlines := lines_continued e (.inr hended) (List.not_mem_nil (a := '\n'))
    rw [List.append_nil] at hlines
    exact ⟨_, hlines⟩
  | false =>
    obtain ⟨whole, hparts, hwhole⟩ := ended_of_unfinished text
    have hrest : '\n' ∉ unfinished text := fun hmem => by
      simpa using List.mem_rtakeWhile_imp hmem
    have hlines := lines_continued e hwhole hrest
    rw [hparts] at hlines
    rw [kept, if_neg (by simp [hfull])]
    exact ⟨_, hlines⟩

theorem recent_of_lines {journal : String} {before : List (List Char)} {line : List Char}
    (h : Text.lines journal.toList = before ++ [line]) (limit : Nat) :
    recent (limit + 1) journal =
      (newest limit before).filterMap (fun line => Finished.decode? (String.ofList line)) ++
        (Finished.decode? (String.ofList line)).toList := by
  rw [recent, h, newest_concat, List.filterMap_append]
  simp only [List.filterMap_cons, List.filterMap_nil]
  cases Finished.decode? (String.ofList line) <;> rfl

/-- **A session that has been recorded is read back**, unless it continues a line that is not blank.
    Then it cannot be read. -/
theorem session_read_back_unless_continued (dir : StateDir) (cwd : Loc)
    (t t' : Tree) (text : String)
    (e : Finished) (hform : t.WellFormed) (hj : HasJournal dir cwd text t)
    (hplain : isFull text = true → IsPlainFile dir (temporary journalName) cwd t)
    (hok : dir.recordFinished cwd e t = (t', .ok ())) :
    ((isFull text = true ∨ ∀ c ∈ unfinished text, Json.isSpace c = true) →
      ∀ limit, 1 ≤ limit → (dir.history cwd limit t').getLast? = some e) ∧
    (isFull text = false → (∃ c ∈ unfinished text, Json.isSpace c = false) →
      dir.history cwd 1 t' = []) := by
  have hcontents := contents?_recordFinished hform hj hplain hok
  obtain ⟨before, hlines⟩ := lines_added text e
  constructor
  · intro hblank limit hlimit
    obtain ⟨n, rfl⟩ : ∃ n, limit = n + 1 := ⟨limit - 1, by omega⟩
    rw [history_of_contents hcontents, recent_of_lines hlines, Finished.decode?_remnant, if_pos ?_]
    · simp
    · split
      · rfl
      · rename_i hroom
        exact List.all_eq_true.mpr (hblank.resolve_left hroom)
  · rintro hroom ⟨c, hc, hspace⟩
    rw [history_of_contents hcontents, recent_of_lines hlines, Finished.decode?_remnant, if_neg ?_]
    · simp [newest]
    · rw [if_neg (by simp [hroom])]
      intro hall
      rw [List.all_eq_true.mp hall c hc] at hspace
      cases hspace

theorem blankEnd_read_back : ∃ t',
    recordFinished ⟨"state"⟩ [] oddFinished (journalTree "x\n \t") = (t', .ok ()) ∧
      (StateDir.history ⟨"state"⟩ [] 3 t').getLast? = some oddFinished := by
  obtain ⟨t', hok⟩ := exists_recordFinished "x\n \t" oddFinished
  refine ⟨t', hok, (session_read_back_unless_continued ⟨"state"⟩ [] _ t' _ oddFinished
    (wellFormed_journalTree _) (hasJournal_journalTree _)
      (fun _ => isPlainFile_journalTree _) hok).1
    (.inr (List.all_eq_true.mp ?_)) 3 (by decide)⟩
  decide +kernel

/-- **A session is lost** if a write was interrupted before it. -/
theorem tornText_loses_session : ∃ t',
    recordFinished ⟨"state"⟩ [] oddFinished (journalTree "\x7b\"session_id\":\"r\",\"entry_p") =
      (t', .ok ()) ∧ (StateDir.history ⟨"state"⟩ [] 1 t').getLast? ≠ some oddFinished := by
  obtain ⟨t', hok⟩ := exists_recordFinished "\x7b\"session_id\":\"r\",\"entry_p" oddFinished
  refine ⟨t', hok, ?_⟩
  obtain ⟨before, hlines⟩ := lines_added "\x7b\"session_id\":\"r\",\"entry_p" oddFinished
  rw [history_of_contents (contents?_recordFinished (wellFormed_journalTree _)
    (hasJournal_journalTree _) (fun _ => isPlainFile_journalTree _) hok), recent_of_lines hlines,
    Finished.decode?_remnant, if_neg (by decide +kernel)]
  simp [newest]

end Concolic.StateDir
