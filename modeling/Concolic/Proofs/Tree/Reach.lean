import Concolic.Proofs.Route
import Concolic.Proofs.Tree.Way
import Concolic.Tree.Compound

/-
  Paths that lead somewhere.

  `Reaches` says that a path text leads to a directory, and `Names` that it leads to a name in a
  directory.  Under them an operation on the path is an operation on the location, and the text is
  not looked at again.
-/

namespace Concolic.Tree

/-- The directory that a path starts from. -/
def start (cwd : Loc) (p : String) : Loc := if Path.isAbsolute p then [] else cwd

/-- The path leads to a directory. -/
structure Reaches (t : Tree) (cwd : Loc) (p : String) (d : Loc) : Prop where
  text : checkText p = .ok ()
  folder : t.isFolderAt d = true
  way : ∃ n ≤ maxLinks, Leads t (start cwd p) (Path.route p).steps d n

/-- The path leads to a name in a directory. -/
structure Names (t : Tree) (cwd : Loc) (p : String) (d : Loc) (name : String) : Prop where
  text : checkText p = .ok ()
  folder : t.isFolderAt d = true
  isName : IsName name
  way : ∃ init, (Path.route p).steps = init ++ [name] ∧
    ∃ n ≤ maxLinks, Leads t (start cwd p) init d n

variable {t t' : Tree} {cwd d d' loc : Loc} {p name name' q : String} {f : Fault} {b : Blob}
  {follow : Bool} {a : Arrival} {node : Node}

/-- The path still leads there while directories and links are kept. -/
theorem Reaches.mono (hk : Keeps t t') (h : Reaches t cwd p d) : Reaches t' cwd p d := by
  obtain ⟨n, hn, hlead⟩ := h.way
  exact ⟨h.text, hk.isFolderAt h.folder, n, hn, hlead.mono hk⟩

/-- A path leads to one directory at most. -/
theorem Reaches.unique (h : Reaches t cwd p d) (h' : Reaches t cwd p d') : d = d' := by
  obtain ⟨n, -, hlead⟩ := h.way
  obtain ⟨n', -, hlead'⟩ := h'.way
  exact (hlead.unique hlead').1

/-- The path still names the entry while directories and links are kept. -/
theorem Names.mono (hk : Keeps t t') (h : Names t cwd p d name) : Names t' cwd p d name := by
  obtain ⟨init, hsteps, n, hn, hlead⟩ := h.way
  exact ⟨h.text, hk.isFolderAt h.folder, h.isName, init, hsteps, n, hn, hlead.mono hk⟩

/-- A path names one entry at most. -/
theorem Names.unique (h : Names t cwd p d name) (h' : Names t cwd p d' name') :
    d = d' ∧ name = name' := by
  obtain ⟨init, hsteps, n, -, hlead⟩ := h.way
  obtain ⟨init', hsteps', n', -, hlead'⟩ := h'.way
  rw [hsteps] at hsteps'
  obtain ⟨rfl, hlast⟩ := List.append_inj' hsteps' rfl
  exact ⟨(hlead.unique hlead').1, by simpa using hlast⟩

theorem Names.reaches (h : Names t cwd p d name) (hf : t.isFolderAt (name :: d) = true) :
    Reaches t cwd p (name :: d) := by
  obtain ⟨init, hsteps, n, hn, hlead⟩ := h.way
  refine ⟨h.text, hf, n, hn, ?_⟩
  rw [hsteps]
  exact hlead.append (.into h.folder h.isName hf (.nil _))

/-! ## Walks of path texts -/

theorem bind_eq_ok {α β : Type} {x : Except Fault α} {f : α → Except Fault β} {b : β}
    (h : x >>= f = .ok b) : ∃ a, x = .ok a ∧ f a = .ok b := by
  cases x with
  | error e => cases h
  | ok a => exact ⟨a, rfl, h⟩

theorem resolve_of_text (h : checkText p = .ok ()) (t : Tree) (cwd : Loc) (follow : Bool) :
    t.resolve cwd follow p =
      t.walk false maxLinks follow (start cwd p) (Path.route p).steps (Path.route p).slash := by
  rw [resolve, h]
  rfl

theorem resolveNew_of_text (h : checkText p = .ok ()) (t : Tree) (cwd : Loc) :
    t.resolveNew cwd p = t.walk true maxLinks (!(Path.route p).slash) (start cwd p)
      (Path.route p).steps (Path.route p).slash := by
  rw [resolveNew, h]
  rfl

theorem text_of_resolve (h : t.resolve cwd follow p = .ok a) : checkText p = .ok () := by
  obtain ⟨u, htext, -⟩ := bind_eq_ok h
  exact htext

theorem text_of_resolveNew (h : t.resolveNew cwd p = .ok a) : checkText p = .ok () := by
  obtain ⟨u, htext, -⟩ := bind_eq_ok h
  exact htext

theorem lookup_eq_ok (h : t.lookup cwd follow p = .ok loc) :
    ∃ a, t.resolve cwd (follow || (Path.route p).slash) p = .ok a ∧ a.spot.loc = loc ∧
      (t.node? loc).isSome = true := by
  obtain ⟨a, hres, h⟩ := bind_eq_ok h
  split at h
  · cases h
  · rename_i node hnode
    split at h
    · cases h
    · cases h
      exact ⟨a, hres, rfl, by rw [hnode]; rfl⟩

theorem lookup_of_resolve (hres : t.resolve cwd (follow || (Path.route p).slash) p = .ok a)
    (hnode : t.node? a.spot.loc = some node) (hslash : a.slash = true → node.isFolder = true) :
    t.lookup cwd follow p = .ok a.spot.loc := by
  have hno : (a.slash && !node.isFolder) = false := by
    cases hs : a.slash with
    | false => rfl
    | true => rw [hslash hs]; rfl
  rw [lookup, hres]
  simp only [bind, Except.bind, hnode, hno, Bool.false_eq_true, if_false]

/-! ## Directories -/

theorem Reaches.lookup (h : Reaches t cwd p d) : t.lookup cwd true p = .ok d := by
  obtain ⟨n, hn, hlead⟩ := h.way
  obtain ⟨a, hwalk, rfl⟩ := walk_of_leads hlead h.folder maxLinks (Path.route p).slash hn
  obtain ⟨node, hnode, hfolder⟩ := isFolderAt_iff.mp h.folder
  refine lookup_of_resolve ?_ hnode fun _ => hfolder
  rw [Bool.true_or, resolve_of_text h.text]
  exact hwalk

theorem reaches_of_lookup (h : t.lookup cwd follow p = .ok d)
    (hfollow : (follow || (Path.route p).slash) = true) (hd : t.isFolderAt d = true) :
    Reaches t cwd p d := by
  obtain ⟨a, hres, rfl, -⟩ := lookup_eq_ok h
  have htext := text_of_resolve hres
  rw [resolve_of_text htext, hfollow] at hres
  exact ⟨htext, hd, leads_of_walk hd _ _ _ _ hres⟩

/-- A directory is found exactly where the path leads to one. -/
theorem isFolder_iff : t.isFolder cwd p = true ↔ ∃ d, Reaches t cwd p d := by
  rw [isFolder]
  constructor
  · intro h
    cases hlookup : t.lookup cwd true p with
    | error f =>
      rw [hlookup] at h
      cases h
    | ok d =>
      rw [hlookup] at h
      exact ⟨d, reaches_of_lookup hlookup rfl h⟩
  · rintro ⟨d, h⟩
    rw [h.lookup]
    exact h.folder

/-- A walk along a way to a directory that does not go through a link at its end arrives at the
    directory, or at a link, which the last step names. -/
theorem walk_nofollow_of_leads {e : Loc} {ss : List String} {n : Nat} (h : Leads t d ss e n)
    (links : Nat) (hn : n ≤ links) (slash : Bool) :
    ∃ spot, t.walk false links false d ss slash = .ok ⟨spot, slash⟩ ∧
      (spot.loc = e ∨ ∃ d₀ name target, spot = .entry d₀ name ∧
        t.node? (name :: d₀) = some (.link target)) := by
  rcases List.eq_nil_or_concat ss with rfl | ⟨init, last, rfl⟩
  · cases h
    rw [walk_eq_scan]
    exact ⟨.here _, rfl, .inl rfl⟩
  rw [List.concat_eq_append] at h ⊢
  obtain ⟨d₀, n₁, n₂, hinit, hlast, rfl⟩ := h.split
  rw [walk_append rfl hinit false (by simp) links (by omega), walk_eq_scan]
  cases hlast with
  | stay hd hnil =>
    cases hnil
    rw [scan_dot hd]
    exact ⟨.here e, rfl, .inl rfl⟩
  | up hd hnil =>
    cases hnil
    rw [scan_up hd]
    exact ⟨.here _, rfl, .inl rfl⟩
  | into hd hname hf hnil =>
    cases hnil
    obtain ⟨node, hnode, hfolder⟩ := isFolderAt_iff.mp hf
    rw [scan_name hd hname, hnode]
    refine ⟨.entry d₀ last, ?_, .inl rfl⟩
    cases node with
    | link target => cases hfolder
    | _ => rfl
  | @through _ _ _ target _ _ hd hname hlink _ =>
    rw [scan_name hd hname, hlink]
    exact ⟨.entry d₀ last, rfl, .inr ⟨d₀, last, target, rfl, hlink⟩⟩

theorem names_of_resolve {slash : Bool} (h : t.resolve cwd false p = .ok ⟨.entry d name, slash⟩) :
    Names t cwd p d name ∧ slash = (Path.route p).slash := by
  have htext := text_of_resolve h
  rw [resolve_of_text htext] at h
  obtain ⟨hslash, n, hn, init, hsteps, hlead, hd, hname⟩ := endsAt_of_walk _ _ _ _ h
  exact ⟨⟨htext, hd, hname, init, hsteps, n, hn, hlead⟩, hslash⟩

theorem Reaches.lookup_entry (h : Reaches t cwd p d) :
    t.lookup cwd false p = .ok d ∨ (Path.route p).slash = false ∧ ∃ d₀ name target,
      Names t cwd p d₀ name ∧ t.lookup cwd false p = .ok (name :: d₀) ∧
      t.node? (name :: d₀) = some (.link target) := by
  cases hslash : (Path.route p).slash with
  | true =>
    have hfollow : t.lookup cwd false p = t.lookup cwd true p := by
      rw [Tree.lookup, Tree.lookup, hslash]
      rfl
    exact .inl (hfollow.trans h.lookup)
  | false =>
    obtain ⟨n, hn, hlead⟩ := h.way
    obtain ⟨spot, hwalk, hspot⟩ := walk_nofollow_of_leads hlead maxLinks hn false
    have hres : t.resolve cwd false p = .ok ⟨spot, false⟩ := by
      rw [resolve_of_text h.text, hslash]
      exact hwalk
    have hres' : t.resolve cwd (false || (Path.route p).slash) p = .ok ⟨spot, false⟩ := by
      rw [hslash]
      exact hres
    rcases hspot with rfl | ⟨d₀, name, target, rfl, hlink⟩
    · obtain ⟨node, hnode, -⟩ := isFolderAt_iff.mp h.folder
      exact .inl (lookup_of_resolve hres' hnode fun hs => by cases hs)
    · exact .inr ⟨rfl, d₀, name, target, (names_of_resolve hres).1,
        lookup_of_resolve hres' hlink (fun hs => by cases hs), hlink⟩

theorem Reaches.newLoc (h : Reaches t cwd p d) (folder : Bool) :
    t.newLoc cwd p folder = .error .alreadyExists := by
  obtain ⟨n, hn, hlead⟩ := h.way
  obtain ⟨spot, hwalk, hspot⟩ := walk_nofollow_of_leads hlead maxLinks hn (Path.route p).slash
  rw [Tree.newLoc, resolve_of_text h.text, hwalk]
  simp only [bind, Except.bind]
  cases spot with
  | here e => rfl
  | entry e last =>
    have hsome : (t.node? (last :: e)).isSome = true := by
      rcases hspot with rfl | ⟨d₀, name, target, hentry, hlink⟩
      · obtain ⟨node, hnode, -⟩ := isFolderAt_iff.mp h.folder
        rw [Spot.loc] at hnode
        rw [hnode]
        rfl
      · cases hentry
        rw [hlink]
        rfl
    simp only [hsome, if_true]

/-! ## Names -/

theorem Names.walk_last {creating slash : Bool} (hd : t.isFolderAt d = true)
    (hname : IsName name) (links : Nat)
    (hlink : follow = true → ∀ target, t.node? (name :: d) ≠ some (.link target)) :
    t.walk creating links follow d [name] slash = .ok ⟨.entry d name, slash⟩ := by
  rw [walk_eq_scan, scan_name hd hname]
  split
  · rfl
  · rename_i target hnode
    cases follow with
    | false => rfl
    | true => exact absurd hnode (hlink rfl target)
  · rfl

theorem Names.resolve (h : Names t cwd p d name) (follow : Bool)
    (hlink : follow = true → ∀ target, t.node? (name :: d) ≠ some (.link target)) :
    t.resolve cwd follow p = .ok ⟨.entry d name, (Path.route p).slash⟩ := by
  obtain ⟨init, hsteps, n, hn, hlead⟩ := h.way
  rw [resolve_of_text h.text, hsteps, walk_append rfl hlead follow (by simp) maxLinks hn]
  exact walk_last h.folder h.isName _ hlink

theorem Names.eq_of_lookup (h : Names t cwd p d name)
    (hlink : (follow || (Path.route p).slash) = true →
      ∀ target, t.node? (name :: d) ≠ some (.link target))
    (hfind : t.lookup cwd follow p = .ok loc) : loc = name :: d := by
  obtain ⟨a, hres, rfl, -⟩ := lookup_eq_ok hfind
  rw [h.resolve _ hlink] at hres
  cases hres
  rfl

theorem Names.resolveNew (h : Names t cwd p d name) (hslash : (Path.route p).slash = false)
    (hlink : ∀ target, t.node? (name :: d) ≠ some (.link target)) :
    t.resolveNew cwd p = .ok ⟨.entry d name, false⟩ := by
  obtain ⟨init, hsteps, n, hn, hlead⟩ := h.way
  rw [resolveNew_of_text h.text, hsteps, hslash,
    walk_append rfl hlead (!false) (by simp) maxLinks hn]
  exact walk_last h.folder h.isName _ fun _ => hlink

/-- What can be created is a free name. -/
theorem names_of_newLoc {folder : Bool} (h : t.newLoc cwd p folder = .ok loc) :
    ∃ d name, loc = name :: d ∧ Names t cwd p d name ∧ t.node? (name :: d) = none ∧
      t.node? d ≠ some .sealed ∧ ((Path.route p).slash && !folder) = false := by
  obtain ⟨⟨spot, slash⟩, hres, h⟩ := bind_eq_ok h
  cases spot with
  | here e => cases h
  | entry d name =>
    simp only at h
    split at h
    · cases h
    · rename_i hnone
      split at h
      · cases h
      · rename_i hslash
        rw [sealFault] at h
        by_cases hseal : t.node? d = some .sealed
        · rw [if_pos hseal] at h
          cases h
        · rw [if_neg hseal] at h
          cases h
          obtain ⟨hnames, rfl⟩ := names_of_resolve hres
          exact ⟨d, name, rfl, hnames, by simpa using hnone, hseal, by simpa using hslash⟩

/-! ## Files in a directory -/

theorem Names.lookup_none (h : Names t cwd p d name) (hnode : t.node? (name :: d) = none)
    (follow : Bool) : t.lookup cwd follow p = .error .notFound := by
  rw [Tree.lookup, h.resolve _ (fun _ target => by rw [hnode]; simp)]
  simp only [bind, Except.bind, Spot.loc, hnode]

theorem Names.makeFolder (h : Names t cwd p d name) (hnode : t.node? (name :: d) = none)
    (hd : t.node? d ≠ some .sealed) : t.makeFolder cwd p = .ok (t.put (name :: d) .folder) := by
  rw [Tree.makeFolder, newLoc, h.resolve false (fun hf => by cases hf)]
  simp only [bind, Except.bind, hnode, Option.isSome_none, Bool.false_eq_true, if_false,
    Bool.not_true, Bool.and_false, sealFault, hd]
  rfl

section File

variable (h : Names t cwd p d name) (hslash : (Path.route p).slash = false)
include h hslash

theorem Names.lookup_some (hnode : t.node? (name :: d) = some node)
    (hlink : ∀ target, node ≠ .link target) (follow : Bool) :
    t.lookup cwd follow p = .ok (name :: d) := by
  have hres := h.resolve follow (fun _ target => by simpa [hnode] using hlink target)
  rw [hslash] at hres
  refine lookup_of_resolve (a := ⟨.entry d name, false⟩) ?_ hnode (fun hs => by cases hs)
  rw [hslash, Bool.or_false, hres]

theorem Names.removeFile (hnode : t.node? (name :: d) = some node)
    (hfolder : node.isFolder = false) : t.removeFile cwd p = .ok (t.erase (name :: d)) := by
  rw [Tree.removeFile, h.resolve false (fun hf => by cases hf), hslash]
  simp only [bind, Except.bind, hnode, hfolder, Bool.false_eq_true, if_false]

/-- A free name becomes an empty file. -/
theorem Names.createNew (hnode : t.node? (name :: d) = none) (hd : t.node? d ≠ some .sealed) :
    t.createNew cwd p = .ok (name :: d, t.put (name :: d) (.file Blob.empty)) := by
  rw [Tree.createNew, newLoc, h.resolve false (fun hf => by cases hf), hslash]
  simp only [bind, Except.bind, hnode, Option.isSome_none, Bool.false_eq_true, if_false,
    Bool.false_and, sealFault, hd]
  rfl

theorem Names.writeLoc_none (hnode : t.node? (name :: d) = none) (hd : t.node? d ≠ some .sealed) :
    t.writeLoc cwd p = .ok (name :: d) := by
  rw [writeLoc, h.resolveNew hslash fun target => by rw [hnode]; simp]
  simp only [bind, Except.bind, hnode, Bool.false_eq_true, if_false, sealFault, hd]

theorem Names.writeLoc_file (hnode : t.node? (name :: d) = some (.file b)) :
    t.writeLoc cwd p = .ok (name :: d) := by
  rw [writeLoc, h.resolveNew hslash fun target => by rw [hnode]; simp]
  simp only [bind, Except.bind, hnode, Bool.false_eq_true, if_false, Node.isFolder]

end File

/-! ## Contents -/

theorem resolveNew_of_writeLoc (h : t.writeLoc cwd p = .ok loc) :
    ∃ a, t.resolveNew cwd p = .ok a ∧ a.spot.loc = loc := by
  obtain ⟨⟨spot, slash⟩, hres, h⟩ := bind_eq_ok h
  refine ⟨_, hres, ?_⟩
  cases spot with
  | here d => cases h
  | entry d name =>
    simp only at h
    repeat' split at h
    all_goals first | cases h; rfl | cases h

theorem readText_of_readAt (hfind : t.lookup cwd true p = .ok loc) (hread : t.readAt loc = .ok b) :
    t.readText cwd p = (String.fromUTF8? b.bytes).elim (.error .notText) .ok := by
  rw [readText, readBlob, hfind]
  simp only [bind, Except.bind, hread]
  cases String.fromUTF8? b.bytes <;> rfl

theorem readText_eq_ok {text : String} (h : t.readText cwd p = .ok text) :
    ∃ loc b, t.lookup cwd true p = .ok loc ∧ t.readAt loc = .ok b ∧
      String.fromUTF8? b.bytes = some text := by
  obtain ⟨b, hblob, h⟩ := bind_eq_ok h
  obtain ⟨loc, hfind, hread⟩ := bind_eq_ok hblob
  refine ⟨loc, b, hfind, hread, ?_⟩
  split at h
  · rename_i s hs
    rw [hs, Except.ok.inj h]
  · cases h

/-- What is read are the contents of a regular file, or nothing from a device that has an end. -/
theorem readAt_eq_ok (h : t.readAt loc = .ok b) :
    t.blob? loc = some b ∨ (t.device? loc).isSome = true ∧ b = Blob.empty := by
  rw [readAt] at h
  split at h
  · rename_i hblob
    exact .inl (hblob.trans (congrArg some (Except.ok.inj h)))
  · rename_i hdevice
    split at h
    · cases h
    · exact .inr ⟨by rw [hdevice]; rfl, (Except.ok.inj h).symm⟩
  · cases h

theorem setBlob_of_not_shared (h : ∀ id, t.node? loc ≠ some (.shared id)) (b : Blob) :
    t.setBlob loc b = t.put loc (.file b) := by
  rw [setBlob]
  split
  · rename_i id hnode
    exact absurd hnode (h id)
  · rfl

theorem extend_put (t : Tree) (h : loc ≠ []) (runnable : Bool) (bytes : ByteArray) :
    (t.put loc (.file ⟨ByteArray.empty, runnable⟩)).extend loc bytes =
      .ok ((t.put loc (.file ⟨ByteArray.empty, runnable⟩)).put loc (.file ⟨bytes, runnable⟩)) := by
  have hself := node?_put_self t h (.file ⟨ByteArray.empty, runnable⟩)
  have hblob : (t.put loc (.file ⟨ByteArray.empty, runnable⟩)).blobAt loc =
      ⟨ByteArray.empty, runnable⟩ := by
    rw [blobAt, blob?, hself]
    rfl
  have hdevice : (t.put loc (.file ⟨ByteArray.empty, runnable⟩)).device? loc = none := by
    rw [device?, hself]
  rw [extend, hdevice]
  simp only [hblob, ByteArray.empty_append]
  rw [setBlob_of_not_shared (fun id => by rw [hself]; simp)]

theorem extend_put_empty (t : Tree) (h : loc ≠ []) (bytes : ByteArray) :
    (t.put loc (.file Blob.empty)).extend loc bytes =
      .ok ((t.put loc (.file Blob.empty)).put loc (.file ⟨bytes, false⟩)) :=
  extend_put t h false bytes

/-! ## Copying -/

theorem copyEnds_eq (t : Tree) (cwd : Loc) (src dst : String) :
    t.copyEnds cwd src dst = (t.lookup cwd true src).bind fun srcLoc =>
      match t.blob? srcLoc with
      | none => .error .notRegular
      | some source => (t.writeLoc cwd dst).bind fun dstLoc =>
          .ok (srcLoc, dstLoc, source.runnable) :=
  rfl

/-- Where both paths lead, a copy is a matter of locations. -/
theorem copy_of_landings {src dst : Loc}
    (hfind : t.lookup cwd true p = .ok src) (hb : t.blob? src = some b)
    (hwrite : t.writeLoc cwd q = .ok dst) : t.copy cwd p q = t.refill src dst b.runnable := by
  rw [copy, copyEnds_eq, hfind]
  simp only [Except.bind, hb, hwrite]

/-- A copy that cannot be opened changes nothing. -/
theorem copy_of_ends (h : t.copyEnds cwd p q = .error f) : t.copy cwd p q = (t, .error f) := by
  rw [copy, h]

theorem copy_of_missing (h : t.lookup cwd true p = .error f) : t.copy cwd p q = (t, .error f) := by
  refine copy_of_ends ?_
  rw [copyEnds_eq, h]
  rfl

/-- A copy that is made goes from a regular file to a place that can be written. -/
theorem landings_of_copy {n : Nat} (h : t.copy cwd p q = (t', .ok n)) :
    ∃ src dst b, t.lookup cwd true p = .ok src ∧ t.blob? src = some b ∧
      t.writeLoc cwd q = .ok dst ∧ t.refill src dst b.runnable = (t', .ok n) := by
  rw [copy] at h
  split at h
  · cases h
  · rename_i src dst runnable hends
    rw [copyEnds_eq] at hends
    obtain ⟨src', hfind, hends⟩ := bind_eq_ok hends
    cases hb : t.blob? src' with
    | none =>
      rw [hb] at hends
      cases hends
    | some b =>
      rw [hb] at hends
      obtain ⟨dst', hwrite, hends⟩ := bind_eq_ok hends
      cases hends
      exact ⟨src, dst, b, hfind, hb, hwrite, h⟩

theorem device?_setBlob (h : t.device? loc = none) (b : Blob) :
    (t.setBlob loc b).device? loc = none := by
  rw [setBlob]
  split
  · exact h
  · cases loc with
    | nil => rfl
    | cons name d => rw [device?, node?_put_self t (List.cons_ne_nil name d)]

/-- **A copy that fails leaves the tree as it was**: what cannot be filled has not been emptied. -/
theorem tree_of_copy_error (h : t.copy cwd p q = (t', .error f)) : t' = t := by
  rw [copy] at h
  split at h
  · exact (congrArg Prod.fst h).symm
  · rename_i src dst runnable _
    rw [refill, truncated] at h
    split at h
    · rename_i f' hextend
      obtain rfl := congrArg Prod.fst h
      split at hextend
      · rename_i hdevice
        rw [if_pos hdevice]
      · rename_i hdevice
        -- an emptied file takes any bytes
        rw [extend, device?_setBlob (Option.not_isSome_iff_eq_none.mp hdevice)] at hextend
        cases hextend
    · cases h

theorem extend_induction {P : Tree → Prop} {bytes : ByteArray}
    (h : t.extend loc bytes = .ok t') (ht : P t) (hset : ∀ b, P (t.setBlob loc b)) : P t' := by
  rw [extend] at h
  split at h
  · split at h
    · cases h
      exact ht
    · cases h
  · cases h
    exact ht
  · cases h
    exact hset _

/-- What setting the contents of the destination does not change, copying does not change. -/
theorem refill_induction {P : Tree → Prop} {src dst : Loc} {runnable : Bool} {r : Except Fault Nat}
    (h : t.refill src dst runnable = (t', r)) (ht : P t)
    (hset : ∀ u b, P u → P (u.setBlob dst b)) : P t' := by
  have htrunc : P (t.truncated dst runnable) := by
    rw [truncated]
    split
    · exact ht
    · exact hset t _ ht
  rw [refill] at h
  split at h
  · cases h
    exact htrunc
  · rename_i filled hextend
    cases h
    exact extend_induction hextend htrunc fun b => hset _ b htrunc

/-! ## Names in a directory that a path leads to -/

theorem checkText_join (h : checkText p = .ok ()) (hplain : Path.IsPlain name)
    (hnul : '\x00' ∉ name.toList) (hsize : (Path.join p name).utf8ByteSize ≤ maxPath) :
    checkText (Path.join p name) = .ok () := by
  have hp : '\x00' ∉ p.toList := by
    intro hmem
    rw [checkText] at h
    simp [hmem] at h
  obtain ⟨gap, hjoin, hgap⟩ := Path.toList_join p hplain
  have hgapnul : '\x00' ∉ gap := by
    rcases hgap with ⟨rfl, -⟩ | ⟨init, rfl, hinit | hinit, -⟩
    · simp
    · simpa [hinit] using hp
    · simpa [hinit] using hp
  have hmem : '\x00' ∉ (Path.join p name).toList := by
    rw [hjoin]
    simp [hgapnul, hnul]
  have hne : Path.join p name ≠ "" := by
    intro hempty
    have hnil := congrArg String.toList hempty
    rw [hjoin] at hnil
    exact hplain.ne_empty (String.toList_eq_nil_iff.mp (List.append_eq_nil_iff.mp hnil).2)
  rw [checkText]
  simp [hmem, hne, hsize]

theorem checkText_of_prefix (h : checkText p = .ok ()) (hpre : q.toList <+: p.toList)
    (hne : q ≠ "") : checkText q = .ok () := by
  obtain ⟨rest, hrest⟩ := hpre
  obtain rfl : p = q ++ String.ofList rest := by
    apply String.toList_inj.mp
    rw [String.toList_append, String.toList_ofList, hrest]
  rw [checkText] at h
  split at h
  · cases h
  · rename_i hnul
    split at h
    · cases h
    · split at h
      · cases h
      · rename_i hsize
        rw [String.utf8ByteSize_append] at hsize
        have hq : '\x00' ∉ q.toList := fun hmem => hnul (by simp [hmem])
        have hle : ¬ q.utf8ByteSize > maxPath := by omega
        rw [checkText]
        simp [hq, hne, hle]

theorem checkText_of_join (h : checkText (Path.join p name) = .ok ()) (hplain : Path.IsPlain name)
    (hne : p ≠ "") : checkText p = .ok () := by
  refine checkText_of_prefix h ?_ hne
  obtain ⟨gap, hjoin, ⟨-, hempty⟩ | ⟨init, rfl, hp | hp, -⟩⟩ := Path.toList_join p hplain
  · exact absurd hempty hne
  · rw [hjoin, hp, List.append_assoc]
    exact List.prefix_append _ _
  · rw [hjoin, hp]
    exact List.prefix_append _ _

/-- A name joined to the path is an entry of the directory. -/
theorem Reaches.names (h : Reaches t cwd p d) (hplain : Path.IsPlain name) (hname : IsName name)
    (htext : checkText (Path.join p name) = .ok ()) : Names t cwd (Path.join p name) d name := by
  obtain ⟨n, hn, hlead⟩ := h.way
  refine ⟨htext, h.folder, hname, (Path.route p).steps, ?_, n, hn, ?_⟩
  · rw [Path.route_join p hplain]
  · rw [start, Path.isAbsolute_join p hplain]
    exact hlead

end Concolic.Tree
