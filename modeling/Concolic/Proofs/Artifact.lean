import Concolic.Proofs.Tree.Entry

/-
  Artifacts in a working directory.

  In a settled directory an artifact is its contents, and the steps of an iteration are what they do
  to contents.  The names matter only in that they differ: no number is written in two ways, and no
  archive has the name of what is archived.
-/

namespace Concolic

namespace Artifact

/-! ## Names -/

/-- The archive of the inputs of iteration `i`. -/
def number (i : Nat) : String := inputs ++ Nat.repr i

/-- The name of a numbered archive: any digits after the name of the inputs. -/
def IsNumbered (name : String) : Prop :=
  ∃ digits : List Char, digits ≠ [] ∧ (∀ c ∈ digits, c.isDigit = true) ∧
    name.toList = inputs.toList ++ digits

/-- A name that only archives have. -/
def IsArchive (name : String) : Prop := IsNumbered name ∨ name = inputsOld ∨ name = historyOld

/-- The name of an archive, or of something that a session reads. -/
def IsArtifact (name : String) : Prop :=
  IsArchive name ∨ name = inputs ∨ name = marker ∨ name = history ∨ name = backtrackFlag

theorem toList_number (i : Nat) : (number i).toList = inputs.toList ++ Nat.toDigits 10 i := by
  rw [number, String.toList_append, Nat.toList_repr]

theorem isNumbered_number (i : Nat) : IsNumbered (number i) :=
  ⟨Nat.toDigits 10 i, by simp, fun _ hc => Nat.isDigit_of_mem_toDigits (by omega) (by omega) hc,
    toList_number i⟩

theorem numbered_ofNat {i : Nat} (h : i < UInt32.size) : numbered (UInt32.ofNat i) = number i := by
  rw [numbered, number, UInt32.toNat_ofNat_of_lt' h]

theorem number_injective {i j : Nat} (h : number i = number j) : i = j := by
  have hdigits : Nat.toDigits 10 i = Nat.toDigits 10 j := by
    have hlist := congrArg String.toList h
    rw [toList_number, toList_number] at hlist
    exact List.append_cancel_left hlist
  have hread := congrArg (fun digits => Nat.ofDigitChars 10 digits 0) hdigits
  simpa using hread

theorem IsNumbered.ne {name other : String} (h : IsNumbered name)
    (hother : other ∈ [inputs, marker, history, backtrackFlag, inputsOld, historyOld]) :
    name ≠ other := by
  rintro rfl
  obtain ⟨digits, hne, hdigits, hlist⟩ := h
  have htail : name.toList.drop 6 = digits := by
    rw [hlist]
    rfl
  have hhead : name.toList.take 6 = inputs.toList := by
    rw [hlist]
    rfl
  simp only [List.mem_cons, List.not_mem_nil, or_false] at hother
  rcases hother with rfl | rfl | rfl | rfl | rfl | rfl
  · exact hne htail.symm
  iterate 3
    · exact absurd hhead (by decide)
  · -- a dot is no digit
    exact absurd (hdigits '.' (htail ▸ by decide)) (by decide)
  · exact absurd hhead (by decide)

/-- No artifact is a lock file: none of the names ends in the same letter. -/
theorem IsArtifact.ne_lock {name : String} (h : IsArtifact name) (stem : String) :
    name ≠ stem ++ ".lock" := by
  rintro rfl
  have hlast : (stem ++ ".lock").toList.getLast? = some 'k' := by
    rw [String.toList_append, List.getLast?_append]
    rfl
  generalize stem ++ ".lock" = name at h hlast
  rcases h with (⟨digits, hne, hdigits, hlist⟩ | rfl | rfl) | rfl | rfl | rfl | rfl
  · rw [hlist, List.getLast?_append, Option.or_of_isSome (by simp [hne])] at hlast
    exact absurd (hdigits 'k' (List.mem_of_mem_getLast? hlast)) (by decide)
  all_goals exact absurd hlast (by decide)

/-- The name can be used in any directory. -/
structure IsUsable (name : String) : Prop where
  plain : Path.IsPlain name
  isName : Tree.IsName name
  no_nul : '\x00' ∉ name.toList

theorem utf8ByteSize_ofList_le (cs : List Char) :
    (String.ofList cs).utf8ByteSize ≤ 4 * cs.length := by
  induction cs with
  | nil => simp
  | cons c cs ih =>
    have hc := Char.utf8Size_le_four c
    rw [Text.utf8ByteSize_cons, List.length_cons]
    omega

theorem isUsable_number {i : Nat} (h : i < UInt32.size) : IsUsable (number i) := by
  have hdigit : ∀ c : Char, c ∈ (number i).toList → c ∈ inputs.toList ∨ c.isDigit = true := by
    intro c hc
    rw [toList_number] at hc
    exact (List.mem_append.mp hc).imp_right (Nat.isDigit_of_mem_toDigits (by omega) (by omega))
  have hfirst : (number i).toList.head? = some 'i' := by
    rw [toList_number]
    rfl
  refine ⟨⟨?_, ?_⟩, ⟨?_, ?_, ?_⟩, ?_⟩
  · intro hempty
    rw [hempty] at hfirst
    cases hfirst
  · intro hslash
    exact absurd (hdigit _ hslash) (by decide)
  · intro hdot
    rw [hdot] at hfirst
    exact absurd hfirst (by decide)
  · intro hup
    rw [hup] at hfirst
    exact absurd hfirst (by decide)
  · have hlength : (Nat.toDigits 10 i).length ≤ 10 :=
      (Nat.length_toDigits_le_iff (by omega) (by omega)).mpr (Nat.lt_trans h (by decide))
    have hsize := utf8ByteSize_ofList_le (number i).toList
    rw [String.ofList_toList, toList_number, List.length_append] at hsize
    have hinputs : inputs.toList.length = 6 := by decide
    show (number i).utf8ByteSize ≤ 255
    omega
  · intro hnul
    exact absurd (hdigit _ hnul) (by decide)

theorem isUsable_of_mem {name : String}
    (h : name ∈ [inputs, marker, history, backtrackFlag, inputsOld, historyOld]) :
    IsUsable name := by
  simp only [List.mem_cons, List.not_mem_nil, or_false] at h
  rcases h with rfl | rfl | rfl | rfl | rfl | rfl <;>
    exact ⟨⟨by decide, by decide⟩, ⟨by decide, by decide, by decide⟩, by decide⟩

end Artifact

/-! ## Contents -/

/-- The bytes of the regular file that has a name in a directory. -/
def Tree.content (t : Tree) (d : Loc) (name : String) : Option ByteArray :=
  (t.blob? (name :: d)).map Blob.bytes

theorem Tree.content_none {t : Tree} {d : Loc} {name : String} (h : t.node? (name :: d) = none) :
    t.content d name = none := by
  rw [content, blob?, h]
  rfl

theorem Tree.content_file {t : Tree} {d : Loc} {name : String} {b : Blob}
    (h : t.node? (name :: d) = some (.file b)) : t.content d name = some b.bytes := by
  rw [content, blob?, h]
  rfl

theorem Tree.content_congr {t t' : Tree} {d : Loc} {name : String}
    (h : t'.node? (name :: d) = t.node? (name :: d))
    (hplain : ∀ id, t.node? (name :: d) ≠ some (.shared id)) :
    t'.content d name = t.content d name := by
  rw [content, content, blob?, blob?, h]
  cases hnode : t.node? (name :: d) with
  | none => rfl
  | some node =>
    cases node with
    | shared id => exact absurd hnode (hplain id)
    | _ => rfl

namespace Workspace

open Artifact (IsArtifact IsUsable)

variable {ws : Workspace} {cwd d : Loc} {t t' : Tree} {name src dst : String}

/-- The path of the workspace leads to `d`, and its artifacts are regular files of one name.  A
    directory that the machine keeps may be taken as well, but holds none. -/
structure Settled (ws : Workspace) (cwd : Loc) (t : Tree) (d : Loc) : Prop where
  reaches : t.Reaches cwd ws.root d
  plain : ∀ {name : String} {node : Node}, IsArtifact name → t.node? (name :: d) = some node →
    (t.node? d = some .folder ∧ ∃ b, node = .file b) ∨
      (t.node? d = some .sealed ∧ (node = .sealed ∨ ∃ device, node = .device device))

/-- The path of an artifact is not too long for the system. -/
def HasRoom (ws : Workspace) (name : String) : Prop :=
  (ws.artifact name).utf8ByteSize ≤ Tree.maxPath

instance (ws : Workspace) (name : String) : Decidable (ws.HasRoom name) :=
  inferInstanceAs (Decidable (_ ≤ _))

/-- The artifact can be worked with: its name is usable and its path not too long. -/
structure Fits (ws : Workspace) (name : String) : Prop where
  usable : IsUsable name
  room : ws.HasRoom name

theorem Fits.slash (h : ws.Fits name) : (Path.route (ws.artifact name)).slash = false := by
  rw [artifact, Path.route_join _ h.usable.plain]

theorem Settled.names (h : ws.Settled cwd t d) (hfits : ws.Fits name) :
    t.Names cwd (ws.artifact name) d name :=
  h.reaches.names hfits.usable.plain hfits.usable.isName
    (Tree.checkText_join h.reaches.text hfits.usable.plain hfits.usable.no_nul hfits.room)

theorem Settled.not_link (h : ws.Settled cwd t d) (hname : IsArtifact name) {node : Node}
    (hnode : t.node? (name :: d) = some node) (target : String) : node ≠ .link target := by
  rintro rfl
  rcases h.plain hname hnode with ⟨-, b, hb⟩ | ⟨-, hb | ⟨device, hb⟩⟩ <;> cases hb

theorem Settled.not_shared (h : ws.Settled cwd t d) (hname : IsArtifact name) (id : Nat) :
    t.node? (name :: d) ≠ some (.shared id) := by
  intro hnode
  rcases h.plain hname hnode with ⟨-, b, hb⟩ | ⟨-, hb | ⟨device, hb⟩⟩ <;> cases hb

theorem Settled.file_of_content (h : ws.Settled cwd t d) (hname : IsArtifact name)
    {bytes : ByteArray} (hcontent : t.content d name = some bytes) :
    t.node? d = some .folder ∧ ∃ b, t.node? (name :: d) = some (.file b) ∧ b.bytes = bytes := by
  cases hnode : t.node? (name :: d) with
  | none =>
    rw [Tree.content_none hnode] at hcontent
    cases hcontent
  | some node =>
    rcases h.plain hname hnode with ⟨hd, b, rfl⟩ | ⟨-, rfl | ⟨device, rfl⟩⟩
    · rw [Tree.content_file hnode] at hcontent
      exact ⟨hd, b, rfl, Option.some.inj hcontent⟩
    · rw [Tree.content, Tree.blob?, hnode] at hcontent
      cases hcontent
    · rw [Tree.content, Tree.blob?, hnode] at hcontent
      cases hcontent

theorem Settled.blob?_of_content_none (hcontent : t.content d name = none) :
    t.blob? (name :: d) = none := by
  rw [Tree.content, Option.map_eq_none_iff] at hcontent
  exact hcontent

theorem Settled.of_change (h : ws.Settled cwd t d) (hk : Tree.Keeps t t')
    (hplain : ∀ name node, IsArtifact name → t'.node? (name :: d) = some node →
      t.node? (name :: d) = some node ∨ (t.node? d = some .folder ∧ ∃ b, node = .file b)) :
    ws.Settled cwd t' d := by
  have hd : ∀ node : Node, t.node? d = some node → node.isRoad = true → t'.node? d = some node :=
    fun node hnode hroad => hk d node hnode hroad
  refine ⟨h.reaches.mono hk, fun {name node} hname hnode => ?_⟩
  rcases hplain name node hname hnode with hold | ⟨hfolder, hfile⟩
  · rcases h.plain hname hold with ⟨hfolder, hfile⟩ | ⟨hsealed, hkept⟩
    · exact .inl ⟨hd _ hfolder rfl, hfile⟩
    · exact .inr ⟨hd _ hsealed rfl, hkept⟩
  · exact .inl ⟨hd _ hfolder rfl, hfile⟩

/-! ## Copies -/

/-- What a copy to `dst` comes to that finds the contents `source`, or nothing to copy. -/
structure Copied (t t' : Tree) (d : Loc) (source : Option ByteArray) (dst : String) (copy : Copy) :
    Prop where
  isCopied : copy.isCopied = source.isSome
  elsewhere : ∀ loc, loc ≠ dst :: d → t'.node? loc = t.node? loc
  missing : source = none → t' = t
  found : ∀ bytes, source = some bytes → t.node? d = some .folder ∧
    (∀ old, t.node? (dst :: d) = some old → ∃ b, old = .file b) ∧
    ∃ b, t'.node? (dst :: d) = some (.file b) ∧ b.bytes = bytes

theorem copied_of_error {p q : String} {f : Fault} (h : t.copy cwd p q = (t, .error f)) :
    Copied t (copyArtifact cwd t p q).2 d none dst (copyArtifact cwd t p q).1 := by
  have htree : (copyArtifact cwd t p q).2 = t := by
    unfold copyArtifact
    rw [h]
    dsimp only
    split <;> rfl
  refine ⟨?_, fun loc _ => by rw [htree], fun _ => htree, fun bytes hbytes => by cases hbytes⟩
  unfold copyArtifact
  rw [h]
  dsimp only
  split <;> rfl

theorem checkText_long (h : ¬ ws.HasRoom name) :
    ∃ f, Tree.checkText (ws.artifact name) = .error f := by
  have hsize : (ws.artifact name).utf8ByteSize > Tree.maxPath := Nat.not_le.mp h
  rw [Tree.checkText]
  simp only [hsize, if_true]
  split
  · exact ⟨_, rfl⟩
  · split <;> exact ⟨_, rfl⟩

theorem copy_to_long (h : ¬ ws.HasRoom dst) (src : String) :
    ∃ f, t.copy cwd src (ws.artifact dst) = (t, .error f) := by
  obtain ⟨f, hf⟩ := checkText_long h
  have hwrite : t.writeLoc cwd (ws.artifact dst) = .error f := by
    rw [Tree.writeLoc, Tree.resolveNew, hf]
    rfl
  cases hfind : t.lookup cwd true src with
  | error f => exact ⟨f, Tree.copy_of_missing hfind⟩
  | ok loc =>
    have hends : ∃ f, t.copyEnds cwd src (ws.artifact dst) = .error f := by
      rw [Tree.copyEnds_eq, hfind]
      simp only [Except.bind, hwrite]
      split <;> exact ⟨_, rfl⟩
    exact hends.imp fun f => Tree.copy_of_ends

theorem copy_missing (h : ws.Settled cwd t d) (hsrc : ws.Fits src) (hname : IsArtifact src)
    (hcontent : t.content d src = none) (dst : String) :
    ∃ f, t.copy cwd (ws.artifact src) (ws.artifact dst) = (t, .error f) := by
  have hblob := Settled.blob?_of_content_none hcontent
  cases hnode : t.node? (src :: d) with
  | none => exact ⟨.notFound, Tree.copy_of_missing ((h.names hsrc).lookup_none hnode true)⟩
  | some node =>
    refine ⟨.notRegular, Tree.copy_of_ends ?_⟩
    rw [Tree.copyEnds_eq,
      (h.names hsrc).lookup_some hsrc.slash hnode (h.not_link hname hnode) true]
    simp only [Except.bind, hblob]

theorem HasRoom.mono (h : ws.HasRoom dst) (hsrc : Path.IsPlain src) (hdst : Path.IsPlain dst)
    (hle : src.utf8ByteSize ≤ dst.utf8ByteSize) : ws.HasRoom src := by
  have hpaths : (ws.artifact src).utf8ByteSize ≤ (ws.artifact dst).utf8ByteSize := by
    rw [artifact, artifact, Path.join, Path.join, hsrc.not_absolute, hdst.not_absolute]
    simp only [Bool.false_eq_true, if_false]
    split <;> simp only [String.utf8ByteSize_append] <;> omega
  exact Nat.le_trans hpaths h

/-- **Copying an artifact** to a name that is not shorter makes it the same if the source has
    contents and the path is not too long, and does nothing otherwise. -/
theorem copied_copyArtifact (h : ws.Settled cwd t d) (husable : IsUsable src)
    (husable' : IsUsable dst) (hname : IsArtifact src) (hname' : IsArtifact dst) (hne : src ≠ dst)
    (hle : src.utf8ByteSize ≤ dst.utf8ByteSize) :
    Copied t (copyArtifact cwd t (ws.artifact src) (ws.artifact dst)).2 d
      (if ws.HasRoom dst then t.content d src else none) dst
      (copyArtifact cwd t (ws.artifact src) (ws.artifact dst)).1 := by
  by_cases hroom : ws.HasRoom dst
  · have hsrc : ws.Fits src := ⟨husable, hroom.mono husable.plain husable'.plain hle⟩
    have hdst : ws.Fits dst := ⟨husable', hroom⟩
    rw [if_pos hroom]
    cases hcontent : t.content d src with
    | none =>
      obtain ⟨f, hcopy⟩ := copy_missing h hsrc hname hcontent dst
      exact copied_of_error hcopy
    | some bytes =>
      obtain ⟨hd, b, hfile, rfl⟩ := h.file_of_content hname hcontent
      -- nothing but files stands in an ordinary directory
      have hold : Tree.IsSlot t (dst :: d) := by
        intro old hnode
        rcases h.plain hname' hnode with ⟨-, hfile'⟩ | ⟨hsealed, -⟩
        · exact hfile'
        · rw [hd] at hsealed
          cases hsealed
      obtain ⟨t', hcopy, hmade, helse⟩ := (h.names hsrc).copy hsrc.slash hfile (h.names hdst)
        hdst.slash hold (by simp [hd]) fun heq => hne (List.cons.inj heq).1
      have hresult : copyArtifact cwd t (ws.artifact src) (ws.artifact dst) =
          (.copied b.bytes.size, t') := by
        unfold copyArtifact
        rw [hcopy]
      rw [hresult]
      refine ⟨rfl, helse, fun hnone => ?_, fun bytes hbytes => ⟨hd, hold, b, hmade, ?_⟩⟩
      · cases hnone
      · exact Option.some.inj hbytes
  · rw [if_neg hroom]
    obtain ⟨f, hcopy⟩ := copy_to_long hroom (ws.artifact src)
    exact copied_of_error hcopy

section Copied

variable {source : Option ByteArray} {copy : Copy} (h : Copied t t' d source dst copy)
include h

/-- A copy writes one regular file of the directory, or nothing. -/
theorem Copied.rewrites : Tree.Rewrites d t t' := by
  intro loc hne
  obtain rfl : loc = dst :: d := Classical.byContradiction fun hloc => hne (h.elsewhere loc hloc)
  cases source with
  | none => exact absurd (by rw [h.missing rfl]) hne
  | some bytes =>
    obtain ⟨-, hold, b, hnew, -⟩ := h.found bytes rfl
    exact ⟨dst, rfl, hold, Tree.isSlot_of_file hnew⟩

theorem Copied.keeps : Tree.Keeps t t' := h.rewrites.keeps

theorem Copied.settled (hs : ws.Settled cwd t d) : ws.Settled cwd t' d := by
  refine hs.of_change h.keeps fun name node _ hnode => ?_
  by_cases hname : name = dst
  · subst hname
    cases hsource : source with
    | none =>
      rw [h.missing hsource] at hnode
      exact .inl hnode
    | some bytes =>
      obtain ⟨hd, -, b, hmade, -⟩ := h.found bytes hsource
      rw [hmade] at hnode
      exact .inr ⟨hd, b, (Option.some.inj hnode).symm⟩
  · rw [h.elsewhere _ (by simpa using hname)] at hnode
    exact .inl hnode

theorem Copied.content_dst : t'.content d dst = source.or (t.content d dst) := by
  cases hsource : source with
  | none => rw [h.missing hsource, Option.none_or]
  | some bytes =>
    obtain ⟨-, -, b, hmade, rfl⟩ := h.found bytes hsource
    rw [Tree.content_file hmade, Option.some_or]

theorem Copied.content_ne (hs : ws.Settled cwd t d) (hname : IsArtifact name) (hne : name ≠ dst) :
    t'.content d name = t.content d name :=
  Tree.content_congr (h.elsewhere _ (by simpa using hne)) (hs.not_shared hname)

end Copied

/-! ## The marker -/

/-- The contents of a marker that call the inputs synthetic. -/
def saysSynthetic (bytes : ByteArray) : Bool :=
  match String.fromUTF8? bytes with
  | some text => InputKind.ofText text = .synthetic
  | none => false

/-- A session takes inputs beside a marker with these contents for synthetic.  It sees no marker
    whose path is too long. -/
def callsSynthetic (ws : Workspace) (marker : Option ByteArray) : Bool :=
  decide (ws.HasRoom Artifact.marker) && marker.any saysSynthetic

theorem kind_readMarker_of_text {text : String}
    (h : t.readText cwd (ws.artifact Artifact.marker) = .ok text) :
    (ws.readMarker cwd t).kind = InputKind.ofText text := by
  simp [readMarker, h, Marker.kind]

/-- A marker that cannot be read as text stands for real inputs. -/
theorem kind_readMarker_of_error {f : Fault}
    (h : t.readText cwd (ws.artifact Artifact.marker) = .error f) :
    (ws.readMarker cwd t).kind = .real := by
  simp only [readMarker, h]
  split <;> rfl

theorem saysSynthetic_iff {bytes : ByteArray} : saysSynthetic bytes = true ↔
    ∃ text, String.fromUTF8? bytes = some text ∧ InputKind.ofText text = .synthetic := by
  rw [saysSynthetic]
  cases String.fromUTF8? bytes <;> simp

/-- **When inputs are synthetic**: exactly if the path of the marker leads to a regular file whose
    contents say so. -/
theorem kind_readMarker_iff (ws : Workspace) (cwd : Loc) (t : Tree) :
    (ws.readMarker cwd t).kind = .synthetic ↔
      ∃ loc b, t.lookup cwd true (ws.artifact Artifact.marker) = .ok loc ∧ t.blob? loc = some b ∧
        saysSynthetic b.bytes = true := by
  constructor
  · intro h
    cases hread : t.readText cwd (ws.artifact Artifact.marker) with
    | error f =>
      rw [kind_readMarker_of_error hread] at h
      cases h
    | ok text =>
      rw [kind_readMarker_of_text hread] at h
      obtain ⟨loc, b, hfind, hat, htext⟩ := Tree.readText_eq_ok hread
      refine ⟨loc, b, hfind, ?_, saysSynthetic_iff.mpr ⟨text, htext, h⟩⟩
      rcases Tree.readAt_eq_ok hat with hblob | ⟨-, rfl⟩
      · exact hblob
      · -- a device reads as an empty text, which says nothing
        rw [show String.fromUTF8? Blob.empty.bytes = some "" by decide +kernel] at htext
        cases htext
        exact absurd h (by decide +kernel)
  · rintro ⟨loc, b, hfind, hblob, hsays⟩
    obtain ⟨text, htext, hkind⟩ := saysSynthetic_iff.mp hsays
    have hread := Tree.readText_of_readAt hfind
        (show t.readAt loc = .ok b by rw [Tree.readAt, hblob])
    rw [htext] at hread
    rw [kind_readMarker_of_text hread, hkind]

/-- In a settled directory the marker is the artifact of that name. -/
theorem kind_readMarker_synthetic (h : ws.Settled cwd t d) :
    ((ws.readMarker cwd t).kind = .synthetic) ↔
      ws.callsSynthetic (t.content d Artifact.marker) = true := by
  have hname : IsArtifact Artifact.marker := .inr (.inr (.inl rfl))
  have husable := Artifact.isUsable_of_mem (show Artifact.marker ∈ _ by simp)
  rw [kind_readMarker_iff, callsSynthetic, Bool.and_eq_true, decide_eq_true_eq, Tree.content]
  constructor
  · rintro ⟨loc, b, hfind, hblob, hsays⟩
    have hroom : ws.HasRoom Artifact.marker := by
      refine Decidable.byContradiction fun hlong => ?_
      obtain ⟨f, hf⟩ := checkText_long hlong
      obtain ⟨a, hres, -⟩ := Tree.lookup_eq_ok hfind
      rw [Tree.text_of_resolve hres] at hf
      cases hf
    have hfits : ws.Fits Artifact.marker := ⟨husable, hroom⟩
    have hloc := (h.names hfits).eq_of_lookup
        (fun _ target hnode => h.not_link hname hnode target rfl)
      hfind
    rw [← hloc, hblob]
    exact ⟨hroom, hsays⟩
  · rintro ⟨hroom, hsays⟩
    have hfits : ws.Fits Artifact.marker := ⟨husable, hroom⟩
    cases hblob : t.blob? (Artifact.marker :: d) with
    | none =>
      rw [hblob] at hsays
      cases hsays
    | some b =>
      obtain ⟨-, b', hfile, -⟩ := h.file_of_content hname (by rw [Tree.content, hblob]; rfl)
      rw [hblob] at hsays
      exact ⟨_, b, (h.names hfits).lookup_some hfits.slash hfile (by simp) true, hblob, hsays⟩

/-! ## The archives of one iteration -/

/-- What archiving before iteration `i` does to the artifacts. -/
structure Archives (ws : Workspace) (t t' : Tree) (d : Loc) (i : Nat) : Prop where
  keeps : Tree.Keeps t t'
  /-- The inputs go under the number unless they are synthetic. -/
  number : t'.content d (Artifact.number i) =
    (if ws.HasRoom (Artifact.number i) ∧ ws.callsSynthetic (t.content d Artifact.marker) = false
      then t.content d Artifact.inputs else none).or (t.content d (Artifact.number i))
  inputsOld : t'.content d Artifact.inputsOld =
    (if ws.HasRoom Artifact.inputsOld then t.content d Artifact.inputs else none).or
      (t.content d Artifact.inputsOld)
  historyOld : t'.content d Artifact.historyOld =
    (if ws.HasRoom Artifact.historyOld then t.content d Artifact.history else none).or
      (t.content d Artifact.historyOld)
  others : ∀ name, IsArtifact name → name ≠ Artifact.number i → name ≠ Artifact.inputsOld →
    name ≠ Artifact.historyOld → t'.content d name = t.content d name

theorem Archives.same {i : Nat} {t'' : Tree} (h : Archives ws t t' d i) (hk : Tree.Keeps t' t'')
    (hsame : ∀ name, IsArtifact name → t''.content d name = t'.content d name) :
    Archives ws t t'' d i := by
  refine ⟨h.keeps.trans hk, ?_, ?_, ?_, fun name hname hne hne' hne'' => ?_⟩
  · rw [hsame _ (.inl (.inl (Artifact.isNumbered_number i))), h.number]
  · rw [hsame _ (.inl (.inr (.inl rfl))), h.inputsOld]
  · rw [hsame _ (.inl (.inr (.inr rfl))), h.historyOld]
  · rw [hsame name hname, h.others name hname hne hne' hne'']

theorem isArtifact_number (i : Nat) : IsArtifact (Artifact.number i) :=
  .inl (.inl (Artifact.isNumbered_number i))

/-- The first copy of an iteration: the inputs go under their number if they are real. -/
def copyNumbered (ws : Workspace) (cwd : Loc) (i : Nat) (t : Tree) : Copy × Tree :=
  match (ws.readMarker cwd t).kind with
  | .real => copyArtifact cwd t (ws.artifact Artifact.inputs)
      (ws.artifact (Artifact.numbered (UInt32.ofNat i)))
  | .synthetic => (.skipped, t)

theorem copied_copyNumbered (h : ws.Settled cwd t d) {i : Nat} (hi : i < UInt32.size) :
    Copied t (ws.copyNumbered cwd i t).2 d
      (if ws.HasRoom (Artifact.number i) ∧ ws.callsSynthetic (t.content d Artifact.marker) = false
        then t.content d Artifact.inputs else none) (Artifact.number i)
      (ws.copyNumbered cwd i t).1 := by
  have hkind := kind_readMarker_synthetic h
  unfold copyNumbered
  rw [Artifact.numbered_ofNat hi]
  cases hk : (ws.readMarker cwd t).kind with
  | synthetic =>
    rw [hkind.mp hk]
    simp only [Bool.true_eq_false, and_false, if_false]
    exact ⟨rfl, fun _ _ => rfl, fun _ => rfl, fun _ hbytes => by cases hbytes⟩
  | real =>
    have hreal : ws.callsSynthetic (t.content d Artifact.marker) = false := by
      rw [← Bool.not_eq_true, ← hkind, hk]
      simp
    have hsize : Artifact.inputs.utf8ByteSize ≤ (Artifact.number i).utf8ByteSize := by
      rw [Artifact.number, String.utf8ByteSize_append]
      omega
    rw [hreal]
    simp only [and_true]
    exact copied_copyArtifact h (Artifact.isUsable_of_mem (by simp)) (Artifact.isUsable_number hi)
      (.inr (.inl rfl)) (isArtifact_number i)
      ((Artifact.isNumbered_number i).ne (by simp)).symm hsize

/-- **The archives of one iteration.** -/
theorem archives_snapshots (h : ws.Settled cwd t d) {i : Nat} (hi : i < UInt32.size) :
    let taken := ws.snapshotInputs cwd (UInt32.ofNat i) t
    let saved := ws.snapshotHistory cwd taken.2
    ws.Settled cwd saved.2 d ∧ Tree.Rewrites d t saved.2 ∧ Archives ws t saved.2 d i ∧
      taken.1.numbered.isCopied =
        (if ws.HasRoom (Artifact.number i) ∧ ws.callsSynthetic (t.content d Artifact.marker) = false
          then t.content d Artifact.inputs else none).isSome := by
  intro taken saved
  have hinputs : IsArtifact Artifact.inputs := .inr (.inl rfl)
  have hhistory : IsArtifact Artifact.history := .inr (.inr (.inr (.inl rfl)))
  have hinputsOld : IsArtifact Artifact.inputsOld := .inl (.inr (.inl rfl))
  have hhistoryOld : IsArtifact Artifact.historyOld := .inl (.inr (.inr rfl))
  have hnumber := Artifact.isNumbered_number i
  let t₁ := (ws.copyNumbered cwd i t).2
  have hcopy₁ : Copied t t₁ d _ (Artifact.number i) taken.1.numbered := copied_copyNumbered h hi
  have hs₁ := hcopy₁.settled h
  have hcopy₂ : Copied t₁ taken.2 d _ Artifact.inputsOld taken.1.previous :=
    copied_copyArtifact hs₁ (Artifact.isUsable_of_mem (by simp))
      (Artifact.isUsable_of_mem (by simp)) hinputs hinputsOld (by decide) (by decide)
  have hs₂ := hcopy₂.settled hs₁
  have hcopy₃ : Copied taken.2 saved.2 d _ Artifact.historyOld saved.1 :=
    copied_copyArtifact hs₂ (Artifact.isUsable_of_mem (by simp))
      (Artifact.isUsable_of_mem (by simp)) hhistory hhistoryOld (by decide) (by decide)
  refine ⟨hcopy₃.settled hs₂, (hcopy₁.rewrites.trans hcopy₂.rewrites).trans hcopy₃.rewrites,
    ⟨(hcopy₁.keeps.trans hcopy₂.keeps).trans hcopy₃.keeps, ?_, ?_, ?_, ?_⟩, hcopy₁.isCopied⟩
  · rw [hcopy₃.content_ne hs₂ (isArtifact_number i) (hnumber.ne (by simp)),
      hcopy₂.content_ne hs₁ (isArtifact_number i) (hnumber.ne (by simp)), hcopy₁.content_dst]
  · rw [hcopy₃.content_ne hs₂ hinputsOld (by decide), hcopy₂.content_dst,
      hcopy₁.content_ne h hinputs (hnumber.ne (by simp)).symm,
      hcopy₁.content_ne h hinputsOld (hnumber.ne (by simp)).symm]
  · rw [hcopy₃.content_dst, hcopy₂.content_ne hs₁ hhistory (by decide),
      hcopy₂.content_ne hs₁ hhistoryOld (by decide),
      hcopy₁.content_ne h hhistory (hnumber.ne (by simp)).symm,
      hcopy₁.content_ne h hhistoryOld (hnumber.ne (by simp)).symm]
  · intro name hname hne hne' hne''
    rw [hcopy₃.content_ne hs₂ hname hne'', hcopy₂.content_ne hs₁ hname hne',
      hcopy₁.content_ne h hname hne]

end Workspace

end Concolic
