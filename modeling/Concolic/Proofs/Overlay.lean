import Concolic.Config
import Concolic.Proofs.Lock
import Concolic.Proofs.Toml.Document
import Concolic.Proofs.Tree.Course

/-
  Configuration files overlay the defaults.

  The fields that are `chosen` take their values from one configuration, all others from another;
  `Written` says which texts give the chosen fields.
-/

namespace Concolic

theorem Text.allBlank_iff (s : String) : allBlank s = true ↔ trim s.toList = [] := by
  rw [allBlank, trim, List.reverse_eq_nil_iff, List.dropWhile_eq_nil_iff, List.all_eq_true]
  constructor
  · intro h c hc
    rw [List.dropWhile_eq_nil_iff.mpr h] at hc
    cases hc
  · intro h
    refine List.dropWhile_eq_nil_iff.mp ?_
    cases hrest : s.toList.dropWhile isBlank with
    | nil => rfl
    | cons c rest =>
      -- what is left starts with a character that is not blank
      have hfirst := List.head?_dropWhile_not isBlank s.toList
      rw [hrest] at h hfirst
      have hblank := h c (by simp)
      dsimp only [List.head?_cons] at hfirst
      rw [hblank] at hfirst
      cases hfirst

namespace Config

open Toml (Value Layout Line Writes Describes)

/-! ## The choice -/

section Choice

variable (chosen : String → Bool) (c base : Config)

/-- The value of a field: of `c` if it is chosen, of `base` otherwise. -/
def pick {α : Type} (key : String) (field : Config → α) : α :=
  if chosen key then field c else field base

/-- The configuration `base` with the chosen fields of `c` in place of its own. -/
def overlay : Config :=
  { session :=
      { maxIterations := pick chosen c base "max_iterations" (·.session.maxIterations)
        workDir := pick chosen c base "work_dir" (·.session.workDir)
        writeState := pick chosen c base "write_state" (·.session.writeState) }
    executor :=
      { java := pick chosen c base "java" (·.executor.java)
        maxHeap := pick chosen c base "max_heap" (·.executor.maxHeap)
        initialHeap := pick chosen c base "initial_heap" (·.executor.initialHeap)
        loggerClass := pick chosen c base "logger_class" (·.executor.loggerClass)
        confFile := pick chosen c base "conf_file" (·.executor.confFile)
        agentJar := pick chosen c base "agent_jar" (·.executor.agentJar)
        projectRoot := pick chosen c base "project_root" (·.executor.projectRoot)
        auxClasspath := pick chosen c base "aux_classpath" (·.executor.auxClasspath)
        extraJvmArgs := pick chosen c base "extra_jvm_args" (·.executor.extraJvmArgs)
        timeoutSeconds := pick chosen c base "timeout_seconds" (·.executor.timeoutSeconds) } }

/-! ## The file -/

/-- A list of texts as a value. -/
def texts (ss : List String) : Value := .array (ss.map .text)

/-- The fields of the section on sessions, with their values. -/
def sessionFields : List (String × Value) :=
  [("max_iterations", .integer c.session.maxIterations.toNat),
   ("work_dir", .text c.session.workDir),
   ("write_state", .boolean c.session.writeState)]

/-- The fields of the section on the executor, with their values. -/
def executorFields : List (String × Value) :=
  [("java", .text c.executor.java),
   ("max_heap", .text c.executor.maxHeap),
   ("initial_heap", .text c.executor.initialHeap),
   ("logger_class", .text c.executor.loggerClass),
   ("conf_file", .text c.executor.confFile),
   ("agent_jar", .text c.executor.agentJar),
   ("project_root", .text c.executor.projectRoot),
   ("aux_classpath", texts c.executor.auxClasspath),
   ("extra_jvm_args", texts c.executor.extraJvmArgs),
   ("timeout_seconds", .integer c.executor.timeoutSeconds.toNat)]

end Choice

/-- The two sections with these keys, in either order, their keys in any order.  A section without
    keys may be missing. -/
structure Arranged (session executor : List (String × Value))
    (parts : List (String × List (String × Value))) : Prop where
  names : (parts.map Prod.fst).Nodup
  known : ∀ part ∈ parts, part.1 = "session" ∧ part.2.Perm session ∨
    part.1 = "executor" ∧ part.2.Perm executor
  session_eq : "session" ∉ parts.map Prod.fst → session = []
  executor_eq : "executor" ∉ parts.map Prod.fst → executor = []

/-- A text of a configuration file that gives the chosen fields of `c`. -/
def Written (chosen : String → Bool) (c : Config) (text : String) : Prop :=
  ∃ parts, Describes parts text ∧
    Arranged (c.sessionFields.filter fun f => chosen f.1)
      (c.executorFields.filter fun f => chosen f.1) parts

/-! ## The reading -/

theorem texts?_texts (ss : List String) : texts? (texts ss) = some ss := by
  show (ss.map Value.text).mapM text? = some ss
  induction ss with
  | nil => rfl
  | cons s ss ih =>
    rw [List.map_cons, List.mapM_cons, ih]
    rfl

theorem uint32?_integer (n : UInt32) : uint32? (.integer n.toNat) = some n := by
  have hnat : nat? Text.limit32 (.integer n.toNat) = some n.toNat := if_pos (UInt32.toNat_lt n)
  rw [uint32?, hnat, Option.map_some, UInt32.ofNat_toNat]

theorem uint64?_integer (n : UInt64) : uint64? (.integer n.toNat) = some n := by
  have hnat : nat? Text.limit64 (.integer n.toNat) = some n.toNat := if_pos (UInt64.toNat_lt n)
  rw [uint64?, hnat, Option.map_some, UInt64.ofNat_toNat]

theorem field_ite {α : Type} {read : Value → Option α} {form : α → Value}
    (h : ∀ a, read (form a) = some a) (given : Bool) (a fallback : α) :
    field fallback read (if given then some (form a) else none) =
      some (if given then a else fallback) := by
  cases given with
  | false => rfl
  | true => exact h a

section Reading

variable {chosen : String → Bool} {c : Config} {s : Section}

theorem sessionOf?_chosen
    (h : ∀ f ∈ c.sessionFields, s f.1 = if chosen f.1 then some f.2 else none) :
    sessionOf? s = some (overlay chosen c default).session := by
  simp only [sessionFields, List.forall_mem_cons] at h
  obtain ⟨hiterations, hworkDir, hwriteState, -⟩ := h
  rw [sessionOf?, hiterations, hworkDir, hwriteState, field_ite uint32?_integer,
    @field_ite _ text? Value.text fun _ => rfl, @field_ite _ bool? Value.boolean fun _ => rfl]
  rfl

theorem executorOf?_chosen
    (h : ∀ f ∈ c.executorFields, s f.1 = if chosen f.1 then some f.2 else none) :
    executorOf? s = some (overlay chosen c default).executor := by
  have htext := @field_ite _ text? Value.text fun _ => rfl
  simp only [executorFields, List.forall_mem_cons] at h
  obtain ⟨hjava, hmaxHeap, hinitialHeap, hloggerClass, hconfFile, hagentJar,
    hprojectRoot, hauxClasspath, hextraJvmArgs, htimeout, -⟩ := h
  simp only [executorOf?, hjava, hmaxHeap, hinitialHeap, hloggerClass, hconfFile,
    hagentJar, hprojectRoot, hauxClasspath, hextraJvmArgs, htimeout, htext, field_ite texts?_texts,
    field_ite uint64?_integer]
  rfl

theorem section?_of_parts {l : Layout} {name : String} {fields : List (String × Value)}
    {parts : List (String × List (String × Value))} (hshows : ∀ part ∈ parts, l.Shows part.1 part.2)
    (habsent : name ∉ parts.map Prod.fst → l.get? [.name name] = none)
    (hfields : (fields.map Prod.fst).Nodup)
    (hbody : ∀ part ∈ parts, part.1 = name → part.2.Perm (fields.filter fun f => chosen f.1))
    (hmissing : name ∉ parts.map Prod.fst → (fields.filter fun f => chosen f.1) = [])
    (names : List String) :
    ∃ s, section? l name names = some s ∧
      ∀ f ∈ fields, s f.1 = if chosen f.1 then some f.2 else none := by
  by_cases hmem : name ∈ parts.map Prod.fst
  · obtain ⟨part, hpart, rfl⟩ := List.mem_map.mp hmem
    have hperm := hbody part hpart rfl
    have hnodup := (hperm.map Prod.fst).nodup_iff.mpr (hfields.sublist (List.filter_sublist.map _))
    have htable : ∀ key, ofTable l [.name part.1] key = part.2.lookup key := by
      intro key
      have hkey : l.get? ([.name part.1] ++ [.name key]) = (part.2.lookup key).map Toml.Slot.leaf :=
        (hshows part hpart).2 key
      rw [ofTable, hkey]
      cases part.2.lookup key <;> rfl
    refine ⟨ofTable l [.name part.1], by rw [section?, (hshows part hpart).1], fun f hf => ?_⟩
    rw [htable, lookup_perm hperm hnodup]
    cases hchosen : chosen f.1 with
    | false => exact lookup_filter_of_neg fields chosen hchosen
    | true =>
        exact (lookup_filter_of_pos fields chosen hchosen).trans
          ((lookup_eq_some_iff hfields).mpr hf)
  · refine ⟨noSection, by rw [section?, habsent hmem], fun f hf => ?_⟩
    have hchosen := List.filter_eq_nil_iff.mp (hmissing hmem) f hf
    rw [if_neg hchosen]
    rfl

/-- **A file is read as the defaults with its fields in place of theirs.** -/
theorem config_of_written {text : String} (h : Written chosen c text) :
    (Toml.read? text).bind ofLayout? = some (overlay chosen c default) := by
  obtain ⟨parts, hdescribes, harranged⟩ := h
  have hsessionNames : (c.sessionFields.map Prod.fst).Nodup := show sessionNames.Nodup by decide
  have hexecutorNames : (c.executorFields.map Prod.fst).Nodup := show executorNames.Nodup by decide
  have hkeys : ∀ part ∈ parts, (part.2.map Prod.fst).Nodup := by
    intro part hpart
    rcases harranged.known part hpart with ⟨-, hperm⟩ | ⟨-, hperm⟩
    · exact (hperm.map Prod.fst).nodup_iff.mpr (hsessionNames.sublist (List.filter_sublist.map _))
    · exact (hperm.map Prod.fst).nodup_iff.mpr (hexecutorNames.sublist (List.filter_sublist.map _))
  obtain ⟨l, hl, hshows, habsent⟩ := Toml.read?_of_describes hdescribes harranged.names hkeys
  obtain ⟨session, hsession, hsessionFields⟩ := section?_of_parts hshows (habsent "session")
    hsessionNames (fun part hpart hname => ((harranged.known part hpart).resolve_right fun h =>
      absurd (hname.symm.trans h.1) (by decide)).2) harranged.session_eq sessionNames
  obtain ⟨executor, hexecutor, hexecutorFields⟩ := section?_of_parts hshows (habsent "executor")
    hexecutorNames (fun part hpart hname => ((harranged.known part hpart).resolve_left fun h =>
      absurd (hname.symm.trans h.1) (by decide)).2) harranged.executor_eq executorNames
  rw [hl, Option.bind_some, ofLayout?, hsession, hexecutor]
  show (do
    let session ← sessionOf? session
    let executor ← executorOf? executor
    some (⟨session, executor⟩ : Config)) = _
  rw [sessionOf?_chosen hsessionFields, executorOf?_chosen hexecutorFields]
  rfl

end Reading

/-! ## Loading -/

theorem loadFrom_of_contents {cwd : Loc} {t : Tree} {path text : String}
    (h : t.contents? cwd path = some text.toUTF8) : loadFrom cwd t path = ofText text := by
  have hread := t.toOption_readText cwd path
  rw [h, Option.bind_some, Lock.fromUTF8?_toUTF8] at hread
  rw [loadFrom]
  cases htext : t.readText cwd path with
  | error f =>
    rw [htext] at hread
    cases hread
  | ok s =>
    rw [htext] at hread
    cases hread
    rfl

/-- **A partial file overlays the defaults.**  Every text can be written as a value; and however the
    chosen fields are written, loading gives the defaults with these fields replaced, unless the
    budget is then zero or the virtual machine has no name. -/
theorem partial_file_overlays_defaults :
    (∀ s : String, ∃ form, Toml.Quoted s form) ∧
    ∀ (chosen : String → Bool) (c : Config) (text : String), Written chosen c text →
      ∀ (t : Tree) (cwd : Loc) (path : String), t.contents? cwd path = some text.toUTF8 →
        ((overlay chosen c default).session.maxIterations ≠ 0 →
          Text.trim (overlay chosen c default).executor.java.toList ≠ [] →
          loadFrom cwd t path = .ok (overlay chosen c default)) ∧
        ((overlay chosen c default).session.maxIterations = 0 ∨
          Text.trim (overlay chosen c default).executor.java.toList = [] →
          ∃ reason, loadFrom cwd t path = .error (.failure (.config reason))) := by
  refine ⟨Toml.exists_quoted, fun chosen c text hwritten t cwd path hfile => ?_⟩
  rw [loadFrom_of_contents hfile, ofText, config_of_written hwritten]
  generalize overlay chosen c default = config
  have hblank := Text.allBlank_iff config.executor.java
  by_cases hbudget : config.session.maxIterations = 0
  · simp [validate, hbudget]
  · by_cases hjava : Text.trim config.executor.java.toList = []
    · simp [validate, hbudget, hblank, hjava]
    · simp [validate, hbudget, hblank, hjava]

/-- A tree with one file. -/
def fileTree (text : String) : Tree := Tree.empty.put ["c.toml"] (.file ⟨text.toUTF8, false⟩)

/-- A file that gives a field of each section, the section on sessions last. -/
def mixedText : String :=
  "[executor]\nextra_jvm_args = [\"\\u00E9\"]\n[session]\nmax_iterations = 7\n"

/-- A file that leaves the virtual machine without a name. -/
def blankText : String := "[executor]\njava = \" \\t\"\n"

/-- Values for fields that are given. -/
def sample : Config :=
  { session := { SessionConfig.default with maxIterations := 7 }
    executor := { ExecutorConfig.default with java := " \t", extraJvmArgs := ["é"] } }

theorem written_mixedText :
    Written (fun key => key = "max_iterations" ∨ key = "extra_jvm_args") sample mixedText := by
  have hspelt : Toml.Spelled "é".toList "\\u00E9".toList :=
    .cons (@Toml.Spells.four 'é' ['0', '0', 'E', '9'] rfl ⟨2, by decide⟩) .nil
  refine ⟨[("executor", [("extra_jvm_args", texts ["é"])]),
    ("session", [("max_iterations", .integer 7)])],
    ⟨["[executor]\n".toList, "extra_jvm_args = [\"\\u00E9\"]\n".toList, "[session]\n".toList,
      "max_iterations = 7\n".toList], ?_, rfl⟩, by simp, ?_, by simp, by simp⟩
  · exact .cons (@Line.Written.header "executor" (by decide))
      (.cons (@Line.Written.pair "extra_jvm_args" _ _ (by decide) (.texts (.last ⟨_, hspelt, rfl⟩)))
        (.cons (@Line.Written.header "session" (by decide))
          (.cons (@Line.Written.pair "max_iterations" _ _ (by decide)
            (@Writes.integer 7 (by decide))) .nil)))
  · exact List.forall_mem_cons.mpr ⟨.inr ⟨rfl, .rfl⟩,
      List.forall_mem_singleton.mpr (.inl ⟨rfl, .rfl⟩)⟩

theorem written_blankText : Written (fun key => key = "java") sample blankText := by
  have hspelt : Toml.Spelled " \t".toList " \\t".toList :=
    .cons (.plain (by decide) (by decide) (by decide)) (.cons (.short (by decide)) .nil)
  refine ⟨[("executor", [("java", .text " \t")])],
    ⟨["[executor]\n".toList, "java = \" \\t\"\n".toList], ?_, rfl⟩, by simp, ?_,
    fun _ => rfl, by simp⟩
  · exact .cons (@Line.Written.header "executor" (by decide))
      (.cons (@Line.Written.pair "java" _ _ (by decide) (.text ⟨_, hspelt, rfl⟩)) .nil)
  · exact List.forall_mem_singleton.mpr (.inr ⟨rfl, .rfl⟩)

/-- Fields of both sections, with the section on sessions last, and a file without that section in
    which the virtual machine has no name. -/
theorem mixedText_loaded :
    loadFrom [] (fileTree mixedText) "c.toml" = .ok
      { session := { SessionConfig.default with maxIterations := 7 }
        executor := { ExecutorConfig.default with extraJvmArgs := ["é"] } } ∧
    ∃ reason, loadFrom [] (fileTree blankText) "c.toml" = .error (.failure (.config reason)) := by
  have hmixed := partial_file_overlays_defaults.2 _ _ _ written_mixedText
      (fileTree mixedText) [] "c.toml" rfl
  have hblank := partial_file_overlays_defaults.2 _ _ _ written_blankText
      (fileTree blankText) [] "c.toml" rfl
  exact ⟨hmixed.1 (by decide) (by decide), hblank.2 (.inr (by decide))⟩

end Config

end Concolic
