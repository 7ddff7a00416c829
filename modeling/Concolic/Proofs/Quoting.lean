import Concolic.Command

/-
  Command lines read back: `words?` takes a line apart by the rules of quoting, one character after
  the other.
-/

namespace Concolic.Command

/-! ## The rules of quoting -/

/-- How the next character of a line is taken. -/
inductive Mode where
  | plain
  | quoted
  | escaped
  deriving DecidableEq

/-- A line that has been read in part. -/
structure Reading where
  /-- The words that a space has ended. -/
  ended : List (List Char)
  /-- The word that has begun since; quotes begin one even if nothing is between them. -/
  word? : Option (List Char)
  mode : Mode

namespace Reading

/-- Goes on with the word, or begins one, with some more characters. -/
def extend (r : Reading) (cs : List Char) (mode : Mode) : Reading :=
  ⟨r.ended, some (r.word?.getD [] ++ cs), mode⟩

/-- Reads one character. -/
def step (r : Reading) (c : Char) : Reading :=
  match r.mode with
  | .plain =>
    if c = ' ' then ⟨r.ended ++ r.word?.toList, none, .plain⟩
    else if c = '\'' then r.extend [] .quoted
    else if c = '\\' then r.extend [] .escaped
    else r.extend [c] .plain
  | .quoted => if c = '\'' then r.extend [] .plain else r.extend [c] .quoted
  | .escaped => r.extend [c] .plain

/-- The words of a line that has been read to its end, unless something is left open. -/
def words? (r : Reading) : Option (List String) :=
  if r.mode = .plain then some ((r.ended ++ r.word?.toList).map String.ofList) else none

end Reading

/-- The words of a line. -/
def words? (line : String) : Option (List String) :=
  (line.toList.foldl Reading.step ⟨[], none, .plain⟩).words?

/-- A part that is shown without quotes has no quote and no backslash in it. -/
def IsClear (part : String) : Prop :=
  part ≠ "" → part.toList.any Text.isBlank = false → '\'' ∉ part.toList ∧ '\\' ∉ part.toList

/-! ## Reading what is shown -/

/-- A part between quotes is one word: a quote in it closes the quotes, comes after a backslash and
    opens them again. -/
theorem foldl_step_quoted (ended : List (List Char)) (cs word : List Char) :
    (cs.flatMap quoteChar).foldl Reading.step ⟨ended, some word, .quoted⟩ =
      ⟨ended, some (word ++ cs), .quoted⟩ := by
  induction cs generalizing word with
  | nil => simp
  | cons c cs ih =>
    have hchar : (quoteChar c).foldl Reading.step ⟨ended, some word, .quoted⟩ =
        ⟨ended, some (word ++ [c]), .quoted⟩ := by
      by_cases hquote : c = '\''
      · subst hquote
        simp [quoteChar, Reading.step, Reading.extend]
      · simp [quoteChar, Reading.step, Reading.extend, hquote]
    rw [List.flatMap_cons, List.foldl_append, hchar, ih, List.append_assoc]
    rfl

theorem foldl_step_bare (ended : List (List Char)) {cs : List Char} (word : List Char)
    (h : ∀ c ∈ cs, c ≠ ' ' ∧ c ≠ '\'' ∧ c ≠ '\\') :
    cs.foldl Reading.step ⟨ended, some word, .plain⟩ = ⟨ended, some (word ++ cs), .plain⟩ := by
  induction cs generalizing word with
  | nil => simp
  | cons c cs ih =>
    obtain ⟨hspace, hquote, hslash⟩ := h c List.mem_cons_self
    have hstep : Reading.step ⟨ended, some word, .plain⟩ c =
        ⟨ended, some (word ++ [c]), .plain⟩ := by
      simp [Reading.step, Reading.extend, hspace, hquote, hslash]
    rw [List.foldl_cons, hstep, ih _ fun c' hc' => h c' (List.mem_cons_of_mem c hc'),
      List.append_assoc]
    rfl

/-- **One part** is read as one word. -/
theorem foldl_step_showPart (ended : List (List Char)) {part : String} (h : IsClear part) :
    (showPart part).toList.foldl Reading.step ⟨ended, none, .plain⟩ =
      ⟨ended, some part.toList, .plain⟩ := by
  rw [showPart]
  split
  · have hopen : Reading.step ⟨ended, none, .plain⟩ '\'' = ⟨ended, some [], .quoted⟩ := rfl
    have hclose : Reading.step ⟨ended, some part.toList, .quoted⟩ '\'' =
        ⟨ended, some part.toList, .plain⟩ := by
      simp [Reading.step, Reading.extend]
    rw [String.toList_ofList, List.foldl_cons, hopen, List.foldl_append, foldl_step_quoted,
      List.nil_append]
    exact hclose
  · rename_i hbare
    obtain ⟨hne, hblank⟩ : part ≠ "" ∧ part.toList.any Text.isBlank = false := by simpa using hbare
    obtain ⟨hquote, hslash⟩ := h hne hblank
    have hplain : ∀ c ∈ part.toList, c ≠ ' ' ∧ c ≠ '\'' ∧ c ≠ '\\' := by
      intro c hc
      refine ⟨?_, fun he => hquote (he ▸ hc), fun he => hslash (he ▸ hc)⟩
      rintro rfl
      exact List.any_eq_false.mp hblank ' ' hc (by decide)
    -- the first character begins the word as it would go on with an empty one
    cases hcs : part.toList with
    | nil => exact absurd (String.toList_eq_nil_iff.mp hcs) hne
    | cons c cs =>
      have hfirst : Reading.step ⟨ended, none, .plain⟩ c =
          Reading.step ⟨ended, some [], .plain⟩ c := by
        obtain ⟨hspace, -, -⟩ := hplain c (by simp [hcs])
        simp [Reading.step, Reading.extend, hspace]
      rw [hcs] at hplain
      rw [List.foldl_cons, hfirst, ← List.foldl_cons, foldl_step_bare ended [] hplain]
      rfl

/-- **All parts**, with spaces between them, are read as they are. -/
theorem words?_foldl_step {parts : List String} (h : ∀ part ∈ parts, IsClear part)
    (ended : List (List Char)) :
    (([' '].intercalate (parts.map fun part => (showPart part).toList)).foldl Reading.step
      ⟨ended, none, .plain⟩).words? = some (ended.map String.ofList ++ parts) := by
  induction parts generalizing ended with
  | nil => simp [Reading.words?, List.intercalate]
  | cons part parts ih =>
    have hpart := foldl_step_showPart ended (h part List.mem_cons_self)
    cases parts with
    | nil =>
      rw [List.map_singleton, List.intercalate_singleton, hpart]
      simp [Reading.words?]
    | cons next parts =>
      have hspace : Reading.step ⟨ended, some part.toList, .plain⟩ ' ' =
          ⟨ended ++ [part.toList], none, .plain⟩ := rfl
      have hrest := ih (fun part' hpart' => h part' (List.mem_cons_of_mem part hpart'))
        (ended ++ [part.toList])
      rw [List.map_cons] at hrest
      rw [List.map_cons, List.map_cons, List.intercalate_cons_cons, List.foldl_append,
        List.foldl_append, hpart, List.foldl_cons, hspace, List.foldl_nil, hrest]
      simp

/-- **A command is determined by its line**: reading the line gives back the program and the
    arguments, empty ones included. -/
theorem render_reads_back (c : Command) (h : ∀ part ∈ c.program :: c.args, IsClear part) :
    words? c.render = some (c.program :: c.args) := by
  have hwords := words?_foldl_step h []
  rw [words?, render, String.toList_intercalate, List.map_map]
  exact hwords

/-- A command with an empty part, quotes and backslashes among blanks, and a blank that
    is no space. -/
def oddCommand : Command := ⟨"my tool", ["", "it's \\ '' odd", "\u2003'", "-x=$y"]⟩

theorem oddCommand_read_back :
    (∀ part ∈ oddCommand.program :: oddCommand.args, IsClear part) ∧
      oddCommand.render = "'my tool' '' 'it'\\''s \\ '\\'''\\'' odd' '\u2003'\\''' -x=$y" ∧
      words? oddCommand.render = some (oddCommand.program :: oddCommand.args) := by
  have hclear : ∀ part ∈ oddCommand.program :: oddCommand.args, IsClear part := by
    simp only [oddCommand, List.forall_mem_cons]
    exact ⟨fun _ h => absurd h (by decide), fun h => absurd rfl h, fun _ h => absurd h (by decide),
      fun _ h => absurd h (by decide), fun _ _ => ⟨by decide, by decide⟩, fun _ h => by cases h⟩
  exact ⟨hclear, by decide +kernel, render_reads_back oddCommand hclear⟩

end Concolic.Command
