/-
  Splitting a text at a separator, and into lines.
-/

namespace Concolic.Text

/-- One step of `splitOn`, from the right: a separator opens a new first piece. -/
def splitStep (sep c : Char) : List (List Char) → List (List Char)
  | [] => if c = sep then [[], []] else [[c]]
  | piece :: rest => if c = sep then [] :: piece :: rest else (c :: piece) :: rest

/-- The pieces of a text between the separators. -/
def splitOn (sep : Char) (cs : List Char) : List (List Char) :=
  cs.foldr (splitStep sep) [[]]

/-- The pieces with the separator put back between them. -/
def joinWith (sep : Char) : List (List Char) → List Char
  | [] => []
  | [piece] => piece
  | piece :: rest => piece ++ sep :: joinWith sep rest

/-- A line that was ended by a line feed loses one carriage return at its end. -/
def dropReturn (line : List Char) : List Char :=
  if line.getLast? = some '\r' then line.dropLast else line

/-- The lines of a text, without their endings. -/
def lines (cs : List Char) : List (List Char) :=
  let pieces := splitOn '\n' cs
  let ended := pieces.dropLast.map dropReturn
  match pieces.getLast? with
  | none => ended
  | some [] => ended
  | some rest => ended ++ [rest]

/-! ## Laws of `splitOn` -/

theorem splitOn_nil (sep : Char) : splitOn sep [] = [[]] := rfl

theorem splitOn_cons (sep c : Char) (cs : List Char) :
    splitOn sep (c :: cs) = splitStep sep c (splitOn sep cs) := rfl

theorem splitStep_ne_nil (sep c : Char) (ps : List (List Char)) : splitStep sep c ps ≠ [] := by
  cases ps <;> simp only [splitStep] <;> split <;> simp

theorem splitOn_ne_nil (sep : Char) (cs : List Char) : splitOn sep cs ≠ [] := by
  cases cs with
  | nil => simp [splitOn_nil]
  | cons c cs => rw [splitOn_cons]; exact splitStep_ne_nil sep c _

theorem joinWith_splitOn (sep : Char) (cs : List Char) : joinWith sep (splitOn sep cs) = cs := by
  induction cs with
  | nil => rfl
  | cons c cs ih =>
    rw [splitOn_cons]
    cases hp : splitOn sep cs with
    | nil => exact absurd hp (splitOn_ne_nil sep cs)
    | cons p ps =>
      rw [hp] at ih
      by_cases h : c = sep
      · simp [splitStep, h, joinWith, ih]
      · cases ps <;> simp_all [splitStep, joinWith]

theorem not_mem_of_mem_splitOn {sep : Char} {cs piece : List Char}
    (h : piece ∈ splitOn sep cs) : sep ∉ piece := by
  induction cs generalizing piece with
  | nil => simp_all [splitOn_nil]
  | cons c cs ih =>
    rw [splitOn_cons] at h
    cases hp : splitOn sep cs with
    | nil => exact absurd hp (splitOn_ne_nil sep cs)
    | cons p ps =>
      rw [hp] at h ih
      by_cases hc : c = sep
      · rcases (by simpa [splitStep, hc] using h : piece = [] ∨ piece = p ∨
          piece ∈ ps) with h | h | h
        · simp [h]
        · exact ih (by simp [h])
        · exact ih (by simp [h])
      · rcases (by simpa [splitStep, hc] using h : piece = c :: p ∨ piece ∈ ps) with h | h
        · have : sep ∉ p := ih (by simp)
          simp only [h, List.mem_cons, not_or]
          exact ⟨fun e => hc e.symm, this⟩
        · exact ih (by simp [h])

end Concolic.Text
