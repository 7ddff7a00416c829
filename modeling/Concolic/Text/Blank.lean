/-
  Blank characters: the property White_Space of the Unicode character database.
-/

namespace Concolic.Text

/-- The ranges of White_Space, as first and last code point. -/
def blankRanges : List (Nat × Nat) :=
  [(0x09, 0x0d), (0x20, 0x20), (0x85, 0x85), (0xa0, 0xa0), (0x1680, 0x1680), (0x2000, 0x200a),
   (0x2028, 0x2029), (0x202f, 0x202f), (0x205f, 0x205f), (0x3000, 0x3000)]

/-- A character of the table. -/
def isBlank (c : Char) : Bool :=
  blankRanges.any fun (lo, hi) => lo ≤ c.toNat && c.toNat ≤ hi

/-- The text without the blanks before its first and after its last other character. -/
def trim (cs : List Char) : List Char :=
  ((cs.dropWhile isBlank).reverse.dropWhile isBlank).reverse

/-- Nothing but blanks. -/
def allBlank (s : String) : Bool := s.toList.all isBlank

/-! ## The table agrees with the ASCII class and is exact at its edges -/

example : (blankRanges.map fun (lo, hi) => hi + 1 - lo).sum = 25 := by decide
example : isBlank ' ' ∧ isBlank '\t' ∧ isBlank '\r' ∧ isBlank '\n' := by decide
example : isBlank '\u200b' = false ∧ isBlank '\ufeff' = false ∧ isBlank '\u2003' = true := by decide

end Concolic.Text
