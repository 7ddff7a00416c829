/-
  Rounding to the nearest, halves to the even neighbour.
-/

namespace Concolic.Rounding

/-- The whole number nearest to `n / d`; of two equally near ones the even one. -/
def roundDiv (n d : Nat) : Nat :=
  let q := n / d
  let r := n % d
  if 2 * r < d then q
  else if d < 2 * r then q + 1
  else q + q % 2

/-- The unit in which rounded fractions are counted is one over this. -/
def scale : Nat := Nat.pow 2 128

/-- The number of binary digits that are kept. -/
def precision : Nat := 53

/-- The fraction `n / d` rounded to `precision` binary digits, in units of `1 / scale`. -/
def significant (n d : Nat) : Nat :=
  let whole := n * scale / d
  let place := Nat.pow 2 (whole.log2 + 1 - precision)
  roundDiv (n * scale) (d * place) * place

end Concolic.Rounding
