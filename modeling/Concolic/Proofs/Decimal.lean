import Concolic.Text.Decimal

/-
  The digits of numbers, in every base up to sixteen.
-/

namespace Concolic.Text

theorem hexValue?_digitChar {d : Nat} (h : d < 16) : hexValue? (Nat.digitChar d) = some d := by
  have hvalue : ∀ d < 16, hexValue? (Nat.digitChar d) = some d := by decide
  exact hvalue d h

theorem foldl_toDigits {base : Nat} (hlo : 2 ≤ base) (hhi : base ≤ 16) (n : Nat) :
    (Nat.toDigits base n).foldl (fun acc c => pushDigit base acc (hexValue? c))
    (some 0) = some n := by
  induction n using Nat.strongRecOn with
  | ind n ih =>
    by_cases hn : n < base
    · rw [Nat.toDigits_of_lt_base hn]
      simp [hexValue?_digitChar (show n < 16 by omega), pushDigit, hn]
    · have hmod : n % base < base := Nat.mod_lt n (by omega)
      have hdiv : n / base < n := Nat.div_lt_self (by omega) (by omega)
      rw [Nat.toDigits_of_base_le (by omega) (by omega), List.foldl_append, ih (n / base) hdiv]
      simp only [List.foldl, hexValue?_digitChar (show n % base < 16 by omega),
        pushDigit, if_pos hmod]
      rw [Nat.div_add_mod]

theorem ofDigits?_toDigits (n : Nat) : ofDigits? 10 (Nat.toDigits 10 n) = some n := by
  rw [ofDigits?, if_neg Nat.toDigits_ne_nil, foldl_toDigits (by omega) (by omega)]

/-- The digits of a number do not begin with a zero, unless it is zero. -/
theorem head_toDigits (n : Nat) {rest : List Char} (h : Nat.toDigits 10 n = '0' :: rest) :
    n = 0 := by
  have hzero : ∀ d < 10, Nat.digitChar d = '0' → d = 0 := by decide
  induction n using Nat.strongRecOn generalizing rest with
  | ind n ih =>
    by_cases hn : n < 10
    · rw [Nat.toDigits_of_lt_base hn] at h
      exact hzero n hn (List.cons.inj h).1
    · rw [Nat.toDigits_of_base_le (by omega) (by omega)] at h
      cases hds : Nat.toDigits 10 (n / 10) with
      | nil => exact absurd hds Nat.toDigits_ne_nil
      | cons c cs =>
        rw [hds] at h
        obtain ⟨rfl, -⟩ := List.cons.inj h
        have := ih (n / 10) (by omega) hds
        omega

theorem isDigit_of_mem_toDigits {n : Nat} {c : Char} (h : c ∈ Nat.toDigits 10 n) :
    isDigit c = true := by
  have hdigit := Nat.isDigit_of_mem_toDigits (by omega) (by omega) h
  rw [Char.isDigit, Bool.and_eq_true, decide_eq_true_eq, decide_eq_true_eq] at hdigit
  have hbounds : '0' ≤ c ∧ c ≤ '9' := hdigit
  rw [isDigit, digitValue?, if_pos hbounds]
  rfl

theorem isDigit_of_toDigits_eq_cons {n : Nat} {c : Char} {rest : List Char}
    (h : Nat.toDigits 10 n = c :: rest) : isDigit c = true := by
  refine isDigit_of_mem_toDigits (n := n) ?_
  rw [h]
  exact List.mem_cons_self

end Concolic.Text
