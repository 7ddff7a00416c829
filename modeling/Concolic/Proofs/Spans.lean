import Concolic.Failure
import Concolic.Proofs.Decimal
import Mathlib.Data.List.DropRight

/-
  Texts of spans: a number and a unit, and exact.
-/

namespace Concolic.Duration

/-- A decimal number as it is written, without zeros at the end of its fraction. -/
structure Numeral where
  /-- The digits before the dot. -/
  whole : List Char
  /-- The digits after the dot; without any there is no dot. -/
  places : List Char
  whole_ne_nil : whole ≠ []
  isDigit_whole : ∀ c ∈ whole, Text.isDigit c = true
  isDigit_places : ∀ c ∈ places, Text.isDigit c = true
  last_ne_zero : ∀ h : places ≠ [], places.getLast h ≠ '0'

/-- What comes after the whole digits of a number. -/
def tail (places : List Char) : List Char := if places = [] then [] else '.' :: places

/-- The numeral, written out. -/
def Numeral.text (n : Numeral) : String := String.ofList (n.whole ++ tail n.places)

/-- The unit of a span. -/
inductive Measure where
  | seconds
  | millis
  | micros
  | nanos
  deriving DecidableEq

namespace Measure

/-- How the unit is written. -/
def sign : Measure → String
  | seconds => "s"
  | millis => "ms"
  | micros => "µs"
  | nanos => "ns"

/-- The length of a unit in nanoseconds. -/
def length : Measure → Nat
  | seconds => 1000000000
  | millis => 1000000
  | micros => 1000
  | nanos => 1

theorem sign_inj {u u' : Measure} (h : u.sign = u'.sign) : u = u' := by
  cases u <;> cases u' <;> revert h <;> decide

end Measure

/-- The number times the unit is the span: without the dot the number is greater by a
    power of ten. -/
def Numeral.Measures (n : Numeral) (u : Measure) (nanos : Nat) : Prop :=
  Nat.ofDigitChars 10 (n.whole ++ n.places) 0 * u.length = nanos * Nat.pow 10 n.places.length

/-! ## The text is exact -/

theorem fraction_eq (width part : Nat) :
    ∃ places k, fraction width part = String.ofList (tail places) ∧
      (Text.padded width part).toList = places ++ List.replicate k '0' ∧
      ∀ h : places ≠ [], places.getLast h ≠ '0' := by
  rw [fraction]
  generalize (Text.padded width part).toList = digits
  refine ⟨digits.rdropWhile (· = '0'), (digits.rtakeWhile (· = '0')).length, ?_, ?_, ?_⟩
  · rw [tail, apply_ite String.ofList]
    rfl
  · rw [← List.eq_replicate_iff.mpr ⟨rfl, fun c hc => by simpa using List.mem_rtakeWhile_imp hc⟩,
      List.rdropWhile_append_rtakeWhile]
  · intro hne
    simpa using List.rdropWhile_last_not _ digits hne

theorem padded_digits {width part : Nat} (hwidth : 0 < width) (h : part < Nat.pow 10 width) :
    (Text.padded width part).toList.length = width ∧
      Nat.ofDigitChars 10 (Text.padded width part).toList 0 = part ∧
      ∀ c ∈ (Text.padded width part).toList, Text.isDigit c = true := by
  have hlength := (Nat.length_toDigits_le_iff (by omega) hwidth).mpr h
  rw [Text.padded, String.toList_ofList]
  refine ⟨by simp; omega, ?_, fun c hc => ?_⟩
  · rw [Nat.ofDigitChars_append, Nat.ofDigitChars_replicate_zero, Nat.mul_zero,
      Nat.ofDigitChars_toDigits (by omega) (by omega)]
  · rcases List.mem_append.mp hc with hzero | hdigit
    · rw [List.eq_of_mem_replicate hzero]
      rfl
    · exact Text.isDigit_of_mem_toDigits hdigit

/-- **A number with its fraction is exact** for a unit that is divided into as many parts as the
    fraction has digits. -/
theorem measured_exact (u : Measure) (whole : Nat) {width part : Nat} (hwidth : 0 < width)
    (hunit : u.length = Nat.pow 10 width) (h : part < Nat.pow 10 width) :
    ∃ n : Numeral, measured whole width part u.sign = n.text ++ u.sign ∧
      n.Measures u (whole * u.length + part) := by
  obtain ⟨hlength, hvalue, hdigit⟩ := padded_digits hwidth h
  obtain ⟨places, k, hfraction, hpadded, hlast⟩ := fraction_eq width part
  -- with the zeros that are dropped, the digits are the span in the smallest parts of the unit
  have hall : Nat.ofDigitChars 10 (Nat.toDigits 10 whole ++ (Text.padded width part).toList) 0 =
      Nat.pow 10 width * whole + part := by
    rw [Nat.ofDigitChars_append, Nat.ofDigitChars_toDigits (by omega) (by omega),
      Nat.ofDigitChars_eq_ofDigitChars_zero, hlength, hvalue]
    rfl
  rw [hpadded] at hdigit hlength hall
  refine ⟨⟨Nat.toDigits 10 whole, places, Nat.toDigits_ne_nil,
    fun c hc => Text.isDigit_of_mem_toDigits hc, fun c hc => hdigit c (List.mem_append_left _ hc),
    hlast⟩, ?_, ?_⟩
  · rw [measured, hfraction, Numeral.text, String.ofList_append, ← Nat.repr_eq_ofList_toDigits]
  · rw [List.length_append, List.length_replicate] at hlength
    rw [← List.append_assoc, Nat.ofDigitChars_append, Nat.ofDigitChars_replicate_zero] at hall
    have hpow : Nat.pow 10 width = Nat.pow 10 k * Nat.pow 10 places.length := by
      rw [← hlength, Nat.add_comm]
      exact Nat.pow_add 10 _ _
    rw [Numeral.Measures, hunit, Nat.mul_comm whole, ← hall, hpow, ← Nat.mul_assoc]
    exact congrArg (· * Nat.pow 10 places.length) (Nat.mul_comm _ _)

theorem measured_whole (u : Measure) (hunit : u.length = 1) (whole : Nat) :
    ∃ n : Numeral, measured whole 0 0 u.sign = n.text ++ u.sign ∧ n.Measures u whole := by
  refine ⟨⟨Nat.toDigits 10 whole, [], Nat.toDigits_ne_nil,
    fun c hc => Text.isDigit_of_mem_toDigits hc, by simp, by simp⟩, ?_, ?_⟩
  · rw [measured, Numeral.text, Nat.repr_eq_ofList_toDigits, show fraction 0 0 = "" from rfl]
    simp [tail]
  · rw [Numeral.Measures, hunit, List.append_nil, Nat.ofDigitChars_toDigits (by omega) (by omega)]
    rfl

theorem text_exact (d : Duration) :
    ∃ (n : Numeral) (u : Measure), d.text = n.text ++ u.sign ∧ n.Measures u d.totalNanos := by
  have hnanos := d.nanos.isLt
  rw [text, totalNanos]
  generalize d.nanos.val = nanos at hnanos ⊢
  by_cases hsecs : d.secs = 0
  · have hzero : d.secs.toNat * 1000000000 + nanos = nanos := by simp [hsecs]
    rw [if_neg (not_not_intro hsecs), hzero]
    by_cases hmillis : 1000000 ≤ nanos
    · obtain ⟨n, htext, hexact⟩ := measured_exact .millis (nanos / 1000000)
        (show 0 < 6 by omega) rfl
        (Nat.mod_lt nanos (show 0 < 1000000 by omega))
      rw [if_pos hmillis]
      rw [Measure.length, Nat.div_add_mod'] at hexact
      exact ⟨n, .millis, htext, hexact⟩
    · by_cases hmicros : 1000 ≤ nanos
      · obtain ⟨n, htext, hexact⟩ := measured_exact .micros (nanos / 1000) (show 0 < 3 by omega) rfl
          (Nat.mod_lt nanos (show 0 < 1000 by omega))
        rw [if_neg hmillis, if_pos hmicros]
        rw [Measure.length, Nat.div_add_mod'] at hexact
        exact ⟨n, .micros, htext, hexact⟩
      · obtain ⟨n, htext, hexact⟩ := measured_whole .nanos rfl nanos
        rw [if_neg hmillis, if_neg hmicros]
        exact ⟨n, .nanos, htext, hexact⟩
  · obtain ⟨n, htext, hexact⟩ := measured_exact .seconds d.secs.toNat
      (show 0 < 9 by omega) rfl hnanos
    rw [if_pos hsecs]
    exact ⟨n, .seconds, htext, hexact⟩

/-! ## The text is unambiguous -/

/-- A text divided into the digits at its beginning, those after a dot, and the rest. -/
def divide (cs : List Char) : List Char × List Char × List Char :=
  let rest := (cs.dropWhile Text.isDigit).dropWhile (· = '.')
  (cs.takeWhile Text.isDigit, rest.takeWhile Text.isDigit, rest.dropWhile Text.isDigit)

theorem Numeral.divide_text (n : Numeral) (u : Measure) :
    divide (n.text ++ u.sign).toList = (n.whole, n.places, u.sign.toList) := by
  obtain ⟨c, cs, hsign, hdigit, hdot⟩ :
      ∃ c cs, u.sign.toList = c :: cs ∧ Text.isDigit c = false ∧ c ≠ '.' := by
    cases u <;> exact ⟨_, _, rfl, rfl, by decide⟩
  have hpoint : ∀ p ∈ n.places, p ≠ '.' := by
    rintro p hp rfl
    cases n.isDigit_places _ hp
  have htail : (tail n.places ++ c :: cs).takeWhile Text.isDigit = [] ∧
      (tail n.places ++ c :: cs).dropWhile Text.isDigit = tail n.places ++ c :: cs ∧
      (tail n.places ++ c :: cs).dropWhile (· = '.') = n.places ++ c :: cs := by
    cases hplaces : n.places with
    | nil => simp [tail, hdigit, hdot]
    | cons p ps => simp [tail, hpoint p (by simp [hplaces]), show Text.isDigit '.' = false from rfl]
  rw [Numeral.text, String.toList_append, String.toList_ofList, hsign, List.append_assoc, divide,
    List.takeWhile_append_of_pos n.isDigit_whole, List.dropWhile_append_of_pos n.isDigit_whole,
    htail.1, htail.2.1, htail.2.2]
  simp [List.takeWhile_append_of_pos n.isDigit_places,
    List.dropWhile_append_of_pos n.isDigit_places, hdigit]

theorem Numeral.text_inj {n n' : Numeral} {u u' : Measure}
    (h : n.text ++ u.sign = n'.text ++ u'.sign) :
    n.whole = n'.whole ∧ n.places = n'.places ∧ u = u' := by
  have hparts := n.divide_text u
  rw [h, n'.divide_text u'] at hparts
  obtain ⟨hwhole, hplaces, hsign⟩ : n'.whole = n.whole ∧ n'.places = n.places ∧
    u'.sign.toList = u.sign.toList := by simpa using hparts
  exact ⟨hwhole.symm, hplaces.symm, Measure.sign_inj (String.toList_inj.mp hsign.symm)⟩

theorem totalNanos_inj {d d' : Duration} (h : d.totalNanos = d'.totalNanos) : d = d' := by
  obtain ⟨secs, nanos, hlt⟩ := d
  obtain ⟨secs', nanos', hlt'⟩ := d'
  simp only [totalNanos] at h
  have hsecs : secs = secs' := by
    apply UInt64.toNat_inj.mp
    omega
  have hnanos : nanos = nanos' := by omega
  subst hsecs hnanos
  rfl

/-- **The message about a hung executor is exact**: it ends with a decimal number and a unit that
    together are the timeout, and no other timeout has the same message. -/
theorem hung_message_exact (d : Duration) :
    (∃ (n : Numeral) (u : Measure),
      (Failure.executorHung d).message = "Executor hung: no exit after " ++ (n.text ++ u.sign) ∧
        n.Measures u d.totalNanos) ∧
    ∀ d', (Failure.executorHung d').message = (Failure.executorHung d).message ↔ d' = d := by
  obtain ⟨n, u, htext, hexact⟩ := text_exact d
  have hmessage : ∀ d, (Failure.executorHung d).message =
      "Executor hung: no exit after " ++ text d :=
    fun _ => rfl
  refine ⟨⟨n, u, htext ▸ hmessage d, hexact⟩, fun d' => ⟨fun h => ?_, fun h => by rw [h]⟩⟩
  obtain ⟨n', u', htext', hexact'⟩ := text_exact d'
  rw [hmessage, hmessage, String.append_right_inj, htext, htext'] at h
  obtain ⟨hwhole, hplaces, rfl⟩ := Numeral.text_inj h
  rw [Numeral.Measures, hwhole, hplaces, hexact] at hexact'
  exact totalNanos_inj (Nat.eq_of_mul_eq_mul_right (Nat.pow_pos (by omega)) hexact'.symm)

end Concolic.Duration
