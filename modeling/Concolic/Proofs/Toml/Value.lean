import Concolic.Proofs.Decimal
import Concolic.Toml.Document
import Mathlib.Data.List.Basic
import Mathlib.Data.List.TakeWhile

/-
  Values that are written can be read.

  The relations below say which texts are forms of a value, without regard to how they are read:
  `Quoted` of a text, `Listed` of what stands behind an opening bracket, `Writes` of any value.
-/

namespace Concolic.Toml

variable {c : Char} {form cs : List Char} {s : String} {n : Nat}

/-! ## Characters -/

/-- The escapes of one letter: what stands behind the backslash, and what it means. -/
def shortEscapes : List (Char × Char) :=
  [('b', '\x08'), ('t', '\t'), ('n', '\n'), ('f', '\x0c'), ('r', '\r'), ('"', '"'), ('\\', '\\')]

/-- The number of a character in hexadecimal digits of either case, filled up with zeros. -/
def IsHex (c : Char) (digits : List Char) : Prop :=
  ∃ zeros, digits.map Char.toLower = List.replicate zeros '0' ++ Nat.toDigits 16 c.toNat

/-- The forms of a character in a text. -/
inductive Spells : Char → List Char → Prop
  | plain {c : Char} (hplain : isPlain c = true) (hquote : c ≠ '"')
      (hback : c ≠ '\\') : Spells c [c]
  | short {c letter : Char} (h : (letter, c) ∈ shortEscapes) : Spells c ['\\', letter]
  | four {c : Char} {digits : List Char} (hlen : digits.length = 4) (h : IsHex c digits) :
      Spells c ('\\' :: 'u' :: digits)
  | eight {c : Char} {digits : List Char} (hlen : digits.length = 8) (h : IsHex c digits) :
      Spells c ('\\' :: 'U' :: digits)

/-- Characters one after the other. -/
inductive Spelled : List Char → List Char → Prop
  | nil : Spelled [] []
  | cons {c : Char} {s form forms : List Char} (hform : Spells c form) (hforms : Spelled s forms) :
      Spelled (c :: s) (form ++ forms)

/-- A text in quotes, on one line. -/
def Quoted (s : String) (cs : List Char) : Prop :=
  ∃ forms, Spelled s.toList forms ∧ cs = '"' :: forms ++ ['"']

theorem hexValue?_toLower (c : Char) : Text.hexValue? c.toLower = Text.hexValue? c := by
  have hupper : ∀ n < 26, Text.hexValue? (Char.ofNat (65 + n)).toLower =
      Text.hexValue? (Char.ofNat (65 + n)) := by decide
  by_cases hc : 65 ≤ c.toNat ∧ c.toNat ≤ 90
  · have hletter := hupper (c.toNat - 65) (by omega)
    rwa [show 65 + (c.toNat - 65) = c.toNat by omega, Char.ofNat_toNat] at hletter
  · have hsame : c.toLower = c := dif_neg fun h => hc h
    rw [hsame]

theorem ofDigits?_of_isHex {digits : List Char} (h : IsHex c digits) :
    Text.ofDigits? 16 digits = some c.toNat := by
  obtain ⟨zeros, hdigits⟩ := h
  have hne : digits ≠ [] := by
    rintro rfl
    have hnil : Nat.toDigits 16 c.toNat = [] := (List.append_eq_nil_iff.mp hdigits.symm).2
    exact Nat.toDigits_ne_nil hnil
  have hzeros : ∀ n, (List.replicate n '0').foldl
      (fun acc c => Text.pushDigit 16 acc (Text.hexValue? c)) (some 0) = some 0 := by
    intro n
    induction n with
    | zero => rfl
    | succ n ih =>
      rw [List.replicate_succ, List.foldl_cons]
      exact ih
  calc Text.ofDigits? 16 digits
      = digits.foldl (fun acc c => Text.pushDigit 16 acc (Text.hexValue? c)) (some 0) := by
        rw [Text.ofDigits?, if_neg hne]
    _ = (digits.map Char.toLower).foldl
          (fun acc c => Text.pushDigit 16 acc (Text.hexValue? c)) (some 0) := by
        simp only [List.foldl_map, hexValue?_toLower]
    _ = some c.toNat := by
        rw [hdigits, List.foldl_append, hzeros, Text.foldl_toDigits (by omega) (by omega)]

theorem scalar?_of_isHex {digits : List Char} (h : IsHex c digits) : scalar? digits = some c := by
  have hvalid : c.toNat.isValidChar := c.valid
  rw [scalar?, ofDigits?_of_isHex h]
  show (if c.toNat.isValidChar then some (Char.ofNat c.toNat) else none) = some c
  rw [if_pos hvalid, Char.ofNat_toNat]

theorem unescape?_of_mem {letter : Char} (h : (letter, c) ∈ shortEscapes) :
    unescape? letter = some c ∧ letter ≠ 'u' ∧ letter ≠ 'U' := by
  have hall : shortEscapes.all (fun e => unescape? e.1 = some e.2 ∧ e.1 ≠ 'u' ∧
      e.1 ≠ 'U') = true := by
    decide
  simpa using List.all_eq_true.mp hall (letter, c) h

theorem readBasic_of_spells (h : Spells c form) (acc rest : List Char) :
    readBasic acc (form ++ rest) = readBasic (c :: acc) rest := by
  cases h with
  | plain hplain hquote hback =>
    rw [List.singleton_append, readBasic]
    · exact if_pos hplain
    · exact hquote
    · exact fun _ _ _ _ _ h => absurd h hback
    · exact fun _ _ _ _ _ _ _ _ _ h => absurd h hback
    · exact fun _ _ h => absurd h hback
  | short h =>
    obtain ⟨hmeans, hu, hU⟩ := unescape?_of_mem h
    rw [List.cons_append, List.singleton_append, readBasic, hmeans]
    · exact fun _ _ _ _ _ h => absurd h hu
    · exact fun _ _ _ _ _ _ _ _ _ h => absurd h hU
  | four hlen h =>
    have hscalar := scalar?_of_isHex h
    simp only [List.length_eq_succ_iff, List.length_eq_zero_iff] at hlen
    obtain ⟨d₁, _, rfl, d₂, _, rfl, d₃, _, rfl, d₄, _, rfl, rfl⟩ := hlen
    simp only [List.cons_append, List.nil_append]
    rw [readBasic, hscalar]
  | eight hlen h =>
    have hscalar := scalar?_of_isHex h
    simp only [List.length_eq_succ_iff, List.length_eq_zero_iff] at hlen
    obtain ⟨d₁, _, rfl, d₂, _, rfl, d₃, _, rfl, d₄, _, rfl, d₅, _, rfl, d₆, _, rfl,
      d₇, _, rfl, d₈, _, rfl, rfl⟩ := hlen
    simp only [List.cons_append, List.nil_append]
    rw [readBasic, hscalar]

theorem readBasic_of_spelled {s forms : List Char} (h : Spelled s forms) (acc rest : List Char) :
    readBasic acc (forms ++ '"' :: rest) = some (String.ofList (acc.reverse ++ s), rest) := by
  induction h generalizing acc with
  | nil =>
    rw [List.nil_append, readBasic, List.append_nil]
  | cons hform hforms ih =>
    rw [List.append_assoc, readBasic_of_spells hform, ih, List.reverse_cons, List.append_assoc]
    rfl

/-! ## Texts -/

theorem head_spelled {s forms : List Char} (h : Spelled s forms) : forms.head? ≠ some '"' := by
  cases h with
  | nil => simp
  | cons hform hforms =>
    cases hform with
    | plain hplain hquote hback => simpa using hquote
    | short h => simp
    | four hlen h => simp
    | eight hlen h => simp

/-- A text in quotes is read, unless a third quote makes the empty text the start of a
    longer form. -/
theorem readText_of_quoted {rest : List Char} (h : Quoted s cs)
    (hrest : rest.head? ≠ some '"') : readText (cs ++ rest) = some (s, rest) := by
  obtain ⟨forms, hforms, rfl⟩ := h
  have hread := readBasic_of_spelled hforms [] rest
  rw [List.reverse_nil, List.nil_append, String.ofList_toList] at hread
  have htwo : ∀ more, forms ++ '"' :: rest ≠ '"' :: '"' :: more := by
    intro more heq
    cases forms with
    | nil => exact hrest (by rw [(List.cons.inj heq).2]; rfl)
    | cons x forms => exact head_spelled hforms (by rw [(List.cons.inj heq).1]; rfl)
  rw [List.append_assoc, List.singleton_append, List.cons_append]
  unfold readText
  split
  · rename_i heq
    exact absurd (List.cons.inj heq).2 (htwo _)
  · rename_i heq
    exact absurd (List.cons.inj heq).1 (by decide)
  · rename_i heq
    rw [← (List.cons.inj heq).2]
    exact hread
  · rename_i heq
    exact absurd (List.cons.inj heq).1 (by decide)
  · rename_i hbasic _
    exact absurd rfl (hbasic _)

theorem exists_spells (c : Char) : ∃ form, Spells c form := by
  by_cases hplain : isPlain c = true
  · by_cases hquote : c = '"'
    · exact ⟨_, .short (show ('"', c) ∈ shortEscapes by rw [hquote]; decide)⟩
    · by_cases hback : c = '\\'
      · exact ⟨_, .short (show ('\\', c) ∈ shortEscapes by rw [hback]; decide)⟩
      · exact ⟨_, .plain hplain hquote hback⟩
  · -- a control character
    have hlo : ' ' ≤ c ↔ 32 ≤ c.toNat := Iff.rfl
    have hhi : c ≤ '~' ↔ c.toNat ≤ 126 := Iff.rfl
    have hwide : '\x80' ≤ c ↔ 128 ≤ c.toNat := Iff.rfl
    have hcontrol : c.toNat < 32 ∨ c.toNat = 127 := by
      simp only [isPlain, Bool.or_eq_true, Bool.and_eq_true, decide_eq_true_eq, hlo, hhi,
        hwide] at hplain
      omega
    have hdigits : ∀ n < 128, n < 32 ∨ n = 127 →
        ['0', '0', Nat.digitChar (n / 16), Nat.digitChar (n % 16)].map Char.toLower =
          List.replicate (if n < 16 then 3 else 2) '0' ++ Nat.toDigits 16 n := by decide
    exact ⟨_, .four rfl ⟨_, hdigits c.toNat (by omega) hcontrol⟩⟩

theorem exists_spelled (s : List Char) : ∃ forms, Spelled s forms := by
  induction s with
  | nil => exact ⟨[], .nil⟩
  | cons c s ih =>
    obtain ⟨form, hform⟩ := exists_spells c
    obtain ⟨forms, hforms⟩ := ih
    exact ⟨form ++ forms, .cons hform hforms⟩

theorem exists_quoted (s : String) : ∃ cs, Quoted s cs := by
  obtain ⟨forms, hforms⟩ := exists_spelled s.toList
  exact ⟨_, forms, hforms, rfl⟩

/-! ## Numbers -/

/-- A digit of some base. -/
def isHexDigit (c : Char) : Bool := (Text.hexValue? c).isSome

theorem hexValue?_of_isDigit (h : Text.isDigit c = true) : ∃ d < 10, Text.hexValue? c = some d := by
  rw [Text.isDigit, Text.digitValue?] at h
  split at h
  · rename_i hc
    have hhi : c.toNat ≤ 57 := hc.2
    refine ⟨c.toNat - 48, by omega, ?_⟩
    rw [Text.hexValue?, if_pos hc]
  · cases h

theorem isHexDigit_of_isDigit (h : Text.isDigit c = true) : isHexDigit c = true := by
  obtain ⟨d, -, hd⟩ := hexValue?_of_isDigit h
  rw [isHexDigit, hd]
  rfl

theorem isDigit_ne {d : Char} (hd : Text.isDigit d = true) (hc : Text.isDigit c = false) :
    d ≠ c := by
  rintro rfl
  rw [hd] at hc
  cases hc

theorem twoDigits?_eq_some {lo hi : Nat} {rest : List Char}
    (h : twoDigits? lo hi cs = some (n, rest)) :
    ∃ a b, cs = a :: b :: rest ∧ Text.isDigit a = true ∧ Text.isDigit b = true := by
  unfold twoDigits? at h
  split at h
  · rename_i a b more
    split at h
    · rename_i x y ha hb
      dsimp only at h
      split at h
      · cases h
        exact ⟨a, b, rfl, by rw [Text.isDigit, ha]; rfl, by rw [Text.isDigit, hb]; rfl⟩
      · cases h
    · cases h
  · cases h

theorem isHexDigit_of_ofDigits? {base : Nat} (h : Text.ofDigits? base cs = some n) :
    ∀ c ∈ cs, isHexDigit c = true := by
  have hfold : ∀ (cs : List Char) (acc : Option Nat),
      (cs.foldl (fun acc c => Text.pushDigit base acc (Text.hexValue? c)) acc).isSome = true →
        acc.isSome = true ∧ ∀ c ∈ cs, isHexDigit c = true := by
    intro cs
    induction cs with
    | nil => exact fun acc hacc => ⟨hacc, by simp⟩
    | cons c cs ih =>
      intro acc hacc
      obtain ⟨hpush, hcs⟩ := ih _ hacc
      cases acc with
      | none => cases hpush
      | some m =>
        refine ⟨rfl, List.forall_mem_cons.mpr ⟨?_, hcs⟩⟩
        rw [isHexDigit]
        cases hc : Text.hexValue? c with
        | none =>
          dsimp only at hpush
          rw [hc] at hpush
          cases hpush
        | some d => rfl
  rw [Text.ofDigits?] at h
  split at h
  · cases h
  · exact (hfold cs (some 0) (by rw [h]; rfl)).2

section Digits

variable {d : Char} {ds rest : List Char}

section Runs

variable (hds : ∀ c ∈ ds, Text.isDigit c = true)
include hds

/-- Behind the digits of a number at the end of a line there is nothing but the end of the line. -/
theorem digits_append_ne {start more : List Char}
    (hstart : ∀ x ∈ start, isHexDigit x = true) (hc : isHexDigit c = false) (hend : c ≠ '\n') :
    ds ++ '\n' :: rest ≠ start ++ c :: more := by
  intro heq
  have hdrop := congrArg (List.dropWhile isHexDigit) heq
  rw [List.dropWhile_append_of_pos fun x hx => isHexDigit_of_isDigit (hds x hx),
    List.dropWhile_append_of_pos hstart, List.dropWhile_cons_of_neg (by decide),
    List.dropWhile_cons_of_neg (by simp [hc])] at hdrop
  exact hend (List.cons.inj hdrop).1.symm

theorem readTime_digits : readTime (ds ++ '\n' :: rest) = .other := by
  unfold readTime
  split
  · rename_i n more htwo
    obtain ⟨a, b, hcs, ha, hb⟩ := twoDigits?_eq_some htwo
    have hstart : ∀ x ∈ [a, b], isHexDigit x = true := by
      simp [isHexDigit_of_isDigit ha, isHexDigit_of_isDigit hb]
    exact absurd hcs (digits_append_ne hds hstart (by decide) (by decide))
  · rfl

theorem readMoment_digits : readMoment (ds ++ '\n' :: rest) = .other := by
  unfold readMoment
  split
  · rename_i hcs
    split
    · rename_i year hyear
      exact absurd hcs (digits_append_ne hds (isHexDigit_of_ofDigits? hyear)
        (by decide) (by decide))
    · exact readTime_digits hds
  · exact readTime_digits hds

theorem readDigits_digits (acc : List Char) :
    readDigits 10 acc (ds ++ '\n' :: rest) = some (acc.reverse ++ ds, '\n' :: rest) := by
  induction ds generalizing acc with
  | nil =>
    rw [List.append_nil]
    rfl
  | cons d ds ih =>
    obtain ⟨v, hv, hd⟩ := hexValue?_of_isDigit (hds d List.mem_cons_self)
    have hunder : d ≠ '_' := isDigit_ne (hds d List.mem_cons_self) (by decide)
    rw [List.cons_append, readDigits, hd]
    · dsimp only
      rw [if_pos hv, ih fun c hc => hds c (List.mem_cons_of_mem d hc), List.reverse_cons,
        List.append_assoc]
      rfl
    · exact fun _ _ h => absurd h hunder
    · exact fun h => absurd h hunder

end Runs

theorem readDecimal_whole (hwhole : readWhole cs = some (ds, '\n' :: rest))
    (hn : Text.ofDigits? 10 ds = some n) (hrange : inRange n = true) :
    readDecimal false cs = some (.integer n, '\n' :: rest) := by
  have hfraction : readFraction ('\n' :: rest) = some (none, '\n' :: rest) := rfl
  have hexponent : readExponent ('\n' :: rest) = some (none, '\n' :: rest) := rfl
  rw [readDecimal, hwhole, Option.bind_eq_bind, Option.bind_some]
  dsimp only
  rw [hfraction, Option.bind_eq_bind, Option.bind_some]
  dsimp only
  rw [hexponent, Option.bind_eq_bind, Option.bind_some]
  dsimp only
  rw [hn, Option.bind_eq_bind, Option.bind_some]
  exact if_pos hrange

theorem readWhole_digits (hds : ∀ c ∈ d :: ds, Text.isDigit c = true) (hzero : d ≠ '0') :
    readWhole (d :: (ds ++ '\n' :: rest)) = some (d :: ds, '\n' :: rest) := by
  obtain ⟨v, hv, hd⟩ := hexValue?_of_isDigit (hds d List.mem_cons_self)
  rw [readWhole, readRun, hd]
  · dsimp only
    rw [if_pos hv, readDigits_digits fun c hc => hds c (List.mem_cons_of_mem d hc)]
    rfl
  · exact fun more heq => hzero (List.cons.inj heq).1

theorem readNumber_digits (hd : Text.isDigit d = true) (hzero : d ≠ '0') (cs : List Char) :
    readNumber (d :: cs) = readDecimal false (d :: cs) := by
  have hne : ∀ c more, Text.isDigit c = false → d :: cs ≠ c :: more :=
    fun c more hc heq => isDigit_ne hd hc (List.cons.inj heq).1
  have hsign : readSign (d :: cs) = (false, d :: cs) := by
    rw [readSign]
    · exact fun more => hne '+' more (by decide)
    · exact fun more => hne '-' more (by decide)
  rw [readNumber, hsign]
  · split
    · rename_i heq
      exact absurd (Prod.mk.inj heq).2 (hne 'i' _ (by decide))
    · rename_i heq
      exact absurd (Prod.mk.inj heq).2 (hne 'n' _ (by decide))
    · rename_i heq
      obtain ⟨rfl, rfl⟩ := Prod.mk.inj heq
      rfl
  iterate 3
    · exact fun more heq => hzero (List.cons.inj heq).1

end Digits

theorem readScalar_digits (hn : inRange n = true) (rest : List Char) :
    readScalar (Nat.toDigits 10 n ++ '\n' :: rest) = some (.integer n, '\n' :: rest) := by
  cases hds : Nat.toDigits 10 n with
  | nil => exact absurd hds Nat.toDigits_ne_nil
  | cons d ds =>
    have hall : ∀ c ∈ d :: ds, Text.isDigit c = true := fun c hc =>
        Text.isDigit_of_mem_toDigits (hds ▸ hc)
    have hdigit := hall d List.mem_cons_self
    have hmoment := @readMoment_digits (d :: ds) rest hall
    have hnumber : readNumber (d :: ds ++ '\n' :: rest) = some (.integer n, '\n' :: rest) := by
      by_cases hzero : d = '0'
      · subst hzero
        obtain rfl := Text.head_toDigits n hds
        cases hds
        have hsingle : readNumber ('0' :: '\n' :: rest) =
            readDecimal false ('0' :: '\n' :: rest) := rfl
        exact hsingle.trans (@readDecimal_whole _ 0 ['0'] rest rfl rfl hn)
      · rw [List.cons_append, readNumber_digits hdigit hzero]
        exact readDecimal_whole (readWhole_digits hall hzero) (hds ▸ Text.ofDigits?_toDigits n) hn
    rw [List.cons_append] at hmoment hnumber ⊢
    unfold readScalar
    split
    · rename_i heq
      exact absurd (List.cons.inj heq).1 (isDigit_ne hdigit (by decide))
    · rename_i heq
      exact absurd (List.cons.inj heq).1 (isDigit_ne hdigit (by decide))
    · rename_i heq
      obtain ⟨rfl, -⟩ := List.cons.inj heq
      have hquote := isDigit_ne hdigit (show Text.isDigit '"' = false by decide)
      have hsingle := isDigit_ne hdigit (show Text.isDigit '\'' = false by decide)
      rw [if_neg (not_or.mpr ⟨hquote, hsingle⟩), hmoment]
      exact hnumber
    · rename_i heq
      cases heq

/-! ## Arrays -/

/-- An array of texts from behind its opening bracket to its end. -/
inductive Listed : List String → List Char → Prop
  | close : Listed [] [']']
  | last {s : String} {form : List Char} (hform : Quoted s form) : Listed [s] (form ++ [']'])
  | more {s : String} {ss : List String} {form cs : List Char} (hform : Quoted s form)
      (hcs : Listed ss cs) : Listed (s :: ss) (form ++ ',' :: ' ' :: cs)

theorem readValue_of_quoted {rest : List Char} (h : Quoted s form)
    (hrest : rest.head? ≠ some '"') (fuel depth : Nat) :
    readValue (fuel + 1) depth (form ++ rest) = some (.text s, rest) := by
  have htext := readText_of_quoted h hrest
  obtain ⟨forms, -, rfl⟩ := h
  show (readText ('"' :: (forms ++ ['"'] ++ rest))).map (fun x => (Value.text x.1, x.2)) = _
  exact congrArg (Option.map fun x => (Value.text x.1, x.2)) htext

theorem length_listed {ss : List String} (h : Listed ss cs) : ss.length < cs.length := by
  induction h with
  | close => simp
  | last hform =>
    obtain ⟨forms, -, rfl⟩ := hform
    simp
  | more hform hcs ih =>
    simp only [List.length_cons, List.length_append]
    omega

theorem readItems_item (hform : Quoted s form)
    (hc : c ∈ [',', ']']) (fuel depth : Nat) (acc : List Value) (cs : List Char) :
    readItems (fuel + 2) depth acc (form ++ c :: cs) =
      if c = ',' then readItems (fuel + 1) depth (.text s :: acc) cs
      else some (.array (Value.text s :: acc).reverse, cs) := by
  have hquote : (c :: cs).head? ≠ some '"' := by
    rintro ⟨⟩
    exact absurd hc (by decide)
  have hvalue := readValue_of_quoted hform hquote fuel depth
  obtain ⟨forms, -, rfl⟩ := hform
  have hskip : skipFiller false ('"' :: forms ++ ['"'] ++ c :: cs) = '"' :: forms ++
      ['"'] ++ c :: cs :=
    rfl
  rw [readItems, hskip]
  split
  · rename_i heq
    exact absurd (List.cons.inj heq).1 (by decide)
  rw [hvalue]
  simp only [List.mem_cons, List.not_mem_nil, or_false] at hc
  rcases hc with rfl | rfl
  · rfl
  · rfl

theorem readItems_of_listed {ss : List String} (h : Listed ss cs) {fuel : Nat}
    (hfuel : ss.length + 2 ≤ fuel) (depth : Nat) (acc : List Value) (rest : List Char) :
    readItems fuel depth acc (cs ++ rest) = some (.array (acc.reverse ++ ss.map .text), rest) := by
  induction h generalizing fuel acc with
  | close =>
    obtain ⟨fuel, rfl⟩ := Nat.exists_eq_add_of_le' (show 1 ≤ fuel by omega)
    rw [readItems, List.map_nil, List.append_nil]
    rfl
  | last hform =>
    obtain ⟨fuel, rfl⟩ := Nat.exists_eq_add_of_le' (show 2 ≤ fuel by omega)
    rw [List.append_assoc, List.singleton_append, readItems_item hform (by simp),
      if_neg (by decide), List.reverse_cons]
    rfl
  | @more s ss form cs hform hcs ih =>
    rw [List.length_cons] at hfuel
    obtain ⟨fuel, rfl⟩ := Nat.exists_eq_add_of_le' (show 2 ≤ fuel by omega)
    have hblank : ∀ acc, readItems (fuel + 1) depth acc (' ' :: (cs ++ rest)) =
        readItems (fuel + 1) depth acc (cs ++ rest) := by
      intro acc
      rw [readItems, readItems]
      rfl
    rw [List.append_assoc, List.cons_append, List.cons_append,
      readItems_item hform (by simp), if_pos rfl,
      hblank, ih (by omega), List.reverse_cons, List.append_assoc]
    rfl

/-! ## Values -/

/-- The forms of a value. -/
inductive Writes : Value → List Char → Prop
  | text {s : String} {form : List Char} (h : Quoted s form) : Writes (.text s) form
  | integer {n : Nat} (h : inRange n = true) : Writes (.integer n) (Nat.toDigits 10 n)
  | boolean (b : Bool) : Writes (.boolean b) (if b then ['t', 'r', 'u', 'e']
      else ['f', 'a', 'l', 's', 'e'])
  | texts {ss : List String} {cs : List Char} (h : Listed ss cs) :
      Writes (.array (ss.map .text)) ('[' :: cs)

/-- **Every form of a value is read as the value**, up to the end of its line. -/
theorem readValue_of_writes {v : Value} (h : Writes v cs) (rest : List Char)
    {fuel : Nat} (hfuel : cs.length + 2 ≤ fuel) :
    readValue fuel 0 (cs ++ '\n' :: rest) = some (v, '\n' :: rest) := by
  obtain ⟨fuel, rfl⟩ := Nat.exists_eq_add_of_le' (show 1 ≤ fuel by omega)
  cases h with
  | text h => exact readValue_of_quoted h (by simp) fuel 0
  | @integer n hn =>
    have hne : ∀ c more, Text.isDigit c = false → Nat.toDigits 10 n ++
        '\n' :: rest ≠ c :: more := by
      intro c more hc heq
      cases hds : Nat.toDigits 10 n with
      | nil => exact Nat.toDigits_ne_nil hds
      | cons d ds =>
        rw [hds] at heq
        exact isDigit_ne (Text.isDigit_of_toDigits_eq_cons hds) hc (List.cons.inj heq).1
    rw [readValue]
    · exact readScalar_digits hn rest
    · exact fun more => hne '[' more (by decide)
    · exact fun more => hne '\x7b' more (by decide)
  | boolean b =>
    cases b <;> rfl
  | texts h =>
    have hlen := length_listed h
    rw [List.length_cons] at hfuel
    rw [List.cons_append, readValue, if_pos (by decide), readItems_of_listed h (by omega)]
    rfl

end Concolic.Toml
