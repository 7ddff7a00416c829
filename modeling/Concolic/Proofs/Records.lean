import Concolic.Proofs.Lock
import Concolic.Record
import Mathlib.Data.List.TakeWhile

/-
  Records that are written can be read.

  The text is cut into tokens, the tokens are checked against the grammar, and the fields are looked
  up by name.  `Spells` says that a piece of text is read as certain tokens whatever was read before
  it.
-/

namespace Concolic

variable {cs rest gap sep : List Char} {c d : Char} {name : String}

namespace Json

/-! ## Tokens -/

/-- The text `cs`, if `rest` follows, is read as the tokens `ts`. -/
def Spells (cs : List Char) (ts : List Token) (rest : List Char) : Prop :=
  ∃ k ≤ cs.length, ∀ fuel acc,
    tokensFrom (fuel + k) acc (cs ++ rest) = tokensFrom fuel (ts.reverse ++ acc) rest

theorem Spells.nil (rest : List Char) : Spells [] [] rest := ⟨0, Nat.le_refl _, fun _ _ => rfl⟩

theorem Spells.append {cs' : List Char} {ts ts' : List Token} (h : Spells cs ts (cs' ++ rest))
    (h' : Spells cs' ts' rest) : Spells (cs ++ cs') (ts ++ ts') rest := by
  obtain ⟨k, hk, hcs⟩ := h
  obtain ⟨k', hk', hcs'⟩ := h'
  refine ⟨k' + k, by rw [List.length_append]; omega, fun fuel acc => ?_⟩
  rw [List.append_assoc, ← Nat.add_assoc, hcs, hcs', List.reverse_append, List.append_assoc]

theorem tokens?_of_spells {ts : List Token} (h : Spells cs ts []) : tokens? cs = some ts := by
  obtain ⟨k, hk, hcs⟩ := h
  have hall := hcs (cs.length - k + 1) []
  rw [List.append_nil, List.append_nil,
    show cs.length - k + 1 + k = cs.length + 1 by omega] at hall
  rw [tokens?, hall]
  exact congrArg some (List.reverse_reverse ts)

theorem tokensFrom_space (hc : isSpace c = true) (fuel : Nat) (acc : List Token)
    (rest : List Char) : tokensFrom (fuel + 1) acc (c :: rest) =
    tokensFrom fuel acc rest := if_pos hc

theorem spells_spaces (h : ∀ c ∈ cs, isSpace c = true) (rest : List Char) : Spells cs [] rest := by
  induction cs with
  | nil => exact .nil rest
  | cons c cs ih =>
    have hfirst : Spells [c] [] (cs ++ rest) :=
      ⟨1, Nat.le_refl _, fun fuel acc => tokensFrom_space (h c (by simp)) fuel acc _⟩
    exact hfirst.append (ih fun d hd => h d (by simp [hd]))

theorem spells_opening (rest : List Char) : Spells ['\x7b'] [.opening .object] rest :=
  ⟨1, Nat.le_refl _, fun _ _ => rfl⟩

theorem spells_closing (rest : List Char) : Spells ['\x7d'] [.closing .object] rest :=
  ⟨1, Nat.le_refl _, fun _ _ => rfl⟩

theorem spells_colon (rest : List Char) : Spells [':'] [.colon] rest :=
  ⟨1, Nat.le_refl _, fun _ _ => rfl⟩

theorem spells_comma (rest : List Char) : Spells [','] [.comma] rest :=
  ⟨1, Nat.le_refl _, fun _ _ => rfl⟩

/-! ### Texts -/

theorem readText_control (g : Gathered) (n : Nat) (hn : n < 32) (rest : List Char) :
    readText g ('\\' :: 'u' :: '0' :: '0' :: Text.hexDigit (n / 16) :: Text.hexDigit
      (n % 16) :: rest) =
      readText (g.push (Char.ofNat n)) rest := by
  have hvalue : ∀ n < 32, hex4 '0' '0' (Text.hexDigit (n / 16))
      (Text.hexDigit (n % 16)) = some n := by
    decide +kernel
  have hunit : ∀ n < 32, isHigh n = false ∧ isLow n = false := by decide
  rw [readText, hvalue n hn]
  simp only [Gathered.pushUnit, hunit n hn, Bool.false_eq_true, if_false]

theorem readText_escape (g : Gathered) (c : Char) (rest : List Char) :
    readText g (escape c ++ rest) = readText (g.push c) rest := by
  unfold escape
  split
  iterate 7
    · rfl
  · rename_i hquote hbackslash _ _ _ _ _
    split
    · rename_i hlt
      have hn : c.toNat < 32 := hlt
      simpa using readText_control g c.toNat hn rest
    · rename_i hge
      rw [List.singleton_append, readText]
      · exact if_neg hge
      · exact fun h => hquote h
      · exact fun _ _ _ _ _ h _ => hbackslash h
      · exact fun _ _ h _ => hbackslash h

theorem readText_escaped (chars cs rest : List Char) :
    readText ⟨chars, none, true⟩ (cs.flatMap escape ++ '"' :: rest) =
      some (.text (String.ofList (chars.reverse ++ cs)), rest) := by
  induction cs generalizing chars with
  | nil => simp [readText, Gathered.value]
  | cons c cs ih =>
    rw [List.flatMap_cons, List.append_assoc, readText_escape]
    exact (ih (c :: chars)).trans (by simp)

theorem tokensFrom_quote (fuel : Nat) (acc : List Token) (cs : List Char) :
    tokensFrom (fuel + 1) acc ('"' :: cs) =
      match readText .empty cs with
      | some (v, rest) => tokensFrom fuel (.value v :: acc) rest
      | none => none := rfl

theorem spells_quoted (s : String) (rest : List Char) :
    Spells (quoted s) [.value (.text s)] rest := by
  refine ⟨1, by simp [quoted], fun fuel acc => ?_⟩
  have hread := readText_escaped [] s.toList rest
  rw [List.reverse_nil, List.nil_append, String.ofList_toList] at hread
  have htext : quoted s ++ rest = '"' :: (s.toList.flatMap escape ++ '"' :: rest) := by
    simp [quoted]
  rw [htext, tokensFrom_quote, Gathered.empty, hread]
  rfl

/-! ### Numbers -/

theorem isNumber_toDigits (n : Nat) :
    isNumber (Nat.toDigits 10 n) = true ∧ isNumber ('-' :: Nat.toDigits 10 n) = true := by
  have hdigits : ∀ c ∈ Nat.toDigits 10 n, Text.isDigit c = true := fun c hc =>
    Text.isDigit_of_mem_toDigits hc
  have hne : Nat.toDigits 10 n ≠ [] := Nat.toDigits_ne_nil
  have hhead : ∀ rest, Nat.toDigits 10 n = '0' :: rest → rest = [] := by
    intro rest hzero
    obtain rfl := Text.head_toDigits n hzero
    exact (List.cons.inj hzero).2.symm
  generalize Nat.toDigits 10 n = ds at hdigits hne hhead
  by_cases hzero : ∃ rest, ds = '0' :: rest
  · obtain ⟨rest, rfl⟩ := hzero
    obtain rfl := hhead rest rfl
    exact ⟨rfl, rfl⟩
  · have hfirst : ∀ rest, ds = '0' :: rest → False := fun rest hds => hzero ⟨rest, hds⟩
    have hminus : ∀ rest, ds = '-' :: rest → False := by
      rintro rest rfl
      exact absurd (hdigits '-' (by simp)) (by decide)
    have hrest : (isDigits (ds.takeWhile Text.isDigit) && isFraction (ds.dropWhile Text.isDigit)) =
        true := by
      rw [List.takeWhile_eq_self_iff.mpr hdigits, List.dropWhile_eq_nil_iff.mpr hdigits]
      simpa [isDigits, isFraction, isExponent, hne] using hdigits
    constructor
    · rw [isNumber]
      · exact hrest
      · exact hminus
      · exact hfirst
    · rw [isNumber]
      · exact hrest
      · exact hfirst

theorem isNumber_ofInt (i : Int) : isNumber (Text.ofInt i).toList = true := by
  rw [Text.ofInt]
  split
  · rw [String.toList_append, Nat.toList_repr]
    exact (isNumber_toDigits _).2
  · rw [Nat.toList_repr]
    exact (isNumber_toDigits _).1

/-- What follows a number ends it. -/
def EndsNumber (rest : List Char) : Prop := ∀ c cs, rest = c :: cs → isNumberChar c = false

theorem isNumberChar_of_isDigit (h : Text.isDigit c = true) : isNumberChar c = true := by
  simp [isNumberChar, h]

theorem isNumberChar_ofInt (i : Int) : ∀ c ∈ (Text.ofInt i).toList, isNumberChar c = true := by
  intro c hc
  rw [Text.ofInt] at hc
  split at hc
  · rw [String.toList_append, Nat.toList_repr] at hc
    rcases List.mem_append.mp hc with hminus | hdigit
    · obtain rfl : c = '-' := by simpa using hminus
      rfl
    · exact isNumberChar_of_isDigit (Text.isDigit_of_mem_toDigits hdigit)
  · rw [Nat.toList_repr] at hc
    exact isNumberChar_of_isDigit (Text.isDigit_of_mem_toDigits hc)

theorem tokensFrom_number (hc : isNumberChar c = true) (fuel : Nat) (acc : List Token)
    (rest : List Char) : tokensFrom (fuel + 1) acc (c :: rest) =
      if isNumber ((c :: rest).takeWhile isNumberChar) then
        tokensFrom fuel (.value (.number ((c :: rest).takeWhile isNumberChar)) :: acc)
          ((c :: rest).dropWhile isNumberChar)
      else none := by
  have hspace : isSpace c = false := by
    cases hspace : isSpace c with
    | false => rfl
    | true =>
      simp only [isSpace, Bool.or_eq_true, decide_eq_true_eq] at hspace
      rcases hspace with ((rfl | rfl) | rfl) | rfl <;> cases hc
  conv => lhs; unfold tokensFrom
  rw [hspace, if_neg Bool.false_ne_true]
  -- no other token begins like this
  split <;> first | rfl | cases hc

theorem spells_int (i : Int) (hrest : EndsNumber rest) :
    Spells (Text.ofInt i).toList [.value (.number (Text.ofInt i).toList)] rest := by
  have hchars := isNumberChar_ofInt i
  have hnumber := isNumber_ofInt i
  generalize (Text.ofInt i).toList = literal at hchars hnumber
  have htake : (literal ++ rest).takeWhile isNumberChar = literal := by
    rw [List.takeWhile_append_of_pos hchars]
    cases rest with
    | nil => simp
    | cons c cs => simp [hrest c cs rfl]
  have hdrop : (literal ++ rest).dropWhile isNumberChar = rest := by
    rw [List.dropWhile_append_of_pos hchars]
    cases rest with
    | nil => simp
    | cons c cs => simp [hrest c cs rfl]
  cases literal with
  | nil => cases hnumber
  | cons c cs =>
    refine ⟨1, by simp, fun fuel acc => ?_⟩
    rw [List.cons_append] at htake hdrop ⊢
    rw [tokensFrom_number (hchars c (by simp)), htake, hdrop, if_pos hnumber]
    rfl

/-! ### Members -/

/-- The value that is read where a scalar was written. -/
def Scalar.value : Scalar → Value
  | null => .null
  | bool b => .bool b
  | int i => .number (Text.ofInt i).toList
  | text s => .text s

theorem spells_scalar (v : Scalar) (hrest : EndsNumber rest) :
    Spells v.print [.value v.value] rest := by
  cases v with
  | null => exact ⟨1, by decide, fun _ _ => rfl⟩
  | bool b =>
    cases b with
    | true => exact ⟨1, by decide, fun _ _ => rfl⟩
    | false => exact ⟨1, by decide, fun _ _ => rfl⟩
  | int i => exact spells_int i hrest
  | text s => exact spells_quoted s rest

/-- A member of an object, with blanks before its value. -/
def member (gap : List Char) (f : String × Scalar) : List Char :=
  quoted f.1 ++ ':' :: (gap ++ f.2.print)

/-- The tokens of the members of an object. -/
def memberTokens : List (String × Scalar) → List Token
  | [] => []
  | [f] => [.value (.text f.1), .colon, .value f.2.value]
  | f :: fs => .value (.text f.1) :: .colon :: .value f.2.value :: .comma :: memberTokens fs

theorem spells_member (hgap : ∀ c ∈ gap, isSpace c = true) (f : String × Scalar)
    (hrest : EndsNumber rest) :
    Spells (member gap f) [.value (.text f.1), .colon, .value f.2.value] rest :=
  (spells_quoted f.1 _).append
    ((spells_colon _).append ((spells_spaces hgap _).append (spells_scalar f.2 hrest)))

theorem spells_members (hsep : ∀ c ∈ sep, isSpace c = true)
    (hgap : ∀ c ∈ gap, isSpace c = true) (fields : List (String × Scalar))
    (hrest : EndsNumber rest) :
    Spells (between (',' :: sep) (fields.map (member gap))) (memberTokens fields) rest := by
  induction fields with
  | nil => exact .nil rest
  | cons f fs ih =>
    cases fs with
    | nil => exact spells_member hgap f hrest
    | cons g gs =>
      have htext : between (',' :: sep) ((f :: g :: gs).map (member gap)) = member gap f ++
          ([','] ++ sep ++ between (',' :: sep) ((g :: gs).map (member gap))) := by
        simp [between]
      have hcomma : EndsNumber ([','] ++ sep ++ between (',' :: sep) ((g :: gs).map (member gap)) ++
          rest) := by
        rintro c cs hcs
        obtain ⟨rfl, -⟩ := List.cons.inj hcs
        rfl
      rw [htext]
      exact (spells_member hgap f hcomma).append
        (((spells_comma _).append (spells_spaces hsep _)).append ih)

/-! ## Documents -/

/-- An object, with blanks after its opening bracket, after commas, before values and before its
    closing bracket. -/
def layout (lead sep gap tail : List Char) (fields : List (String × Scalar)) : List Char :=
  '\x7b' :: (lead ++ (between (',' :: sep) (fields.map (member gap)) ++ (tail ++ ['\x7d'])))

theorem compact_eq_layout (fields : List (String × Scalar)) :
    compact fields = String.ofList (layout [] [] [] [] fields) := rfl

theorem pretty_eq_layout (fields : List (String × Scalar)) :
    pretty fields =
      String.ofList (layout ['\n', ' ', ' '] ['\n', ' ', ' '] [' '] ['\n'] fields) := rfl

theorem tokens?_layout {lead tail : List Char} (hlead : ∀ c ∈ lead, isSpace c = true)
    (hsep : ∀ c ∈ sep, isSpace c = true) (hgap : ∀ c ∈ gap, isSpace c = true)
    (htail : ∀ c ∈ tail, isSpace c = true) (fields : List (String × Scalar)) :
    tokens? (layout lead sep gap tail fields) =
      some (.opening .object :: (memberTokens fields ++ [.closing .object])) := by
  have hend : EndsNumber ((tail ++ ['\x7d']) ++ []) := by
    rintro c cs hcs
    cases tail with
    | nil =>
      obtain ⟨rfl, -⟩ := List.cons.inj hcs
      rfl
    | cons d ds =>
      obtain ⟨rfl, -⟩ := List.cons.inj hcs
      have hspace := htail d (by simp)
      simp only [isSpace, Bool.or_eq_true, decide_eq_true_eq] at hspace
      rcases hspace with ((rfl | rfl) | rfl) | rfl <;> rfl
  exact tokens?_of_spells ((spells_opening _).append ((spells_spaces hlead _).append
    ((spells_members hsep hgap fields hend).append
      ((spells_spaces htail _).append (spells_closing [])))))

namespace Reading

theorem steps_append (r : Reading) (ts ts' : List Token) :
    r.steps (ts ++ ts') = (r.steps ts).bind fun r' => r'.steps ts' := by
  induction ts generalizing r with
  | nil => rfl
  | cons t ts ih =>
    rw [List.cons_append, steps, steps]
    cases r.step t with
    | none => rfl
    | some r' => exact ih r'

theorem steps_memberTokens (f : String × Scalar) (fs : List (String × Scalar)) (phase : Phase)
    (hphase : phase = .firstName ∨ phase = .name) (name : String) (found : List (String × Value)) :
    ∃ name', (Reading.mk [.object] phase name found (some .object)).steps (memberTokens (f :: fs)) =
      some (Reading.mk [.object] .next name'
        (((f :: fs).map fun g => (g.1, g.2.value)).reverse ++ found) (some .object)) := by
  induction fs generalizing f phase name found with
  | nil =>
    refine ⟨f.1, ?_⟩
    rcases hphase with rfl | rfl <;> rfl
  | cons g gs ih =>
    obtain ⟨name', hrest⟩ := ih g .name (.inr rfl) f.1 ((f.1, f.2.value) :: found)
    refine ⟨name', ?_⟩
    have hfirst : (Reading.mk [.object] phase name found (some .object)).steps
        (memberTokens (f :: g :: gs)) =
          (Reading.mk [.object] .name f.1 ((f.1, f.2.value) :: found) (some .object)).steps
            (memberTokens (g :: gs)) := by
      rcases hphase with rfl | rfl <;> rfl
    rw [hfirst, hrest]
    simp

end Reading

/-- **An object is read back**, whatever the blanks between its members. -/
theorem ofText?_layout {lead tail : List Char} (hlead : ∀ c ∈ lead, isSpace c = true)
    (hsep : ∀ c ∈ sep, isSpace c = true) (hgap : ∀ c ∈ gap, isSpace c = true)
    (htail : ∀ c ∈ tail, isSpace c = true) (fields : List (String × Scalar)) :
    Document.ofText? (String.ofList (layout lead sep gap tail fields)) =
      some (.object (fields.map fun f => (f.1, f.2.value))) := by
  rw [Document.ofText?, String.toList_ofList, tokens?_layout hlead hsep hgap htail]
  cases fields with
  | nil => rfl
  | cons f fs =>
    obtain ⟨name, hsteps⟩ := Reading.steps_memberTokens f fs .firstName (.inl rfl) "" []
    have hall : Reading.start.steps (.opening .object :: (memberTokens (f :: fs) ++
        [.closing .object])) = some ⟨[], .next, name,
          ((f :: fs).map fun g => (g.1, g.2.value)).reverse, some .object⟩ := by
      have hopen : Reading.start.steps (.opening .object :: (memberTokens (f :: fs) ++
          [.closing .object])) = (Reading.mk [.object] .firstName "" [] (some .object)).steps
            (memberTokens (f :: fs) ++ [.closing .object]) := rfl
      rw [hopen, Reading.steps_append, hsteps, List.append_nil]
      rfl
    simp only [Document.ofTokens?, hall, Reading.document?]
    simp

theorem ofText?_compact (fields : List (String × Scalar)) :
    Document.ofText? (compact fields) = some (.object (fields.map fun f => (f.1, f.2.value))) := by
  rw [compact_eq_layout]
  exact ofText?_layout (by simp) (by simp) (by simp) (by simp) fields

theorem ofText?_pretty (fields : List (String × Scalar)) :
    Document.ofText? (pretty fields) = some (.object (fields.map fun f => (f.1, f.2.value))) := by
  have hbreak : ∀ c ∈ ['\n', ' ', ' '], isSpace c = true := List.all_eq_true.mp (by decide)
  rw [pretty_eq_layout]
  exact ofText?_layout hbreak hbreak (by simp [isSpace]) (by simp [isSpace]) fields

/-! ## Fields -/

theorem filter_of_mem {fs : List (String × Value)} (hnodup : (fs.map (·.1)).Nodup)
    {v : Value} (h : (name, v) ∈ fs) : fs.filter (·.1 = name) = [(name, v)] := by
  induction fs with
  | nil => cases h
  | cons f fs ih =>
    rw [List.map_cons, List.nodup_cons] at hnodup
    rcases List.mem_cons.mp h with rfl | hmem
    · have hnone : fs.filter (·.1 = name) = [] := by
        rw [List.filter_eq_nil_iff]
        intro g hg heq
        exact hnodup.1 (List.mem_map.mpr ⟨g, hg, by simpa using heq⟩)
      simp [hnone]
    · have hne : f.1 ≠ name := by
        rintro rfl
        exact hnodup.1 (List.mem_map.mpr ⟨_, hmem, rfl⟩)
      rw [List.filter_cons_of_neg (by simpa using hne)]
      exact ih hnodup.2 hmem

theorem onlyField?_of_mem {fs : List (String × Value)} (hnodup : (fs.map (·.1)).Nodup) {v : Value}
    (h : (name, v) ∈ fs) : onlyField? fs name = some v := by
  rw [onlyField?, filter_of_mem hnodup h]

theorem optionalField?_of_mem {fs : List (String × Value)} (hnodup : (fs.map (·.1)).Nodup)
    {v : Value} (h : (name, v) ∈ fs) : optionalField? fs name = some v := by
  rw [optionalField?, filter_of_mem hnodup h]

theorem mapM_fields (fs : List (String × Value)) (pick : String → Option Value)
    (h : ∀ f ∈ fs, pick f.1 = some f.2) : (fs.map (·.1)).mapM pick = some (fs.map (·.2)) := by
  induction fs with
  | nil => rfl
  | cons f fs ih =>
    rw [List.map_cons, List.mapM_cons, h f (by simp), ih fun g hg => h g (by simp [hg])]
    rfl

/-! ## Values -/

namespace Value

theorem toList_ofInt (n : Nat) : (Text.ofInt n).toList = Nat.toDigits 10 n := by
  rw [Text.ofInt, if_neg (by omega), Nat.toList_repr, Int.natAbs_natCast]

theorem nat?_ofInt {n limit : Nat} (h : n < limit) :
    (Value.number (Text.ofInt n).toList).nat? limit = some n := by
  rw [nat?, toList_ofInt]
  simp only [Text.ofDigits?_toDigits, if_pos h]

theorem uint32?_ofInt (n : UInt32) :
    (Value.number (Text.ofInt n.toNat).toList).uint32? = some n := by
  rw [uint32?, Text.limit32, nat?_ofInt (UInt32.toNat_lt n)]
  simp

theorem uint64?_ofInt (n : UInt64) :
    (Value.number (Text.ofInt n.toNat).toList).uint64? = some n := by
  rw [uint64?, Text.limit64, nat?_ofInt (UInt64.toNat_lt n)]
  simp

theorem int32?_ofInt (code : Int32) :
    (Value.number (Text.ofInt code.toInt).toList).int32? = some code := by
  have hlow := Int32.le_toInt code
  have hhigh := Int32.toInt_lt code
  by_cases hneg : code.toInt < 0
  · have htext : (Text.ofInt code.toInt).toList = '-' :: Nat.toDigits 10 code.toInt.natAbs := by
      rw [Text.ofInt, if_pos hneg, String.toList_append, Nat.toList_repr]
      rfl
    have hvalue : -(code.toInt.natAbs : Int) = code.toInt := by omega
    rw [htext, int32?]
    simp only [Text.ofDigits?_toDigits, hvalue, Int32.ofInt_toInt]
    exact if_pos (by omega)
  · obtain ⟨n, hn⟩ : ∃ n : Nat, code.toInt = n := ⟨code.toInt.toNat, by omega⟩
    have hcode : Int32.ofInt n = code := by rw [← hn, Int32.ofInt_toInt]
    have hunsigned : (Value.number (Text.ofInt n).toList).int32? =
        ((Value.number (Text.ofInt n).toList).nat? 2147483648).map fun n => Int32.ofInt n := by
      unfold int32?
      split
      · rename_i digits hdigits
        have hmem : '-' ∈ Nat.toDigits 10 n := by
          rw [← toList_ofInt, Value.number.inj hdigits]
          simp
        exact absurd (Text.isDigit_of_mem_toDigits hmem) (by decide)
      · rfl
    rw [hn, hunsigned, nat?_ofInt (by omega)]
    exact congrArg some hcode

end Value

end Json

/-! ## One line -/

namespace Json

theorem not_control_of_mem_escape (h : d ∈ escape c) : ¬ d < ' ' := by
  have hhex : ∀ n < 16, ¬ Text.hexDigit n < ' ' := by decide
  unfold escape at h
  split at h
  iterate 7
    simp only [List.mem_cons, List.not_mem_nil, or_false] at h
    rcases h with rfl | rfl <;> decide
  split at h
  · rename_i hlt
    have hn : c.toNat < 32 := hlt
    simp only [List.mem_cons, List.not_mem_nil, or_false] at h
    rcases h with rfl | rfl | rfl | rfl | rfl | rfl
    · decide
    · decide
    · decide
    · decide
    · exact hhex _ (by omega)
    · exact hhex _ (by omega)
  · rename_i hge
    rw [List.mem_singleton.mp h]
    exact hge

theorem not_control_of_mem_quoted {s : String} (h : d ∈ quoted s) : ¬ d < ' ' := by
  simp only [quoted, List.mem_cons, List.mem_append, List.mem_flatMap, List.not_mem_nil,
    or_false] at h
  rcases h with rfl | ⟨c, -, hd⟩ | rfl
  · decide
  · exact not_control_of_mem_escape hd
  · decide

theorem not_control_of_isNumberChar (h : isNumberChar d = true) : ¬ d < ' ' := by
  simp only [isNumberChar, Bool.or_eq_true, decide_eq_true_eq] at h
  rcases h with ((((hdigit | rfl) | rfl) | rfl) | rfl) | rfl
  · rw [Text.isDigit, Text.digitValue?] at hdigit
    split at hdigit
    · rename_i hbounds
      exact Char.not_lt.mpr (Char.le_trans (by decide) hbounds.1)
    · cases hdigit
  all_goals decide

theorem not_control_of_all (hall : cs.all (fun d => !decide (d < ' ')) = true) (h : d ∈ cs) :
    ¬ d < ' ' := by
  simpa using List.all_eq_true.mp hall d h

theorem not_control_of_mem_print {v : Scalar} (h : d ∈ v.print) : ¬ d < ' ' := by
  cases v with
  | null => exact not_control_of_all (by decide) h
  | bool b =>
    cases b with
    | false => exact not_control_of_all (by decide) h
    | true => exact not_control_of_all (by decide) h
  | int i => exact not_control_of_isNumberChar (isNumberChar_ofInt i d h)
  | text s => exact not_control_of_mem_quoted h

theorem mem_between (ps : List (List Char)) (h : d ∈ between sep ps) :
    d ∈ sep ∨ ∃ p ∈ ps, d ∈ p := by
  induction ps with
  | nil => cases h
  | cons p ps ih =>
    cases ps with
    | nil => exact .inr ⟨p, by simp, h⟩
    | cons q qs =>
      rw [between, List.append_assoc, List.mem_append, List.mem_append] at h
      · rcases h with hp | hsep | hrest
        · exact .inr ⟨p, by simp, hp⟩
        · exact .inl hsep
        · rcases ih hrest with hsep | ⟨r, hr, hd⟩
          · exact .inl hsep
          · exact .inr ⟨r, List.mem_cons_of_mem _ hr, hd⟩
      · simp

theorem not_control_of_mem_compact {fields : List (String × Scalar)}
    (h : d ∈ (compact fields).toList) : ¬ d < ' ' := by
  rw [compact, String.toList_ofList, List.mem_cons, List.mem_append, List.mem_singleton] at h
  rcases h with rfl | hmem | rfl
  · decide
  · rcases mem_between _ hmem with hcomma | ⟨p, hp, hd⟩
    · rw [List.mem_singleton.mp hcomma]
      decide
    · obtain ⟨f, -, rfl⟩ := List.mem_map.mp hp
      rw [List.mem_append, List.mem_cons] at hd
      rcases hd with hname | rfl | hvalue
      · exact not_control_of_mem_quoted hname
      · decide
      · exact not_control_of_mem_print hvalue
  · decide

end Json

open Json (Document Scalar Value)

/-! ## Records -/

namespace Current

theorem pick?_fields (c : Current) :
    pick? (c.fields.map fun f => (f.1, f.2.value)) = some (c.fields.map fun f => f.2.value) := by
  have hnodup : ((c.fields.map fun f => (f.1, f.2.value)).map (·.1)).Nodup := by
    rw [List.map_map]
    exact (by decide : ["session_id", "entry_point", "work_dir", "command", "status", "iteration",
      "iteration_budget", "last_exit_code", "history_present", "backtrack_present", "started_at",
      "elapsed_secs"].Nodup)
  have hall := Json.mapM_fields (c.fields.map fun f => (f.1, f.2.value))
    (fun name => if name = "last_exit_code"
      then Json.optionalField? (c.fields.map fun f => (f.1, f.2.value)) name
      else Json.onlyField? (c.fields.map fun f => (f.1, f.2.value)) name) (by
      intro f hf
      split
      · exact Json.optionalField?_of_mem hnodup hf
      · exact Json.onlyField?_of_mem hnodup hf)
  rw [List.map_map, List.map_map] at hall
  exact hall

theorem ofValues?_fields (c : Current) : ofValues? (c.fields.map fun f => f.2.value) = some c := by
  obtain ⟨id, entry, dir, command, status, iteration, budget, exit, history, backtrack,
    started, secs⟩ := c
  cases exit with
  | none =>
    simp only [fields, List.map_cons, List.map_nil, ofValues?, Scalar.value,
      Value.text?, Value.bool?,
      Value.optionalInt32?, Json.Value.uint32?_ofInt, Json.Value.uint64?_ofInt]
    rfl
  | some code =>
    simp only [fields, List.map_cons, List.map_nil, ofValues?, Scalar.value,
      Value.text?, Value.bool?,
      Value.optionalInt32?, Json.Value.int32?_ofInt, Json.Value.uint32?_ofInt,
      Json.Value.uint64?_ofInt]
    rfl

/-- **The record of a running session is read back** as it was written. -/
theorem decode?_encode (c : Current) : decode? c.encode = some c := by
  rw [decode?, encode, Json.ofText?_pretty]
  simp only [Option.bind_some, ofDocument?, pick?_fields, ofValues?_fields]

end Current

namespace Finished

theorem pick?_fields (f : Finished) :
    pick? (f.fields.map fun g => (g.1, g.2.value)) = some (f.fields.map fun g => g.2.value) := by
  have hnodup : ((f.fields.map fun g => (g.1, g.2.value)).map (·.1)).Nodup := by
    rw [List.map_map]
    exact (by decide : ["session_id", "entry_point", "invocations", "outcome",
      "completed_at"].Nodup)
  have hall := Json.mapM_fields (f.fields.map fun g => (g.1, g.2.value))
    (Json.onlyField? (f.fields.map fun g => (g.1, g.2.value)))
    (fun g hg => Json.onlyField?_of_mem hnodup hg)
  rw [List.map_map, List.map_map] at hall
  exact hall

theorem ofValues?_fields (f : Finished) : ofValues? (f.fields.map fun g => g.2.value) = some f := by
  simp only [fields, List.map_cons, List.map_nil, ofValues?, Scalar.value, Value.text?,
    Json.Value.uint32?_ofInt]
  rfl

/-- **A line of the journal is read back** as it was written. -/
theorem decode?_encode (f : Finished) : decode? f.encode = some f := by
  rw [decode?, encode, Json.ofText?_compact]
  simp only [Option.bind_some, ofDocument?, pick?_fields, ofValues?_fields]

theorem not_control_of_mem_encode {f : Finished} (h : d ∈ f.encode.toList) : ¬ d < ' ' :=
  Json.not_control_of_mem_compact h

theorem newline_not_mem_encode (f : Finished) : '\n' ∉ f.encode.toList :=
  fun h => not_control_of_mem_encode h (by decide)

theorem return_not_mem_encode (f : Finished) : '\r' ∉ f.encode.toList :=
  fun h => not_control_of_mem_encode h (by decide)

end Finished

end Concolic
