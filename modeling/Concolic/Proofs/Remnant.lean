import Concolic.Proofs.Records

/-
  A record that stands after the remnant of a line.

  A line that was cut short has no end, so that the next record continues it.  Blanks do no harm,
  and anything else spoils the record: a text that the remnant has opened ends at the first quote of
  the record, or the tokens of the record come after those of the remnant.  Either it has left a
  bracket open, or it is a document of its own, after which nothing may come (`Begun`).
-/

namespace Concolic

namespace Json

/-! ## One token -/

/-- The tokens of one character. -/
def marks : List (Char × Token) :=
  [('\x7b', .opening .object), ('\x7d', .closing .object), ('[', .opening .array),
    (']', .closing .array), (':', .colon), (',', .comma)]

/-- The words that are values. -/
def words : List (List Char × Value) :=
  [(['t', 'r', 'u', 'e'], .bool true), (['f', 'a', 'l', 's', 'e'], .bool false),
    (['n', 'u', 'l', 'l'], .null)]

/-- A blank or the first token of a text, and what follows it. -/
inductive Reads : List Char → List Token → List Char → Prop where
  | space {c : Char} {rest : List Char} : isSpace c = true → Reads (c :: rest) [] rest
  | mark {c : Char} {token : Token} {rest : List Char} :
      (c, token) ∈ marks → Reads (c :: rest) [token] rest
  | text {cs rest : List Char} {v : Value} :
      readText .empty cs = some (v, rest) → Reads ('"' :: cs) [.value v] rest
  | word {w rest : List Char} {v : Value} : (w, v) ∈ words → Reads (w ++ rest) [.value v] rest
  | number {cs : List Char} : isNumber (cs.takeWhile isNumberChar) = true →
      Reads cs [.value (.number (cs.takeWhile isNumberChar))] (cs.dropWhile isNumberChar)

variable {cs rest more : List Char} {us ts acc : List Token} {fuel : Nat}

theorem Reads.tokensFrom_eq (h : Reads cs us rest) (fuel : Nat) (acc : List Token) :
    tokensFrom (fuel + 1) acc cs = tokensFrom fuel (us.reverse ++ acc) rest := by
  cases h with
  | space hspace => exact tokensFrom_space hspace fuel acc rest
  | mark hmark =>
    simp only [marks, List.mem_cons, Prod.mk.injEq, List.not_mem_nil, or_false] at hmark
    rcases hmark with ⟨rfl, rfl⟩ | ⟨rfl, rfl⟩ | ⟨rfl, rfl⟩ | ⟨rfl, rfl⟩ | ⟨rfl,
      rfl⟩ | ⟨rfl, rfl⟩ <;> rfl
  | text hread =>
    rw [tokensFrom_quote, hread]
    rfl
  | word hword =>
    simp only [words, List.mem_cons, Prod.mk.injEq, List.not_mem_nil, or_false] at hword
    rcases hword with ⟨rfl, rfl⟩ | ⟨rfl, rfl⟩ | ⟨rfl, rfl⟩ <;> rfl
  | number hnumber =>
    cases cs with
    | nil => cases hnumber
    | cons c cs =>
      have hc : isNumberChar c = true := by
        cases hc : isNumberChar c with
        | true => rfl
        | false =>
          rw [List.takeWhile_cons_of_neg (by simp [hc])] at hnumber
          cases hnumber
      rw [tokensFrom_number hc, if_pos hnumber]
      rfl

theorem reads_of_tokensFrom {c : Char} (h : tokensFrom (fuel + 1) acc (c :: cs) = some ts) :
    ∃ us rest, Reads (c :: cs) us rest ∧ tokensFrom fuel (us.reverse ++ acc) rest = some ts := by
  by_cases hspace : isSpace c = true
  · rw [tokensFrom_space hspace] at h
    exact ⟨[], cs, .space hspace, h⟩
  · unfold tokensFrom at h
    rw [if_neg hspace] at h
    split at h
    · exact ⟨_, _, .mark (by simp [marks]), h⟩
    · exact ⟨_, _, .mark (by simp [marks]), h⟩
    · exact ⟨_, _, .mark (by simp [marks]), h⟩
    · exact ⟨_, _, .mark (by simp [marks]), h⟩
    · exact ⟨_, _, .mark (by simp [marks]), h⟩
    · exact ⟨_, _, .mark (by simp [marks]), h⟩
    · split at h
      · rename_i hread
        exact ⟨_, _, .text hread, h⟩
      · cases h
    · split at h
      · exact ⟨_, _, .word (w := ['t', 'r', 'u', 'e']) (by simp [words]), h⟩
      · cases h
    · split at h
      · exact ⟨_, _, .word (w := ['f', 'a', 'l', 's', 'e']) (by simp [words]), h⟩
      · cases h
    · split at h
      · exact ⟨_, _, .word (w := ['n', 'u', 'l', 'l']) (by simp [words]), h⟩
      · cases h
    · dsimp only at h
      split at h
      · rename_i hnumber
        exact ⟨_, _, .number hnumber, h⟩
      · cases h

theorem tokensFrom_mono (h : tokensFrom fuel acc cs = some ts) (extra : Nat) :
    tokensFrom (fuel + extra) acc cs = some ts := by
  induction fuel generalizing acc cs with
  | zero => cases h
  | succ fuel ih =>
    rw [Nat.succ_add]
    cases cs with
    | nil => exact h
    | cons c cs =>
      obtain ⟨us, rest, hreads, hrest⟩ := reads_of_tokensFrom h
      rw [hreads.tokensFrom_eq]
      exact ih hrest

theorem tokensFrom_unique {k : Nat} {ts' : List Token} (h : tokensFrom fuel acc cs = some ts)
    (h' : tokensFrom k acc cs = some ts') : ts = ts' := by
  have hmore := tokensFrom_mono h k
  rw [Nat.add_comm, tokensFrom_mono h' fuel] at hmore
  exact (Option.some.inj hmore).symm

theorem tokensFrom_acc (h : tokensFrom fuel acc cs = some ts) :
    ∃ us, ts = acc.reverse ++ us ∧ tokensFrom fuel [] cs = some us := by
  suffices hall : ∀ acc', ∃ us, ts = acc.reverse ++ us ∧
      tokensFrom fuel acc' cs = some (acc'.reverse ++ us) from hall []
  induction fuel generalizing acc cs with
  | zero => cases h
  | succ fuel ih =>
    intro acc'
    cases cs with
    | nil =>
      cases h
      refine ⟨[], by simp, ?_⟩
      rw [List.append_nil]
      rfl
    | cons c cs =>
      obtain ⟨vs, rest, hreads, hrest⟩ := reads_of_tokensFrom h
      obtain ⟨us, rfl, hus⟩ := ih hrest (vs.reverse ++ acc')
      refine ⟨vs ++ us, by simp, ?_⟩
      rw [hreads.tokensFrom_eq, hus]
      simp

/-! ## After a remnant -/

theorem split_before_bracket {w : List Char} (hw : '\x7b' ∉ w)
    (h : cs ++ '\x7b' :: more = w ++ rest) :
    ∃ cs', cs = w ++ cs' ∧ rest = cs' ++ '\x7b' :: more := by
  rcases List.append_eq_append_iff.mp h with ⟨gap, rfl, hgap⟩ | ⟨cs', rfl, hcs'⟩
  · cases gap with
    | nil => exact ⟨[], by simp, by simpa using hgap.symm⟩
    | cons g gap =>
      obtain ⟨rfl, -⟩ := List.cons.inj hgap
      exact absurd (by simp) hw
  · exact ⟨cs', rfl, hcs'⟩

theorem bracket_not_mem_of_hex4 {a b c d : Char} {n : Nat} (h : hex4 a b c d = some n) :
    '\x7b' ∉ [a, b, c, d] := by
  have hvalue : Text.hexValue? '\x7b' = none := by decide
  intro hmem
  simp only [List.mem_cons, List.not_mem_nil, or_false] at hmem
  rcases hmem with rfl | rfl | rfl | rfl
    <;> simp [hex4, Text.ofDigits?, Text.pushDigit, hvalue] at h

/-- **A text that is open before a record** ends before it, or at the first quote of the record. -/
theorem readText_remnant {g : Gathered} {v : Value}
    (h : readText g (cs ++ '\x7b' :: '"' :: more) = some (v, rest)) :
    rest = more ∨ ∃ cs', rest = cs' ++ '\x7b' :: '"' :: more := by
  generalize hall : cs ++ '\x7b' :: '"' :: more = all at h
  fun_induction readText g all generalizing cs with
  | case1 g after =>
    obtain ⟨cs', -, rfl⟩ := split_before_bracket (w := ['"']) (by decide) hall
    cases h
    exact .inr ⟨cs', rfl⟩
  | case2 g a b c d after n hhex ih =>
    have hw : '\x7b' ∉ ['\\', 'u', a, b, c, d] := by
      have := bracket_not_mem_of_hex4 hhex
      simpa using this
    obtain ⟨cs', -, hafter⟩ := split_before_bracket hw hall
    exact ih hafter.symm h
  | case4 g c after _ e hescape ih =>
    have hw : '\x7b' ∉ ['\\', c] := by
      intro hmem
      obtain rfl : '\x7b' = c := by simpa using hmem
      cases hescape
    obtain ⟨cs', -, hafter⟩ := split_before_bracket hw hall
    exact ih hafter.symm h
  | case7 g c after _ _ _ _ ih =>
    cases cs with
    | nil =>
      -- the bracket is part of the text, which the quote after it ends
      obtain ⟨rfl, rfl⟩ := List.cons.inj hall
      cases h
      exact .inl rfl
    | cons c' cs =>
      obtain ⟨-, hafter⟩ := List.cons.inj hall
      exact ih hafter h
  | case3 | case5 | case6 | case8 => cases h

/-- The first token of a remnant ends before the record, unless it is a text. -/
theorem Reads.remnant {c : Char} (h : Reads (c :: cs ++ '\x7b' :: '"' :: more) us rest) :
    isSpace c = true ∧ us = [] ∧ rest = cs ++ '\x7b' :: '"' :: more ∨
      us ≠ [] ∧ (rest = more ∨ ∃ cs', rest = cs' ++ '\x7b' :: '"' :: more) := by
  generalize hall : c :: cs ++ '\x7b' :: '"' :: more = all at h
  cases h with
  | space hspace =>
    obtain ⟨rfl, rfl⟩ := List.cons.inj hall
    exact .inl ⟨hspace, rfl, rfl⟩
  | mark hmark =>
    obtain ⟨-, rfl⟩ := List.cons.inj hall
    exact .inr ⟨by simp, .inr ⟨cs, rfl⟩⟩
  | text hread =>
    obtain ⟨-, rfl⟩ := List.cons.inj hall
    exact .inr ⟨by simp, readText_remnant hread⟩
  | word hword =>
    have hw : ∀ entry ∈ words, '\x7b' ∉ entry.1 := by decide
    obtain ⟨cs', -, rfl⟩ := split_before_bracket (hw _ hword) hall
    exact .inr ⟨by simp, .inr ⟨cs', rfl⟩⟩
  | number hnumber =>
    have hbracket : isNumberChar '\x7b' = false := by decide
    refine .inr ⟨by simp, .inr ⟨(c :: cs).dropWhile isNumberChar, ?_⟩⟩
    rw [← hall, List.dropWhile_append]
    split
    · rename_i hnil
      rw [List.isEmpty_iff.mp hnil, List.dropWhile_cons_of_neg (by simp [hbracket])]
      rfl
    · rfl

/-- **The tokens of a remnant come before those of the record**, if the first name of the record
    does not begin like a token. -/
theorem tokensFrom_remnant (hmore : ∀ fuel acc, tokensFrom fuel acc more = none)
    (h : tokensFrom fuel acc (cs ++ '\x7b' :: '"' :: more) = some ts) :
    ∃ k us, tokensFrom k (us.reverse ++ acc) ('\x7b' :: '"' :: more) = some ts ∧
      ((∃ c ∈ cs, isSpace c = false) → us ≠ []) := by
  induction fuel generalizing acc cs with
  | zero => cases h
  | succ fuel ih =>
    cases cs with
    | nil => exact ⟨fuel + 1, [], h, by simp⟩
    | cons c cs =>
      obtain ⟨vs, rest, hreads, hrest⟩ := reads_of_tokensFrom h
      rcases hreads.remnant with ⟨hspace, rfl, rfl⟩ | ⟨hvs, rfl | ⟨cs', rfl⟩⟩
      · obtain ⟨k, us, hus, hne⟩ := ih hrest
        refine ⟨k, us, hus, ?_⟩
        rintro ⟨d, hd, hblank⟩
        rcases List.mem_cons.mp hd with rfl | hd
        · rw [hspace] at hblank
          cases hblank
        · exact hne ⟨d, hd, hblank⟩
      · rw [hmore] at hrest
        cases hrest
      · obtain ⟨k, us, hus, -⟩ := ih hrest
        refine ⟨k, vs ++ us, ?_, fun _ => by simp [hvs]⟩
        rw [List.reverse_append, List.append_assoc]
        exact hus

/-! ## The brackets of a document -/

/-- An opening bracket. -/
def Token.isOpening : Token → Bool
  | opening _ => true
  | _ => false

/-- A closing bracket. -/
def Token.isClosing : Token → Bool
  | closing _ => true
  | _ => false

namespace Reading

variable {r r' : Reading}

/-- Something has been read: there is an open bracket, or a whole value. -/
def Begun (r : Reading) : Prop := r.stack = [] → r.phase = .next

theorem stack_close (r : Reading) (v : Value) : (r.close v).stack = r.stack := by
  rw [close]
  split <;> rfl

theorem phase_close (r : Reading) (v : Value) : (r.close v).phase = .next := by
  rw [close]
  split <;> rfl

theorem stack_pop (r : Reading) (rest : List Container) : (r.pop rest).stack = rest := by
  rw [pop]
  split
  · rename_i hnil
    exact (List.isEmpty_iff.mp hnil).symm
  · exact stack_close _ _

theorem phase_pop (r : Reading) (rest : List Container) : (r.pop rest).phase = .next := by
  rw [pop]
  split
  · rfl
  · exact phase_close _ _

theorem stack_named {v : Value} (h : r.named v = some r') : r'.stack = r.stack := by
  unfold named at h
  split at h
  · cases h
    rfl
  · split at h
    · cases h
    · cases h
      rfl
  · cases h

theorem closeWith_eq_some {c : Container} (h : step.closeWith r c = some r') :
    ∃ rest, r.stack = c :: rest ∧ r' = r.pop rest := by
  unfold step.closeWith at h
  split at h
  · rename_i top rest hstack
    split at h
    · rename_i htop
      cases h
      exact ⟨rest, by rw [hstack, htop], rfl⟩
    · cases h
  · cases h

/-- **What a token does to the open brackets.** -/
theorem step_cases {token : Token} (h : r.step token = some r') :
    (∃ c, token = .opening c ∧ r'.stack = c :: r.stack ∧ r.phase ≠ .next) ∨
    (∃ c, token = .closing c ∧ r.stack = c :: r'.stack ∧ r'.phase = .next) ∨
    token.isOpening = false ∧ token.isClosing = false ∧ r'.stack = r.stack ∧
      (r.phase = .value → r'.phase = .next) ∧ (r.phase = .next → r.stack ≠ []) := by
  have hclose : ∀ {c}, token = .closing c → step.closeWith r c = some r' →
      ∃ c, token = .closing c ∧ r.stack = c :: r'.stack ∧ r'.phase = .next := by
    rintro c rfl hwith
    obtain ⟨rest, hstack, rfl⟩ := closeWith_eq_some hwith
    exact ⟨c, rfl, by rw [hstack, stack_pop], phase_pop r rest⟩
  unfold step at h
  split at h
  · -- a value where one is due
    rename_i v hphase
    cases h
    exact .inr (.inr ⟨rfl, rfl, stack_close r v, fun _ => phase_close r v, by simp [hphase]⟩)
  · rename_i v hphase
    cases h
    exact .inr (.inr ⟨rfl, rfl, stack_close r v, fun _ => phase_close r v, by simp [hphase]⟩)
  · -- the name of a member
    rename_i v hphase
    exact .inr (.inr ⟨rfl, rfl, stack_named h, by simp [hphase], by simp [hphase]⟩)
  · rename_i v hphase
    exact .inr (.inr ⟨rfl, rfl, stack_named h, by simp [hphase], by simp [hphase]⟩)
  · rename_i c hphase
    cases h
    exact .inl ⟨c, rfl, rfl, by simp [hphase]⟩
  · rename_i c hphase
    cases h
    exact .inl ⟨c, rfl, rfl, by simp [hphase]⟩
  · rename_i hphase
    cases h
    exact .inr (.inr ⟨rfl, rfl, rfl, by simp [hphase], by simp [hphase]⟩)
  · -- a comma is taken inside a bracket only
    rename_i hphase
    split at h
    · rename_i hstack
      cases h
      exact .inr (.inr ⟨rfl, rfl, rfl, by simp [hphase], by simp [hstack]⟩)
    · rename_i hstack
      cases h
      exact .inr (.inr ⟨rfl, rfl, rfl, by simp [hphase], by simp [hstack]⟩)
    · cases h
  iterate 4
    · exact .inr (.inl (hclose rfl h))
  · cases h

theorem steps_cons_eq_some {token : Token} {ts : List Token} (h : r.steps (token :: ts) = some r') :
    ∃ next, r.step token = some next ∧ next.steps ts = some r' := by
  rw [steps] at h
  split at h
  · rename_i next hstep
    exact ⟨next, hstep, h⟩
  · cases h

theorem Begun.step {token : Token} (hr : r = start ∨ r.Begun) (h : r.step token = some r') :
    r'.Begun := by
  have hphase : r.stack = [] → r.phase = .value ∨ r.phase = .next := by
    rcases hr with rfl | hr
    · exact fun _ => .inl rfl
    · exact fun hstack => .inr (hr hstack)
  intro hstack'
  rcases step_cases h with ⟨c, -, hstack, -⟩ | ⟨c, -, -, hnext⟩ | ⟨-, -, hstack, hvalue, hnext⟩
  · rw [hstack] at hstack'
    cases hstack'
  · exact hnext
  · rw [hstack] at hstack'
    rcases hphase hstack' with hv | hn
    · exact hvalue hv
    · exact absurd hstack' (hnext hn)

theorem begun_of_steps {ts : List Token} (hr : r = start ∨ r.Begun) (hne : ts ≠ [])
    (h : r.steps ts = some r') : r'.Begun := by
  induction ts generalizing r with
  | nil => exact absurd rfl hne
  | cons token ts ih =>
    obtain ⟨next, hstep, hrest⟩ := steps_cons_eq_some h
    have hnext := Begun.step hr hstep
    cases ts with
    | nil =>
      cases hrest
      exact hnext
    | cons token' ts => exact ih (.inr hnext) (by simp) hrest

/-- **Every bracket counts**: what is open at the end is what was open before, with the brackets
    that were opened and without those that were closed. -/
theorem length_stack_steps {ts : List Token} (h : r.steps ts = some r') :
    r'.stack.length + ts.countP Token.isClosing = r.stack.length + ts.countP Token.isOpening := by
  induction ts generalizing r with
  | nil =>
    cases h
    rfl
  | cons token ts ih =>
    obtain ⟨next, hstep, hsteps⟩ := steps_cons_eq_some h
    have hrest := ih hsteps
    rcases step_cases hstep with ⟨c, rfl, hstack, -⟩ | ⟨c, rfl, hstack, -⟩ | ⟨ho, hc, hstack, -, -⟩
    · rw [hstack, List.length_cons] at hrest
      simp only [List.countP_cons, Token.isOpening, Token.isClosing, Bool.false_eq_true, if_false,
        if_true]
      omega
    · rw [hstack, List.length_cons]
      simp only [List.countP_cons, Token.isOpening, Token.isClosing, Bool.false_eq_true, if_false,
        if_true]
      omega
    · rw [hstack] at hrest
      simp only [List.countP_cons, ho, hc]
      omega

theorem steps_after_value {us ts : List Token} {c : Container} (hne : us ≠ [])
    (hbalance : (Token.opening c :: ts).countP Token.isClosing =
      (Token.opening c :: ts).countP Token.isOpening)
    (h : start.steps (us ++ .opening c :: ts) = some r') : r'.stack ≠ [] := by
  rw [steps_append] at h
  obtain ⟨r, hus, hts⟩ := Option.bind_eq_some_iff.mp h
  have hbegun := begun_of_steps (.inl rfl) hne hus
  have hlength := length_stack_steps hts
  intro hstack'
  have hstack : r.stack = [] := by
    rw [hstack', List.length_nil] at hlength
    exact List.eq_nil_of_length_eq_zero (by omega)
  -- after a whole document no bracket may be opened
  obtain ⟨next, hstep, -⟩ := steps_cons_eq_some hts
  rcases step_cases hstep with ⟨c', -, -, hphase⟩ | ⟨c', hclosing, -⟩ | ⟨hopening, -⟩
  · exact hphase (hbegun hstack)
  · cases hclosing
  · cases hopening

end Reading

/-! ## Records after a remnant -/

theorem countP_memberTokens (fields : List (String × Scalar)) :
    (memberTokens fields).countP Token.isClosing = 0 ∧
      (memberTokens fields).countP Token.isOpening = 0 := by
  induction fields with
  | nil => exact ⟨rfl, rfl⟩
  | cons f fs ih =>
    cases fs with
    | nil => exact ⟨rfl, rfl⟩
    | cons g gs =>
      rw [memberTokens]
      · simp only [List.countP_cons, Token.isOpening, Token.isClosing]
        simpa using ih
      · simp

theorem tokens?_compact (fields : List (String × Scalar)) :
    tokens? (compact fields).toList =
      some (.opening .object :: (memberTokens fields ++ [.closing .object])) := by
  rw [compact_eq_layout, String.toList_ofList]
  exact tokens?_layout (by simp) (by simp) (by simp) (by simp) fields

/-- **Only blanks may stand before an object**: if anything else does, the whole is no document. -/
theorem ofText?_remnant {fields : List (String × Scalar)}
    (hfields : (compact fields).toList = '\x7b' :: '"' :: more)
    (hmore : ∀ fuel acc, tokensFrom fuel acc more = none) (hcs : ∃ c ∈ cs, isSpace c = false) :
    Document.ofText? (String.ofList (cs ++ (compact fields).toList)) = none := by
  have hrecord := tokens?_compact fields
  rw [Document.ofText?, String.toList_ofList]
  cases htokens : tokens? (cs ++ (compact fields).toList) with
  | none => rfl
  | some ts =>
    rw [tokens?, hfields] at htokens hrecord
    obtain ⟨k, us, hrest, hne⟩ := tokensFrom_remnant hmore htokens
    obtain ⟨vs, hts, hvs⟩ := tokensFrom_acc hrest
    obtain rfl := tokensFrom_unique hvs hrecord
    rw [List.append_nil, List.reverse_reverse] at hts
    show Document.ofTokens? ts = none
    rw [Document.ofTokens?, hts]
    have hbalance := countP_memberTokens fields
    cases hsteps : Reading.start.steps (us ++ .opening .object :: (memberTokens fields ++
        [.closing .object])) with
    | none => rfl
    | some r =>
      have hopen := Reading.steps_after_value (hne hcs) (by
        simp [List.countP_cons, List.countP_append, hbalance.1, hbalance.2, Token.isOpening,
          Token.isClosing]) hsteps
      exact if_neg fun hclosed => hopen hclosed.1

theorem ofText?_blanks (fields : List (String × Scalar)) (hcs : ∀ c ∈ cs, isSpace c = true) :
    Document.ofText? (String.ofList (cs ++ (compact fields).toList)) =
      Document.ofText? (compact fields) := by
  have hrecord := tokens?_compact fields
  obtain ⟨k, hk, hspells⟩ := spells_spaces hcs (compact fields).toList
  have hall : tokens? (cs ++ (compact fields).toList) = tokens? (compact fields).toList := by
    have hmore := (hspells _ []).trans (tokensFrom_mono hrecord (cs.length - k))
    have hfuel : (cs ++ (compact fields).toList).length + 1 =
        (compact fields).toList.length + 1 + (cs.length - k) + k := by
      rw [List.length_append]
      omega
    rw [hrecord, tokens?, hfuel]
    exact hmore
  rw [Document.ofText?, Document.ofText?, String.toList_ofList, hall]

end Json

/-- **A finished session after the remnant of a line** is read exactly if the remnant is blank. -/
theorem Finished.decode?_remnant (e : Finished) (cs : List Char) :
    Finished.decode? (String.ofList (cs ++ e.encode.toList)) =
      if cs.all Json.isSpace then some e else none := by
  split
  · rename_i hblank
    rw [← Finished.decode?_encode e, decode?, decode?, encode,
      Json.ofText?_blanks _ (List.all_eq_true.mp hblank)]
  · rename_i hother
    have hcs : ∃ c ∈ cs, Json.isSpace c = false := by simpa using hother
    -- the first name of the record begins with a letter that begins no token
    obtain ⟨more, hfields⟩ : ∃ more, e.encode.toList = '\x7b' :: '"' :: 's' :: more := by
      have hname : Json.quoted "session_id" = '"' :: 's' :: (Json.quoted "session_id").drop 2 := by
        decide +kernel
      rw [encode, Json.compact, String.toList_ofList, fields, List.map_cons, hname]
      exact ⟨_, rfl⟩
    have hmore : ∀ fuel acc, Json.tokensFrom fuel acc ('s' :: more) = none := by
      intro fuel acc
      cases fuel <;> rfl
    rw [decode?, encode, Json.ofText?_remnant hfields hmore hcs]
    rfl

end Concolic
