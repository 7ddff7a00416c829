import Concolic.Program
import Concolic.Proofs.Decimal
import Mathlib.Data.List.Nodup
import Mathlib.Data.List.Perm.Basic
import Mathlib.Data.List.TakeWhile

/-
  Command lines in any order.

  A `Choice` is an option with its value, an `Item` is a choice in one of two forms or a positional
  argument, and `enter?` enters an item into the arguments, with no regard to how it is spelt.  The
  reader may be one option behind: it `Stands` for the arguments that it would have if it looked
  now.
-/

namespace Concolic.Arguments

/-! ## Choices -/

/-- An option that a user gives, with its value. -/
inductive Choice where
  | iterations (n : UInt32)
  | workDir (value : String)
  | timeout (n : UInt64)
  | config (value : String)
  | quiet
  | dryRun
  deriving DecidableEq

/-- A text that is not taken for an option. -/
def IsWord (s : String) : Prop := s ≠ "" ∧ s.toList.head? ≠ some '-'

instance : DecidablePred IsWord := fun _ => inferInstanceAs (Decidable (_ ∧ _))

namespace Choice

/-- The option that is chosen. -/
def option : Choice → Named
  | iterations _ => .valued .iterations
  | workDir _ => .valued .workDir
  | timeout _ => .valued .timeout
  | config _ => .valued .config
  | quiet => .flag .quiet
  | dryRun => .flag .dryRun

/-- The long name of the option. -/
def name : Choice → String
  | iterations _ => "iterations"
  | workDir _ => "work-dir"
  | timeout _ => "timeout"
  | config _ => "config"
  | quiet => "quiet"
  | dryRun => "dry-run"

/-- The text of the value, if the option takes one. -/
def value? : Choice → Option String
  | iterations n => some (Nat.repr n.toNat)
  | workDir value => some value
  | timeout n => some (Nat.repr n.toNat)
  | config value => some value
  | quiet => .none
  | dryRun => .none

/-- The value can stand behind its option. -/
def IsSayable : Choice → Prop
  | workDir value => IsWord value
  | config value => IsWord value
  | _ => True

end Choice

/-- How the value of an option is given. -/
inductive Form where
  /-- After an equals sign. -/
  | attached
  /-- As the next argument. -/
  | apart
  deriving DecidableEq

/-- The arguments that give an option. -/
def Choice.words (c : Choice) (form : Form) : List String :=
  match c.value?, form with
  | .none, _ => ["--" ++ c.name]
  | some value, .attached => ["--" ++ c.name ++ "=" ++ value]
  | some value, .apart => ["--" ++ c.name, value]

/-- A part of a command line. -/
inductive Item where
  | option (c : Choice) (form : Form)
  | positional (arg : String)
  deriving DecidableEq

namespace Item

/-- The arguments that an item is given by. -/
def words : Item → List String
  | option c form => c.words form
  | positional arg => [arg]

/-- The choice that an item is. -/
def choice? : Item → Option Choice
  | option c _ => some c
  | positional _ => .none

/-- The positional argument that an item is. -/
def positional? : Item → Option String
  | option _ _ => .none
  | positional arg => some arg

/-- The item is not taken for anything else. -/
def IsSayable : Item → Prop
  | option c _ => c.IsSayable
  | positional arg => IsWord arg

end Item

/-! ## What items mean -/

variable {a : Arguments} {c : Choice} {items : List Item}

/-- The arguments with an option entered. -/
def choose (a : Arguments) : Choice → Arguments
  | .iterations n => { a with iterations := some n }
  | .workDir value => { a with workDir := some value }
  | .timeout n => { a with timeout := some n }
  | .config value => { a with config := some value }
  | .quiet => { a with quiet := true }
  | .dryRun => { a with dryRun := true }

/-- The arguments with a positional one entered: the class path comes first. -/
def seat (a : Arguments) (arg : String) : Arguments :=
  if a.classpath.isNone then { a with classpath := some arg } else { a with entryPoint := some arg }

/-- The option has been given. -/
def given (a : Arguments) : Named → Bool
  | .valued o => a.has o
  | .flag .quiet => a.quiet
  | .flag .dryRun => a.dryRun
  | .flag _ => false

/-- The number of positional arguments that may still come. -/
def seats (a : Arguments) : Nat :=
  (if a.classpath.isNone then 1 else 0) + (if a.entryPoint.isNone then 1 else 0)

/-- The arguments with an item entered, if that can be. -/
def enter? (a : Arguments) : Item → Option Arguments
  | .option c _ => if a.given c.option then .none else some (a.choose c)
  | .positional arg => if 0 < a.seats then some (a.seat arg) else .none

theorem given_choose (a : Arguments) (c : Choice) (o : Named) :
    (a.choose c).given o = true ↔ o = c.option ∨ a.given o = true := by
  rcases o with o | f
  · cases c <;> cases o <;> simp [choose, given, has, Choice.option]
  · cases c <;> cases f <;> simp [choose, given, Choice.option]

theorem given_seat (a : Arguments) (arg : String) (o : Named) :
    (a.seat arg).given o = a.given o := by
  rw [seat]
  split
  · rcases o with o | f
    · cases o <;> rfl
    · cases f <;> rfl
  · rcases o with o | f
    · cases o <;> rfl
    · cases f <;> rfl

theorem seats_choose (a : Arguments) (c : Choice) : (a.choose c).seats = a.seats := by
  cases c <;> rfl

theorem seats_seat (h : 0 < a.seats) (arg : String) : (a.seat arg).seats + 1 = a.seats := by
  obtain ⟨classpath, entryPoint, _⟩ := a
  cases classpath with
  | none => simp [seat, seats, Nat.add_comm]
  | some classpath =>
    cases entryPoint with
    | none => simp [seat, seats]
    | some entryPoint => simp [seats] at h

theorem choose_comm {c c' : Choice} (h : c.option ≠ c'.option) (a : Arguments) :
    (a.choose c).choose c' = (a.choose c').choose c := by
  cases c <;> cases c' <;> first | rfl | exact absurd rfl h

theorem foldl_choose_seat (cs : List Choice) (a : Arguments) (arg : String) :
    cs.foldl choose (a.seat arg) = (cs.foldl choose a).seat arg := by
  have hone : ∀ (a : Arguments) (c : Choice), (a.seat arg).choose c = (a.choose c).seat arg := by
    rintro ⟨classpath, _⟩ c
    cases classpath <;> cases c <;> rfl
  induction cs generalizing a with
  | nil => rfl
  | cons c rest ih => rw [List.foldl_cons, List.foldl_cons, hone, ih]

/-- Choices of different options may be entered in any order. -/
theorem foldl_choose_perm {cs cs' : List Choice} (h : cs.Perm cs')
    (hnodup : (cs.map Choice.option).Nodup) (a : Arguments) :
    cs.foldl choose a = cs'.foldl choose a := by
  refine h.foldl_eq' (fun c hc c' hc' a => ?_) a
  by_cases heq : c.option = c'.option
  · rw [List.inj_on_of_nodup_map hnodup hc hc' heq]
  · exact choose_comm heq a

/-- **When all items can be entered**: no option twice, and no more positional arguments than there
    are seats.  The choices may then be entered before all positional arguments. -/
theorem foldlM_enter? (items : List Item) (a b : Arguments) : items.foldlM enter? a = some b ↔
    (∀ c ∈ items.filterMap Item.choice?, a.given c.option = false) ∧
    ((items.filterMap Item.choice?).map Choice.option).Nodup ∧
    (items.filterMap Item.positional?).length ≤ a.seats ∧
    b = (items.filterMap Item.positional?).foldl seat
      ((items.filterMap Item.choice?).foldl choose a) := by
  induction items generalizing a with
  | nil =>
    exact ⟨fun h => ⟨by simp, by simp, by simp, (Option.some.inj h).symm⟩,
      fun h => congrArg some h.2.2.2.symm⟩
  | cons i rest ih =>
    cases i with
    | option c form =>
      have hstep : (Item.option c form :: rest).foldlM enter? a = some b ↔
          a.given c.option = false ∧ rest.foldlM enter? (a.choose c) = some b := by
        cases hgiven : a.given c.option <;> simp [enter?, hgiven]
      have hchosen : ∀ c' : Choice, (a.choose c).given c'.option = false ↔
          c'.option ≠ c.option ∧ a.given c'.option = false := by
        intro c'
        rw [← Bool.not_eq_true, given_choose, not_or, Bool.not_eq_true]
      rw [hstep, ih, seats_choose]
      simp only [Item.choice?, Item.positional?, List.filterMap_cons, hchosen, List.forall_mem_cons,
        List.map_cons, List.nodup_cons, List.mem_map, not_exists, not_and, List.foldl_cons]
      constructor
      · rintro ⟨hfree, hrest, hnodup, hseats⟩
        exact ⟨⟨hfree, fun c' hc' => (hrest c' hc').2⟩,
          ⟨fun c' hc' => (hrest c' hc').1, hnodup⟩, hseats⟩
      · rintro ⟨⟨hfree, hrest⟩, ⟨hnew, hnodup⟩, hseats⟩
        exact ⟨hfree, fun c' hc' => ⟨hnew c' hc', hrest c' hc'⟩, hnodup, hseats⟩
    | positional arg =>
      have hstep : (Item.positional arg :: rest).foldlM enter? a = some b ↔
          0 < a.seats ∧ rest.foldlM enter? (a.seat arg) = some b := by
        by_cases hseats : 0 < a.seats <;> simp [enter?, hseats]
      rw [hstep, ih]
      simp only [Item.choice?, Item.positional?, List.filterMap_cons, given_seat, List.length_cons,
        List.foldl_cons, foldl_choose_seat]
      constructor
      · rintro ⟨hfree, hrest, hnodup, hseats, hb⟩
        have hone := seats_seat hfree arg
        exact ⟨hrest, hnodup, by omega, hb⟩
      · rintro ⟨hrest, hnodup, hseats, hb⟩
        have hfree : 0 < a.seats := by omega
        have hone := seats_seat hfree arg
        exact ⟨hfree, hrest, hnodup, by omega, hb⟩

/-! ## The choices of given arguments -/

/-- The options that are given, with their values. -/
def choices (a : Arguments) : List Choice :=
  (a.iterations.map Choice.iterations).toList ++ (a.workDir.map Choice.workDir).toList ++
    (a.timeout.map Choice.timeout).toList ++ (a.config.map Choice.config).toList ++
    (if a.quiet then [Choice.quiet] else []) ++ (if a.dryRun then [Choice.dryRun] else [])

theorem nodup_choices (a : Arguments) : (a.choices.map Choice.option).Nodup := by
  obtain ⟨classpath, entryPoint, iterations, workDir, timeout, config, quiet, dryRun, history⟩ := a
  cases iterations <;> cases workDir <;> cases timeout <;> cases config <;> cases quiet <;>
    cases dryRun <;> simp [choices, Choice.option]

theorem foldl_choices (a : Arguments) : a.choices.foldl choose Arguments.none =
    { a with classpath := .none, entryPoint := .none, statusHistory := .none } := by
  obtain ⟨classpath, entryPoint, iterations, workDir, timeout, config, quiet, dryRun, history⟩ := a
  simp only [choices, List.foldl_append]
  cases iterations <;> cases workDir <;> cases timeout <;> cases config <;> cases quiet <;>
    cases dryRun <;> rfl

/-! ## Texts of choices -/

theorem uint32?_repr (n : UInt32) : uint32? (Nat.repr n.toNat) = some n := by
  have hsigned : Text.signed? (Nat.toDigits 10 n.toNat) = some (n.toNat : Int) := by
    unfold Text.signed?
    split
    · rename_i hcs
      exact absurd (Text.isDigit_of_toDigits_eq_cons hcs) (by decide)
    · rename_i hcs
      exact absurd (Text.isDigit_of_toDigits_eq_cons hcs) (by decide)
    · rw [Text.ofDigits?_toDigits]
      rfl
  have hlt : n.toNat < Text.limit32 := UInt32.toNat_lt n
  rw [uint32?, Nat.toList_repr, hsigned]
  show (if n.toNat < Text.limit32 then some (UInt32.ofNat n.toNat) else .none) = some n
  rw [if_pos hlt, UInt32.ofNat_toNat]

theorem uint64?_repr (n : UInt64) : uint64? (Nat.repr n.toNat) = some n := by
  have hunsigned : Text.unsigned? Text.limit64 (Nat.toDigits 10 n.toNat) = some n.toNat := by
    unfold Text.unsigned?
    split
    · rename_i hcs
      exact absurd (Text.isDigit_of_toDigits_eq_cons hcs) (by decide)
    · dsimp only
      rw [Text.ofDigits?_toDigits]
      exact if_pos (UInt64.toNat_lt n)
  rw [uint64?, Nat.toList_repr, hunsigned, Option.map_some, UInt64.ofNat_toNat]

theorem isWord_repr (n : Nat) : IsWord (Nat.repr n) := by
  constructor
  · intro hempty
    have hnil := congrArg String.toList hempty
    rw [Nat.toList_repr] at hnil
    exact Nat.toDigits_ne_nil hnil
  · intro hhead
    rw [Nat.toList_repr] at hhead
    obtain ⟨rest, hrest⟩ := List.head?_eq_some_iff.mp hhead
    exact absurd (Text.isDigit_of_toDigits_eq_cons hrest) (by decide)

theorem Choice.isWord_value (h : c.IsSayable) {value : String} (hvalue : c.value? = some value) :
    IsWord value := by
  cases c with
  | iterations n =>
    cases hvalue
    exact isWord_repr _
  | timeout n =>
    cases hvalue
    exact isWord_repr _
  | workDir v =>
    cases hvalue
    exact h
  | config v =>
    cases hvalue
    exact h
  | quiet => cases hvalue
  | dryRun => cases hvalue

theorem Choice.longOption_name (c : Choice) : longOption .session c.name = some c.option := by
  cases c <;> rfl

theorem Choice.equals_not_mem_name (c : Choice) : ∀ x ∈ c.name.toList, x ≠ '=' := by
  have hall : c.name.toList.all (· ≠ '=') = true := by
    cases c <;> dsimp only [name] <;> decide
  simpa using List.all_eq_true.mp hall

theorem Choice.name_ne_nil (c : Choice) : c.name.toList ≠ [] := by
  cases c <;> dsimp only [name] <;> decide

theorem Choice.cases (c : Choice) : (∃ o value, c.option = .valued o ∧ c.value? = some value) ∨
    ∃ f, c.option = .flag f ∧ c.value? = .none := by
  cases c with
  | quiet => exact .inr ⟨_, rfl, rfl⟩
  | dryRun => exact .inr ⟨_, rfl, rfl⟩
  | _ => exact .inl ⟨_, _, rfl, rfl⟩

/-- **Entering a value** enters the choice, unless the option has been given. -/
theorem set_value {o : Valued} {value : String} (hoption : c.option = .valued o)
    (hvalue : c.value? = some value) (hsay : c.IsSayable) (a : Arguments) :
    a.set o value = if a.given c.option then .error (.misuse .conflict) else .ok (a.choose c) := by
  rw [hoption, given]
  unfold set
  congr 1
  cases c with
  | iterations n =>
    cases hoption
    cases hvalue
    simp only [uint32?_repr, number]
    rfl
  | timeout n =>
    cases hoption
    cases hvalue
    simp only [uint64?_repr, number]
    rfl
  | workDir v =>
    cases hoption
    cases hvalue
    simp only [hsay.1, if_false]
    rfl
  | config v =>
    cases hoption
    cases hvalue
    rfl
  | quiet => cases hoption
  | dryRun => cases hoption

/-! ## Readings that cannot go on -/

/-- The command line is refused as it is, and not for the sake of a help text. -/
def IsMisuse {α : Type} (x : Except Refusal α) : Prop := ∃ kind, x = .error (.misuse kind)

theorem IsMisuse.bind {α β : Type} {x : Except Refusal α} (h : IsMisuse x)
    (f : α → Except Refusal β) : IsMisuse (x >>= f) := by
  obtain ⟨kind, rfl⟩ := h
  exact ⟨kind, rfl⟩

namespace Reading

variable {r r' : Reading} {arg : String} {literal : Bool}

/-- The rest of a command line, to its end. -/
def complete (r : Reading) (args : List String) : Except Refusal Reading := do
  let r ← r.steps args
  r.resolve

theorem complete_cons (r : Reading) (arg : String) (rest : List String) :
    r.complete (arg :: rest) = r.step arg >>= fun r' => r'.complete rest := by
  rw [complete, steps, bind_assoc]
  rfl

theorem complete_of_step (h : r.step arg = .ok r') (rest : List String) :
    r.complete (arg :: rest) = r'.complete rest := by
  rw [complete_cons, h]
  rfl

theorem isMisuse_of_step (h : IsMisuse (r.step arg)) (rest : List String) :
    IsMisuse (r.complete (arg :: rest)) := by
  rw [complete_cons]
  exact h.bind _

/-- The open option has a value, which will be refused. -/
structure Stuck (r : Reading) : Prop where
  valued : ∃ o value, r.pending = some ⟨o, some value⟩
  refused : IsMisuse r.resolve

theorem Stuck.long (h : r.Stuck) (body : List Char) : IsMisuse (r.long body) := by
  unfold Reading.long
  dsimp only
  split
  · exact ⟨_, rfl⟩
  · split
    · exact ⟨_, rfl⟩
    · exact h.refused.bind _
  · exact h.refused.bind _

theorem Stuck.short (h : r.Stuck) (c : Char) (rest : List Char) :
    IsMisuse (r.short (c :: rest)) := by
  unfold Reading.short
  split
  · exact ⟨_, rfl⟩
  · have hflag : ∀ f, IsMisuse (r.setFlag f) := fun f => h.refused.bind _
    exact (hflag _).bind _
  · exact h.refused.bind _

theorem Stuck.positional (h : r.Stuck) (arg : String) : IsMisuse (r.positional arg) := by
  unfold Reading.positional
  split
  · exact ⟨_, rfl⟩
  · exact h.refused.bind _
  · exact h.refused.bind _
  · exact ⟨_, rfl⟩

theorem resolve_literal (r : Reading) : ({ r with literal := true } : Reading).resolve =
      r.resolve.map fun r' => { r' with literal := true } := by
  obtain ⟨mode, args, pending, literal⟩ := r
  rcases pending with _ | ⟨o, _ | value⟩
  · rfl
  · rfl
  · show (args.set o value).map _ = ((args.set o value).map _).map _
    cases args.set o value <;> rfl

/-- **A value that will be refused is never got over**: whatever follows has it looked at first, and
    `--` leaves it open. -/
theorem Stuck.complete (h : r.Stuck) (args : List String) : IsMisuse (r.complete args) := by
  induction args generalizing r with
  | nil => exact h.refused
  | cons arg rest ih =>
    have hstep : IsMisuse (r.step arg) ∨ ∃ r', r.step arg = .ok r' ∧ r'.Stuck := by
      obtain ⟨o, value, hopen⟩ := h.valued
      unfold step
      split
      · exact .inl (h.positional arg)
      split
      · obtain ⟨kind, hkind⟩ := h.refused
        refine .inr ⟨_, rfl, ⟨o, value, hopen⟩, kind, ?_⟩
        rw [resolve_literal, hkind]
        rfl
      · exact .inl (h.long _)
      · exact .inl (h.short _ _)
      · left
        rw [hopen]
        exact h.positional arg
    rcases hstep with hmisuse | ⟨r', hr', hstuck⟩
    · exact isMisuse_of_step hmisuse rest
    · rw [complete_of_step hr']
      exact ih hstuck

/-! ## What a reading stands for -/

/-- The reading of a session in which no option is open. -/
def settled (literal : Bool) (a : Arguments) : Reading := ⟨.session, a, .none, literal⟩

/-- A reading of a session that would have the arguments `a` if it looked at the open option now. -/
structure Stands (literal : Bool) (r : Reading) (a : Arguments) : Prop where
  mode_eq : r.mode = .session
  literal_eq : r.literal = literal
  resolve_eq : r.resolve = .ok (settled literal a)
  classpath_eq : r.args.classpath = a.classpath
  entryPoint_eq : r.args.entryPoint = a.entryPoint

theorem stands_settled (literal : Bool) (a : Arguments) : Stands literal (settled literal a) a :=
  ⟨rfl, rfl, rfl, rfl, rfl⟩

theorem step_long (hliteral : r.literal = false) {body : List Char} (hbody : body ≠ [])
    (harg : arg.toList = '-' :: '-' :: body) : r.step arg = r.long body := by
  unfold step
  rw [if_neg (by simp [hliteral]), harg]
  cases body with
  | nil => exact absurd rfl hbody
  | cons c rest => rfl

theorem step_word (hliteral : r.literal = false) (hword : IsWord arg) : r.step arg =
    match r.pending with
    | some ⟨o, .none⟩ => .ok { r with pending := some ⟨o, some arg⟩ }
    | _ => r.positional arg := by
  have hhead : ∀ rest, arg.toList ≠ '-' :: rest := fun rest hlist => hword.2 (by rw [hlist]; rfl)
  unfold step
  rw [if_neg (by simp [hliteral])]
  split
  iterate 3
    · rename_i hlist
      exact absurd hlist (hhead _)
  · rfl

theorem step_bare (hmode : r.mode = .session) (hliteral : r.literal = false) (c : Choice) :
    r.step ("--" ++ c.name) =
      match c.option with
      | .flag f => r.setFlag f
      | .valued o => r.setValued o .none := by
  have hequals : ∀ x ∈ c.name.toList, decide (x ≠ '=') = true := fun x hx =>
    decide_eq_true (c.equals_not_mem_name x hx)
  rw [step_long hliteral c.name_ne_nil (by rw [String.toList_append]; rfl)]
  unfold Reading.long
  rw [List.takeWhile_eq_self_iff.mpr hequals, List.dropWhile_eq_nil_iff.mpr hequals,
    String.ofList_toList]
  simp only [hmode, c.longOption_name]
  cases c.option <;> rfl

theorem step_attached (hmode : r.mode = .session) (hliteral : r.literal = false) {o : Valued}
    (hoption : c.option = .valued o) (value : String) :
    r.step ("--" ++ c.name ++ "=" ++ value) = r.setValued o (some value) := by
  have hequals : ∀ x ∈ c.name.toList, decide (x ≠ '=') = true := fun x hx =>
    decide_eq_true (c.equals_not_mem_name x hx)
  have hlist : ("--" ++ c.name ++ "=" ++ value).toList =
      '-' :: '-' :: (c.name.toList ++ '=' :: value.toList) := by
    simp only [String.toList_append]
    simp
  rw [step_long hliteral (by simp) hlist]
  unfold Reading.long
  rw [List.takeWhile_append_of_pos hequals, List.dropWhile_append_of_pos hequals,
    List.takeWhile_cons_of_neg (by simp), List.dropWhile_cons_of_neg (by simp), List.append_nil]
  simp only [String.ofList_toList, hmode, c.longOption_name, hoption]

/-- The result of a step that looks at the open option and enters an item. -/
def outcome (literal : Bool) : Option Arguments → Except Refusal Reading
  | some a => .ok (settled literal a)
  | .none => .error (.misuse .conflict)

/-- Where words lead, whatever follows: to a reading that stands for arguments, or to a misuse. -/
def Leads (r : Reading) (words : List String) : Option Arguments → Prop
  | some a => ∃ r', Stands false r' a ∧ ∀ rest, r.complete (words ++ rest) = r'.complete rest
  | .none => ∀ rest, IsMisuse (r.complete (words ++ rest))

theorem leads_of_step {x : Option Arguments} (h : r.step arg = outcome false x) :
    Leads r [arg] x := by
  cases x with
  | some a => exact ⟨_, stands_settled false a, complete_of_step h⟩
  | none => exact isMisuse_of_step ⟨_, h⟩

namespace Stands

variable {a : Arguments} {c : Choice} {form : Form}

theorem setFlag (h : Stands literal r a) {f : Flag} (hoption : c.option = .flag f) :
    r.setFlag f = outcome literal (a.enter? (.option c form)) := by
  rw [Reading.setFlag, h.resolve_eq, enter?]
  cases c with
  | quiet =>
    cases hoption
    show (if a.quiet then _ else _) = outcome literal (if a.quiet then _ else _)
    split <;> rfl
  | dryRun =>
    cases hoption
    show (if a.dryRun then _ else _) = outcome literal (if a.dryRun then _ else _)
    split <;> rfl
  | _ => cases hoption

theorem setValued (h : Stands literal r a) {o : Valued} {value : String}
    (hoption : c.option = .valued o) (hvalue : c.value? = some value) (hsay : c.IsSayable) :
    r.setValued o (some value) = outcome literal (a.enter? (.option c form)) := by
  rw [Reading.setValued, h.resolve_eq, enter?]
  show (a.set o value).map _ = _
  rw [set_value hoption hvalue hsay]
  split <;> rfl

theorem positional (h : Stands literal r a) (arg : String) :
    r.positional arg = outcome literal (a.enter? (.positional arg)) := by
  obtain ⟨classpath, entryPoint, _⟩ := a
  unfold Reading.positional
  rw [h.mode_eq, h.classpath_eq, h.entryPoint_eq, h.resolve_eq]
  cases classpath with
  | none => cases entryPoint <;> rfl
  | some classpath => cases entryPoint <;> rfl

theorem step_word (h : Stands false r a) (hword : IsWord arg) : r.step arg = r.positional arg := by
  rw [Reading.step_word h.literal_eq hword]
  split
  · rename_i o hopen
    -- an option without a value would be refused
    have hresolve := h.resolve_eq
    rw [Reading.resolve, hopen] at hresolve
    cases hresolve
  · rfl

/-- An option whose value follows: the value is open when it is read. -/
theorem apart (h : Stands false r a) {o : Valued} {value : String}
    (hoption : c.option = .valued o) (hvalue : c.value? = some value) (hsay : c.IsSayable)
    (rest : List String) : r.complete (("--" ++ c.name) :: value :: rest) =
      complete ⟨.session, a, some ⟨o, some value⟩, false⟩ rest := by
  have hoption' : r.step ("--" ++ c.name) = .ok ⟨.session, a, some ⟨o, .none⟩, false⟩ := by
    rw [step_bare h.mode_eq h.literal_eq, hoption]
    show r.setValued o .none = _
    rw [Reading.setValued, h.resolve_eq]
    rfl
  rw [complete_of_step hoption']
  exact complete_of_step (Reading.step_word rfl (c.isWord_value hsay hvalue)) rest

/-- **One item** leads to a reading that stands for the arguments with it, or to a misuse. -/
theorem leads (h : Stands false r a) {i : Item} (hsay : i.IsSayable) :
    Leads r i.words (a.enter? i) := by
  cases i with
  | positional arg => exact leads_of_step ((h.step_word hsay).trans (h.positional arg))
  | option c form =>
    rcases c.cases with ⟨o, value, hoption, hvalue⟩ | ⟨f, hoption, hvalue⟩
    · simp only [Item.words, Choice.words, hvalue]
      cases form with
      | attached =>
        exact leads_of_step ((step_attached h.mode_eq h.literal_eq hoption value).trans
          (h.setValued hoption hvalue hsay))
      | apart =>
        have hread := h.apart hoption hvalue hsay
        have hset := set_value hoption hvalue hsay a
        have hresolve : resolve ⟨.session, a, some ⟨o, some value⟩, false⟩ =
          (a.set o value).map (settled false) := rfl
        rw [hset] at hresolve
        rw [enter?]
        cases hgiven : a.given c.option with
        | true =>
          rw [hgiven] at hresolve
          intro rest
          have hstuck : Stuck ⟨.session, a, some ⟨o, some value⟩, false⟩ :=
            ⟨⟨o, value, rfl⟩, _, hresolve⟩
          exact hread rest ▸ hstuck.complete rest
        | false =>
          rw [hgiven] at hresolve
          refine ⟨_, ⟨rfl, rfl, hresolve, ?_, ?_⟩, hread⟩
          · cases c <;> rfl
          · cases c <;> rfl
    · have hstep := step_bare h.mode_eq h.literal_eq c
      rw [hoption] at hstep
      simp only [Item.words, Choice.words, hvalue]
      exact leads_of_step (hstep.trans (h.setFlag hoption))

/-- **All items.** -/
theorem leads_all {items : List Item} (h : Stands false r a) (hsay : ∀ i ∈ items, i.IsSayable) :
    Leads r (items.flatMap Item.words) (items.foldlM enter? a) := by
  induction items generalizing r a with
  | nil => exact ⟨r, h, fun rest => rfl⟩
  | cons i items ih =>
    rw [List.forall_mem_cons] at hsay
    have hone := h.leads hsay.1
    rw [List.flatMap_cons, List.foldlM_cons]
    cases henter : a.enter? i with
    | none =>
      rw [henter] at hone
      intro rest
      rw [List.append_assoc]
      exact hone _
    | some a' =>
      rw [henter] at hone
      obtain ⟨r₁, hr₁, hread⟩ := hone
      have hall := ih hr₁ hsay.2
      show Leads r _ (items.foldlM enter? a')
      cases hrest : items.foldlM enter? a' with
      | none =>
        rw [hrest] at hall
        intro rest
        rw [List.append_assoc, hread]
        exact hall rest
      | some b =>
        rw [hrest] at hall
        obtain ⟨r₂, hr₂, hreads⟩ := hall
        exact ⟨r₂, hr₂, fun rest => by rw [List.append_assoc, hread, hreads]⟩

theorem literally (h : Stands true r a) (hseats : 0 < a.seats) (arg : String) (rest : List String) :
    r.complete (arg :: rest) = (settled true (a.seat arg)).complete rest := by
  refine complete_of_step ?_ rest
  rw [step, if_pos h.literal_eq, h.positional, enter?, if_pos hseats]
  rfl

theorem dashes (h : Stands false r a) (rest : List String) :
    ∃ r', Stands true r' a ∧ r.complete ("--" :: rest) = r'.complete rest := by
  refine ⟨{ r with literal := true }, ⟨h.mode_eq, rfl, ?_, h.classpath_eq, h.entryPoint_eq⟩,
    complete_of_step ?_ rest⟩
  · rw [resolve_literal, h.resolve_eq]
    rfl
  · unfold step
    rw [if_neg (by simp [h.literal_eq])]
    rfl

end Stands

end Reading

/-! ## Whole command lines -/

/-- The arguments that items are given by. -/
def line (items : List Item) : List String := items.flatMap Item.words

/-- The items are these options, in any order, and among them these positional arguments, in this
    order. -/
structure Gives (items : List Item) (cs : List Choice) (args : List String) : Prop where
  sayable : ∀ i ∈ items, i.IsSayable
  choices_perm : (items.filterMap Item.choice?).Perm cs
  positional_eq : items.filterMap Item.positional? = args

theorem parseSession_eq (args : List String) : parseSession args = (do
    let r ← (Reading.start .session).complete args
    if r.args.target.isSome then return r.args else .error (.misuse .missingRequired)) := by
  rw [parseSession, Reading.complete, bind_assoc]

theorem parse_eq_parseSession {args : List String}
    (h : ∀ word ∈ args.head?, word ≠ "status" ∧ word ≠ "help") :
    parse args = parseSession args := by
  unfold parse
  split
  · exact absurd rfl (h _ rfl).1
  · exact absurd rfl (h _ rfl).2
  · rfl

theorem Choice.head_words (c : Choice) (form : Form) :
    ∃ s more, c.words form = ("--" ++ s) :: more := by
  unfold words
  split
  · exact ⟨_, _, rfl⟩
  · rename_i value _
    exact ⟨c.name ++ ("=" ++ value), [], by simp only [String.append_assoc]⟩
  · exact ⟨_, _, rfl⟩

/-- Nothing that starts with options is taken for one of the words that stand alone. -/
theorem parse_line_append {rest : List String}
    (hargs : ∀ word ∈ (items.filterMap Item.positional?).head?, word ≠ "status" ∧ word ≠ "help")
    (hrest : ∀ word ∈ rest.head?, word ≠ "status" ∧ word ≠ "help") :
    parse (line items ++ rest) = parseSession (line items ++ rest) := by
  refine parse_eq_parseSession ?_
  cases items with
  | nil => exact hrest
  | cons i items =>
    cases i with
    | positional arg => exact hargs
    | option c form =>
      obtain ⟨s, more, hwords⟩ := c.head_words form
      rw [line, List.flatMap_cons, Item.words, hwords]
      rintro word ⟨⟩
      have hhead : ("--" ++ s).toList.head? = some '-' := by
        rw [String.toList_append]
        rfl
      constructor
      · intro heq
        rw [heq] at hhead
        exact absurd hhead (by decide)
      · intro heq
        rw [heq] at hhead
        exact absurd hhead (by decide)

theorem parseSession_of_complete {args : List String} {literal : Bool}
    (htarget : a.target.isSome = true)
    (h : (Reading.start .session).complete args = .ok (Reading.settled literal a)) :
    parseSession args = .ok a := by
  rw [parseSession_eq, h]
  exact if_pos htarget

theorem given_none (o : Named) : Arguments.none.given o = false := by
  rcases o with o | f
  · cases o <;> rfl
  · cases f <;> rfl

namespace Gives

variable {want : Arguments} {args : List String}

/-- Choices commute with each other and with positional arguments. -/
theorem foldlM_enter? (h : Gives items want.choices args) (hargs : args.length ≤ 2) :
    items.foldlM enter? Arguments.none = some (args.foldl seat
      { want with classpath := .none, entryPoint := .none, statusHistory := .none }) := by
  have hnodup := (h.choices_perm.map Choice.option).nodup_iff.mpr (nodup_choices want)
  rw [Arguments.foldlM_enter?, h.positional_eq,
    foldl_choose_perm h.choices_perm hnodup, foldl_choices]
  exact ⟨fun c _ => given_none c.option, hnodup, hargs, rfl⟩

/-- The class path comes before anything that could be taken for another request. -/
theorem parse_mixed {cs : List Choice} {classpath entryPoint : String}
    (h : Gives items cs [classpath, entryPoint]) (hfirst : classpath ∉ ["status", "help"]) :
    parse (line items) = parseSession (line items) := by
  have hparse := @parse_line_append items [] (by simpa [h.positional_eq] using hfirst) (by simp)
  rwa [List.append_nil] at hparse

theorem parse_dashes {cs : List Choice} (h : Gives items cs []) (rest : List String) :
    parse (line items ++ "--" :: rest) = parseSession (line items ++ "--" :: rest) :=
  parse_line_append (by simp [h.positional_eq]) (by simp)

/-- Given again, an option makes a misuse of all that starts like this. -/
theorem isMisuse (h : Gives items (c :: want.choices) args)
    (hagain : c.option ∈ want.choices.map Choice.option) (rest : List String) :
    IsMisuse (parseSession (line items ++ rest)) := by
  have hleads := (Reading.stands_settled false Arguments.none).leads_all h.sayable
  have hnone : items.foldlM enter? Arguments.none = .none := by
    refine Option.eq_none_iff_forall_ne_some.mpr fun b hb => ?_
    have hnodup := ((Arguments.foldlM_enter? items Arguments.none b).mp hb).2.1
    have hcons := (h.choices_perm.map Choice.option).nodup_iff.mp hnodup
    rw [List.map_cons, List.nodup_cons] at hcons
    exact hcons.1 hagain
  rw [hnone] at hleads
  rw [parseSession_eq]
  exact (hleads rest).bind _

end Gives

/-- The configuration with what one option says in place of its own value. -/
def Choice.override (config : Config) : Choice → Config
  | iterations n => { config with session := { config.session with maxIterations := n } }
  | workDir value => { config with session := { config.session with workDir := value } }
  | timeout n => { config with executor := { config.executor with timeoutSeconds := n } }
  | _ => config

theorem effective_eq (a : Arguments) (config : Config) :
    Program.effective a config = a.choices.foldl Choice.override config := by
  obtain ⟨classpath, entryPoint, iterations, workDir, timeout, path, quiet, dryRun, history⟩ := a
  simp only [choices, List.foldl_append]
  cases iterations <;> cases workDir <;> cases timeout <;> cases path <;> cases quiet <;>
    cases dryRun <;> rfl

/-- **Options may stand in any order.**  Wanted are some options and two positional arguments.
    However the options are ordered, spelt and mixed with the positional arguments, or put before
    `--` and these, exactly this is read, and a configuration changes in what the options say.  An
    option that is given again is a misuse. -/
theorem options_in_any_order {want : Arguments} {classpath entryPoint : String}
    (hclasspath : want.classpath = some classpath) (hentryPoint : want.entryPoint = some entryPoint)
    (hhistory : want.statusHistory = .none) :
    (classpath ∉ ["status", "help"] →
      (∀ items, Gives items want.choices [classpath, entryPoint] → parse (line items) = .ok want) ∧
      ∀ c items, c.option ∈ want.choices.map Choice.option →
        Gives items (c :: want.choices) [classpath, entryPoint] → IsMisuse (parse (line items))) ∧
    (∀ items, Gives items want.choices [] →
      parse (line items ++ ["--", classpath, entryPoint]) = .ok want) ∧
    (∀ c items rest, c.option ∈ want.choices.map Choice.option →
      Gives items (c :: want.choices) [] → IsMisuse (parse (line items ++ "--" :: rest))) ∧
    ∀ config, Program.effective want config = want.choices.foldl Choice.override config := by
  have htarget : want.target.isSome = true := by
    rw [target, hclasspath, hentryPoint]
    rfl
  have hstart := Reading.stands_settled false Arguments.none
  have hwant : [classpath, entryPoint].foldl seat
      { want with classpath := .none, entryPoint := .none, statusHistory := .none } = want := by
    obtain ⟨_, _, _, _, _, _, _, _, _⟩ := want
    cases hclasspath
    cases hentryPoint
    cases hhistory
    rfl
  refine ⟨fun hfirst => ⟨fun items hgives => ?_, fun c items hagain hgives => ?_⟩,
    fun items hgives => ?_, fun c items rest hagain hgives => ?_, effective_eq want⟩
  · have hleads := hstart.leads_all hgives.sayable
    rw [hgives.foldlM_enter? (Nat.le_refl 2), hwant] at hleads
    obtain ⟨r, hr, hall⟩ := hleads
    have hcomplete := (hall []).trans hr.resolve_eq
    rw [List.append_nil] at hcomplete
    rw [hgives.parse_mixed hfirst]
    exact parseSession_of_complete htarget hcomplete
  · have hmisuse := hgives.isMisuse hagain []
    rw [List.append_nil] at hmisuse
    rw [hgives.parse_mixed hfirst]
    exact hmisuse
  · have hleads := hstart.leads_all hgives.sayable
    rw [hgives.foldlM_enter? (Nat.zero_le 2)] at hleads
    obtain ⟨r, hr, hall⟩ := hleads
    obtain ⟨r', hr', hdashes⟩ := hr.dashes [classpath, entryPoint]
    -- both seats are free behind the dashes
    have hcomplete := (hall ["--", classpath, entryPoint]).trans hdashes
    rw [hr'.literally (Nat.succ_pos 1),
      (Reading.stands_settled true _).literally (by exact Nat.succ_pos 0)] at hcomplete
    rw [hgives.parse_dashes]
    refine @parseSession_of_complete _ _ true htarget (hcomplete.trans ?_)
    exact congrArg (fun a => Except.ok (Reading.settled true a)) hwant
  · rw [hgives.parse_dashes]
    exact hgives.isMisuse hagain _

/-- A request with some options. -/
def quietRun (classpath entryPoint : String) : Arguments :=
  { Arguments.none with
    classpath := some classpath, entryPoint := some entryPoint, workDir := some "w",
    timeout := some 7, quiet := true }

/-- Options on both sides of the class path, with their values apart and attached; the class path
    `status` and an entry point with a dash behind `--`; a flag given again. -/
theorem options_around_positionals :
    parse ["--timeout", "7", "a.jar", "--work-dir=w", "Main", "--quiet"] =
      .ok (quietRun "a.jar" "Main") ∧
    parse ["--timeout", "7", "--work-dir=w", "--quiet", "--", "status", "-x"] =
      .ok (quietRun "status" "-x") ∧
    IsMisuse (parse ["--quiet", "--timeout", "7", "a.jar", "--work-dir=w", "Main", "--quiet"]) := by
  let mixed : List Item :=
    [.option (.timeout 7) .apart, .positional "a.jar", .option (.workDir "w") .attached,
      .positional "Main", .option .quiet .attached]
  let options : List Item :=
    [.option (.timeout 7) .apart, .option (.workDir "w") .attached, .option .quiet .attached]
  have hmixed : Gives mixed [.workDir "w", .timeout 7, .quiet] ["a.jar", "Main"] :=
    ⟨by simp [mixed, Item.IsSayable, Choice.IsSayable, IsWord], .swap _ _ _, rfl⟩
  have hoptions : Gives options [.workDir "w", .timeout 7, .quiet] [] :=
    ⟨by simp [options, Item.IsSayable, Choice.IsSayable, IsWord], .swap _ _ _, rfl⟩
  have hagain : Gives (.option .quiet .attached :: mixed) [.quiet, .workDir "w", .timeout 7, .quiet]
      ["a.jar", "Main"] :=
    ⟨by simp [mixed, Item.IsSayable, Choice.IsSayable, IsWord], .cons _ (.swap _ _ _), rfl⟩
  have hjar := @options_in_any_order (quietRun "a.jar" "Main") "a.jar" "Main" rfl rfl rfl
  have hstatus := @options_in_any_order (quietRun "status" "-x") "status" "-x" rfl rfl rfl
  exact ⟨(hjar.1 (by decide)).1 mixed hmixed, hstatus.2.1 options hoptions,
    (hjar.1 (by decide)).2 .quiet _ (by decide) hagain⟩

end Concolic.Arguments
