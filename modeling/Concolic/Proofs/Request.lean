import Concolic.Program

/-
  What a command line can ask for.

  What has been read belongs to the mode: nothing but the length of the history where the status
  page is asked for, and never that length in a session (`Reading.Keeps`).  Each way to take an
  argument keeps it; one lemma for each function, put together by `Ensures.bind`.
-/

namespace Concolic

namespace Arguments

/-! ## Results that are not refused -/

/-- `P` holds of the result, if there is one. -/
def Ensures {α : Type} (x : Except Refusal α) (P : α → Prop) : Prop := ∀ a, x = .ok a → P a

section Ensures

variable {α β : Type} {x : Except Refusal α} {P : α → Prop} {Q : β → Prop}

theorem ensures_ok {a : α} (h : P a) : Ensures (.ok a) P := by
  rintro _ ⟨⟩
  exact h

theorem ensures_error (f : Refusal) (P : α → Prop) : Ensures (.error f) P := by
  rintro _ ⟨⟩

theorem Ensures.bind (h : Ensures x P) {f : α → Except Refusal β}
    (hf : ∀ a, P a → Ensures (f a) Q) : Ensures (x >>= f) Q := by
  cases x with
  | error e => exact ensures_error e Q
  | ok a => exact hf a (h a rfl)

theorem Ensures.map (h : Ensures x P) {f : α → β} (hf : ∀ a, P a → Q (f a)) :
    Ensures (x.map f) Q := by
  cases x with
  | error e => exact ensures_error e Q
  | ok a => exact ensures_ok (hf a (h a rfl))

theorem ensures_true (x : Except Refusal α) : Ensures x fun _ => True := fun _ _ => trivial

end Ensures

/-! ## What belongs to a mode -/

/-- The option belongs to the mode. -/
def Valued.Belongs (o : Valued) : Mode → Prop
  | .session => o ≠ .history
  | .status => o = .history

/-- The arguments are such as the mode has: nothing but the length of the history on the status
    page, and no such length in a session. -/
def Suits (a : Arguments) : Mode → Prop
  | .session => a.statusHistory = .none
  | .status => { a with statusHistory := .none } = Arguments.none

variable {mode : Mode} {a : Arguments} {o : Valued}

theorem belongs_of_longOption {name : String} (h : longOption mode name = some (.valued o)) :
    o.Belongs mode := by
  cases mode with
  | session =>
    rw [longOption] at h
    repeat' split at h
    all_goals cases h
    all_goals exact Valued.noConfusion
  | status =>
    rw [longOption] at h
    repeat' split at h
    all_goals cases h
    rfl

theorem eq_help_of_longOption {name : String} {f : Flag}
    (h : longOption .status name = some (.flag f)) : f = .help := by
  rw [longOption] at h
  repeat' split at h
  all_goals cases h
  rfl

theorem belongs_of_shortOption {c : Char} (h : shortOption mode c = some (.valued o)) :
    o.Belongs mode := by
  cases mode with
  | session =>
    rw [shortOption] at h
    repeat' split at h
    all_goals cases h
    exact Valued.noConfusion
  | status =>
    rw [shortOption] at h
    split at h <;> cases h

theorem eq_help_of_shortOption {c : Char} {f : Flag} (h : shortOption .status c = some (.flag f)) :
    f = .help := by
  rw [shortOption] at h
  split at h <;> cases h
  rfl

theorem suits_set (ha : a.Suits mode) (ho : o.Belongs mode) (value : String) :
    Ensures (a.set o value) (·.Suits mode) := by
  unfold set
  split
  · exact ensures_error _ _
  cases mode with
  | session =>
    cases o with
    | iterations => exact (ensures_true _).map fun _ _ => ha
    | workDir =>
      dsimp only
      split
      · exact ensures_error _ _
      · exact ensures_ok ha
    | timeout => exact (ensures_true _).map fun _ _ => ha
    | config => exact ensures_ok ha
    | history => exact absurd rfl ho
  | status =>
    cases ho
    exact (ensures_true _).map fun _ _ => ha

/-! ## Reading keeps to its mode -/

/-- What has been read, and what is still open, belongs to the mode. -/
structure Reading.Keeps (r : Reading) (mode : Mode) : Prop where
  mode_eq : r.mode = mode
  args : r.args.Suits mode
  pending : ∀ o value, r.pending = some ⟨o, value⟩ → o.Belongs mode

namespace Reading

variable {r : Reading}

theorem keeps_start (mode : Mode) : (start mode).Keeps mode := by
  refine ⟨rfl, ?_, fun o value h => ?_⟩
  · cases mode <;> rfl
  · cases h

section Keeps

variable (h : r.Keeps mode)
include h

theorem Keeps.resolve : Ensures r.resolve (·.Keeps mode) := by
  rw [Reading.resolve]
  split
  · exact ensures_ok h
  · exact ensures_error _ _
  · rename_i o value hpending
    refine (suits_set h.args (h.pending _ _ hpending) value).map fun args hargs => ?_
    exact ⟨h.mode_eq, hargs, fun _ _ hnone => by cases hnone⟩

theorem Keeps.setFlag {f : Flag} (hf : mode = .status → f = .help) :
    Ensures (r.setFlag f) (·.Keeps mode) := by
  rw [Reading.setFlag]
  refine h.resolve.bind fun r' hr => ?_
  cases mode with
  | status =>
    obtain rfl := hf rfl
    exact ensures_error _ _
  | session =>
    cases f with
    | help => exact ensures_error _ _
    | version => exact ensures_error _ _
    | quiet =>
      dsimp only
      split
      · exact ensures_error _ _
      · exact ensures_ok ⟨hr.mode_eq, hr.args, hr.pending⟩
    | dryRun =>
      dsimp only
      split
      · exact ensures_error _ _
      · exact ensures_ok ⟨hr.mode_eq, hr.args, hr.pending⟩

theorem Keeps.setValued (ho : o.Belongs mode) (value : Option String) :
    Ensures (r.setValued o value) (·.Keeps mode) := by
  rw [Reading.setValued]
  refine h.resolve.bind fun r' hr => ?_
  cases value with
  | some v => exact (suits_set hr.args ho v).map fun args hargs => ⟨hr.mode_eq, hargs, hr.pending⟩
  | none =>
    refine ensures_ok ⟨hr.mode_eq, hr.args, fun o' value' hopen => ?_⟩
    cases hopen
    exact ho

theorem Keeps.long (body : List Char) : Ensures (r.long body) (·.Keeps mode) := by
  unfold Reading.long
  rw [h.mode_eq]
  dsimp only
  split
  · exact ensures_error _ _
  · rename_i f hname
    split
    · exact ensures_error _ _
    · refine h.setFlag fun hstatus => ?_
      subst hstatus
      exact eq_help_of_longOption hname
  · rename_i o hname
    exact h.setValued (belongs_of_longOption hname) _

theorem Keeps.short (cs : List Char) : Ensures (r.short cs) (·.Keeps mode) := by
  induction cs generalizing r with
  | nil => exact ensures_ok h
  | cons c rest ih =>
    unfold Reading.short
    rw [h.mode_eq]
    split
    · exact ensures_error _ _
    · rename_i f hname
      refine (h.setFlag fun hstatus => ?_).bind fun r' hr => ih hr
      subst hstatus
      exact eq_help_of_shortOption hname
    · rename_i o hname
      exact h.setValued (belongs_of_shortOption hname) _

theorem Keeps.positional (arg : String) : Ensures (r.positional arg) (·.Keeps mode) := by
  rw [Reading.positional]
  split
  · exact ensures_error _ _
  · rename_i hmode _
    obtain rfl : mode = .session := h.mode_eq.symm.trans hmode
    exact h.resolve.bind fun r' hr => ensures_ok ⟨hr.mode_eq, hr.args, hr.pending⟩
  · rename_i hmode _ _
    obtain rfl : mode = .session := h.mode_eq.symm.trans hmode
    exact h.resolve.bind fun r' hr => ensures_ok ⟨hr.mode_eq, hr.args, hr.pending⟩
  · exact ensures_error _ _

/-- **The step**: every argument is taken in keeping with the mode. -/
theorem Keeps.step (arg : String) : Ensures (r.step arg) (·.Keeps mode) := by
  rw [Reading.step]
  split
  · exact h.positional arg
  split
  · exact ensures_ok ⟨h.mode_eq, h.args, h.pending⟩
  · exact h.long _
  · exact h.short _
  · split
    · rename_i o hpending
      refine ensures_ok ⟨h.mode_eq, h.args, fun o' value hopen => ?_⟩
      cases hopen
      exact h.pending _ _ hpending
    · exact h.positional arg

/-- **The run.** -/
theorem Keeps.steps (args : List String) : Ensures (r.steps args) (·.Keeps mode) := by
  induction args generalizing r with
  | nil => exact ensures_ok h
  | cons arg rest ih => exact (h.step arg).bind fun r' hr => ih hr

end Keeps

end Reading

/-! ## The two kinds of request -/

/-- A session is asked for, with its class path and entry point. -/
def IsRun (a : Arguments) : Prop := a.statusHistory = .none ∧ a.target.isSome = true

/-- The status page is asked for, and nothing else. -/
def IsStatus (a : Arguments) : Prop := ∃ n, a = { Arguments.none with statusHistory := some n }

theorem isStatus_of_parseStatus (rest : List String) : Ensures (parseStatus rest) IsStatus := by
  rw [parseStatus]
  refine ((Reading.keeps_start .status).steps rest).bind fun r hr => ?_
  refine hr.resolve.bind fun r' hr' => ensures_ok ⟨r'.args.statusHistory.getD defaultHistory, ?_⟩
  have hargs : { r'.args with statusHistory := .none } = Arguments.none := hr'.args
  rw [← hargs]

theorem isRun_of_parseSession (args : List String) : Ensures (parseSession args) IsRun := by
  rw [parseSession]
  refine ((Reading.keeps_start .session).steps args).bind fun r hr => ?_
  refine hr.resolve.bind fun r' hr' => ?_
  split
  · rename_i htarget
    exact ensures_ok ⟨hr'.args, htarget⟩
  · exact ensures_error _ _

theorem parse_cases (args : List String) : Ensures (parse args) fun a => IsStatus a ∨ IsRun a := by
  unfold parse
  split
  · exact fun a h => .inl (isStatus_of_parseStatus _ a h)
  · exact ensures_error _ _
  · exact fun a h => .inr (isRun_of_parseSession _ a h)

end Arguments

/-! ## What the program does with them -/

/-- A configuration file that cannot be loaded is never a matter of a plain message. -/
theorem Config.loadFrom_ne_plain (cwd : Loc) (t : Tree) (path text : String) :
    Config.loadFrom cwd t path ≠ .error (.plain text) := by
  rw [Config.loadFrom]
  split
  · rw [Config.ofText]
    split
    · simp
    · split <;> simp
  · simp

namespace Program

open Arguments (IsRun IsStatus)

variable {a : Arguments} (env : Environment) (t : Tree)

theorem loadConfig_ne_plain (text : String) : loadConfig env a t ≠ .error (.plain text) := by
  rw [loadConfig]
  split
  · exact Config.loadFrom_ne_plain _ _ _ _
  · rw [Config.loadIfPresent]
    split
    · exact Config.loadFrom_ne_plain _ _ _ _
    · simp

theorem ended_ne_plain {σ : Type} (quiet : Bool) (e : Run.Ended σ) (text : String) :
    (ended quiet e).result ≠ .error (.plain text) := by
  rw [ended]
  dsimp only
  split <;> simp

theorem runSession_ne_usage (config : Config) (h : a.target.isSome = true) :
    (runSession env a config t).result ≠
      .error (.plain "usage: catg <classpath> <entry_point>") := by
  unfold runSession
  split
  · rename_i hnone
    rw [hnone] at h
    cases h
  · dsimp only
    split
    · -- the other plain message is about the budget
      simp
    · split
      · simp
      · split
        · exact ended_ne_plain _ _ _
        · exact ended_ne_plain _ _ _

theorem perform_ne_usage (h : IsStatus a ∨ IsRun a) :
    (perform env a t).result ≠ .error (.plain "usage: catg <classpath> <entry_point>") := by
  unfold perform
  split
  · rename_i problem hload
    intro husage
    obtain rfl := Except.error.inj husage
    exact loadConfig_ne_plain env t _ hload
  · rename_i config hload
    split
    · simp
    · rename_i hhistory
      have hrun : IsRun a := by
        rcases h with ⟨n, rfl⟩ | hrun
        · cases hhistory
        · exact hrun
      exact runSession_ne_usage env t config hrun.2

/-- **Every command line that is accepted** asks for the status page alone, by the configuration in
    its usual place, or for a session with class path and entry point; so the program never has to
    say how it is used. -/
theorem accepted_is_status_or_run (args : List String) (h : Arguments.parse args = .ok a) :
    ((a.statusHistory.isSome = true ∧ a.target = none ∧ a.iterations = none ∧ a.workDir = none ∧
        a.timeout = none ∧ a.config = none ∧ a.quiet = false ∧ a.dryRun = false ∧
        ∀ env t, loadConfig env a t = Config.loadIfPresent env.host.cwd t env.home.configFile) ∨
      (a.statusHistory = none ∧ a.target.isSome = true)) ∧
    ∀ env t, (perform env a t).result ≠ .error
      (.plain "usage: catg <classpath> <entry_point>") := by
  have hcases := Arguments.parse_cases args a h
  constructor
  · rcases hcases with ⟨n, rfl⟩ | hrun
    · left
      exact ⟨rfl, rfl, rfl, rfl, rfl, rfl, rfl, rfl, fun _ _ => rfl⟩
    · right
      exact hrun
  · intro env t
    exact perform_ne_usage env t hcases

theorem status_after_option : ∃ a, Arguments.parse ["--quiet", "status", "--config=c",
    "Main"] = .ok a ∧ a.statusHistory = none ∧ a.target = some ("status", "Main") ∧
    ∀ env t, (perform env a t).result ≠ .error
      (.plain "usage: catg <classpath> <entry_point>") := by
  have hparse : Arguments.parse ["--quiet", "status", "--config=c", "Main"] =
      .ok { Arguments.none with
        classpath := some "status", entryPoint := some "Main", config := some "c",
        quiet := true } :=
    rfl
  exact ⟨_, hparse, rfl, rfl, (accepted_is_status_or_run _ hparse).2⟩

end Program

end Concolic
