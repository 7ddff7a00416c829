import Concolic.Proofs.Holding
import Mathlib.Data.List.TakeWhile

/-
  Who owns a lock, and what asking for it changes.

  The name is made free before it is taken, and what had it may be a link that the path of the lock
  goes through itself, as in `x.lock/x.lock` where `x.lock` leads to its own directory.  Then the
  name cannot be taken any more, and the link is lost.
-/

namespace Concolic

namespace Text

variable {cs : List Char} {n limit : Nat}

/-! ## Numbers in a text -/

/-- The text is the number in decimal digits, perhaps with a plus sign before it, and blanks. -/
inductive Spells : List Char → Nat → Prop where
  | mk {before sign digits after : List Char} (hbefore : ∀ c ∈ before, isBlank c = true)
      (hsign : sign = [] ∨ sign = ['+']) (hne : digits ≠ [])
      (hdigits : ∀ c ∈ digits, c.isDigit = true) (hafter : ∀ c ∈ after, isBlank c = true) :
      Spells (before ++ (sign ++ digits) ++ after) (Nat.ofDigitChars 10 digits 0)

theorem pushDigit_hexValue? (m : Nat) (c : Char) :
    pushDigit 10 (some m) (hexValue? c) =
      if c.isDigit = true then some (10 * m + (c.toNat - '0'.toNat)) else none := by
  have hdigit : c.isDigit = true ↔ '0' ≤ c ∧ c ≤ '9' := by
    rw [Char.isDigit, Bool.and_eq_true, decide_eq_true_eq, decide_eq_true_eq]
    exact Iff.rfl
  have hnat : ∀ {a b : Char}, a ≤ b → a.toNat ≤ b.toNat := fun hle => UInt32.le_iff_toNat_le.mp hle
  rw [hexValue?]
  by_cases h : '0' ≤ c ∧ c ≤ '9'
  · have hle : c.toNat ≤ 57 := hnat h.2
    have hlt : c.toNat - 48 < 10 := by omega
    rw [if_pos h, if_pos (hdigit.mpr h)]
    exact if_pos hlt
  · rw [if_neg h, if_neg fun hc => h (hdigit.mp hc)]
    split
    · rename_i hlow
      have hge : 97 ≤ c.toNat := hnat hlow.1
      exact if_neg (by omega)
    · split
      · rename_i hhigh
        have hge : 65 ≤ c.toNat := hnat hhigh.1
        exact if_neg (by omega)
      · rfl

theorem foldl_pushDigit_none (cs : List Char) :
    cs.foldl (fun acc c => pushDigit 10 acc (hexValue? c)) none = none := by
  induction cs with
  | nil => rfl
  | cons _ _ ih => exact ih

theorem foldl_pushDigit (cs : List Char) (m n : Nat) :
    cs.foldl (fun acc c => pushDigit 10 acc (hexValue? c)) (some m) = some n ↔
      (∀ c ∈ cs, c.isDigit = true) ∧ Nat.ofDigitChars 10 cs m = n := by
  induction cs generalizing m with
  | nil => simp [Nat.ofDigitChars]
  | cons c cs ih =>
    rw [List.foldl_cons, pushDigit_hexValue?, Nat.ofDigitChars_cons]
    by_cases hc : c.isDigit = true
    · rw [if_pos hc, ih]
      simp [hc]
    · rw [if_neg hc, foldl_pushDigit_none]
      simp [hc]

theorem ofDigits?_eq_some :
    ofDigits? 10 cs = some n ↔
      cs ≠ [] ∧ (∀ c ∈ cs, c.isDigit = true) ∧ Nat.ofDigitChars 10 cs 0 = n := by
  rw [ofDigits?]
  by_cases hnil : cs = []
  · simp [hnil]
  · rw [if_neg hnil, foldl_pushDigit]
    simp [hnil]

theorem unsigned?_plus (limit : Nat) (rest : List Char) :
    unsigned? limit ('+' :: rest) = (ofDigits? 10 rest).filter (· < limit) := by
  rw [unsigned?]
  cases ofDigits? 10 rest <;> simp [Option.filter]

theorem unsigned?_bare (limit : Nat) (h : ∀ rest, cs ≠ '+' :: rest) :
    unsigned? limit cs = (ofDigits? 10 cs).filter (· < limit) := by
  rw [unsigned?]
  · cases ofDigits? 10 cs <;> simp [Option.filter]
  · exact h

theorem unsigned?_eq_some :
    unsigned? limit cs = some n ↔ n < limit ∧ ∃ sign digits, cs = sign ++ digits ∧
      (sign = [] ∨ sign = ['+']) ∧ ofDigits? 10 digits = some n := by
  by_cases hplus : ∃ rest, cs = '+' :: rest
  · obtain ⟨rest, rfl⟩ := hplus
    have hnot : ofDigits? 10 ('+' :: rest) ≠ some n := fun hread =>
      absurd ((ofDigits?_eq_some.mp hread).2.1 '+' (by simp)) (by decide)
    rw [unsigned?_plus, Option.filter_eq_some_iff, and_comm, decide_eq_true_eq]
    refine and_congr_right fun _ => ⟨fun hread => ⟨['+'], rest, rfl, .inr rfl, hread⟩, ?_⟩
    rintro ⟨sign, digits, heq, rfl | rfl, hread⟩
    · rw [List.nil_append] at heq
      exact absurd (heq ▸ hread) hnot
    · cases heq
      exact hread
  · have hbare : ∀ rest, cs ≠ '+' :: rest := fun rest heq => hplus ⟨rest, heq⟩
    rw [unsigned?_bare limit hbare, Option.filter_eq_some_iff, and_comm, decide_eq_true_eq]
    refine and_congr_right fun _ => ⟨fun hread => ⟨[], cs, rfl, .inl rfl, hread⟩, ?_⟩
    rintro ⟨sign, digits, rfl, rfl | rfl, hread⟩
    · exact hread
    · exact absurd rfl (hbare digits)

theorem eq_trim (cs : List Char) :
    ∃ before after, (∀ c ∈ before, isBlank c = true) ∧ (∀ c ∈ after, isBlank c = true) ∧
      cs = before ++ trim cs ++ after := by
  refine ⟨cs.takeWhile isBlank, ((cs.dropWhile isBlank).reverse.takeWhile isBlank).reverse,
    fun c hc => List.mem_takeWhile_imp hc, fun c hc =>
      List.mem_takeWhile_imp (List.mem_reverse.mp hc), ?_⟩
  rw [trim, List.append_assoc, ← List.reverse_append, List.takeWhile_append_dropWhile,
    List.reverse_reverse, List.takeWhile_append_dropWhile]

theorem trim_append {before word after : List Char} (hbefore : ∀ c ∈ before, isBlank c = true)
    (hword : ∀ c ∈ word, isBlank c = false) (hne : word ≠ [])
    (hafter : ∀ c ∈ after, isBlank c = true) : trim (before ++ word ++ after) = word := by
  obtain ⟨first, rest, rfl⟩ := List.exists_cons_of_ne_nil hne
  have hfirst : isBlank first = false := hword first (by simp)
  have hleft : (before ++ (first :: rest) ++ after).dropWhile isBlank =
      (first :: rest) ++ after := by
    rw [List.append_assoc, List.dropWhile_append_of_pos hbefore, List.cons_append,
      List.dropWhile_cons_of_neg (by simp [hfirst])]
  have hright : (after.reverse ++ (first :: rest).reverse).dropWhile isBlank =
      (first :: rest).reverse := by
    rw [List.dropWhile_append_of_pos (by simpa using hafter)]
    obtain ⟨last, init, hlast⟩ := List.exists_cons_of_ne_nil
      (show (first :: rest).reverse ≠ [] by simp)
    have hblank : isBlank last = false := hword last (by
      rw [← List.mem_reverse, hlast]
      simp)
    rw [hlast, List.dropWhile_cons_of_neg (by simp [hblank])]
  rw [trim, hleft, List.reverse_append, hright, List.reverse_reverse]

/-- **The number that a text is read as** is the one that it spells. -/
theorem unsigned?_trim : unsigned? limit (trim cs) = some n ↔ n < limit ∧ Spells cs n := by
  rw [unsigned?_eq_some]
  refine and_congr_right fun _ => ⟨?_, ?_⟩
  · rintro ⟨sign, digits, htrim, hsign, hread⟩
    obtain ⟨hne, hdigits, rfl⟩ := ofDigits?_eq_some.mp hread
    obtain ⟨before, after, hbefore, hafter, hcs⟩ := eq_trim cs
    rw [hcs, htrim]
    exact .mk hbefore hsign hne hdigits hafter
  · rintro (@⟨before, sign, digits, after, hbefore, hsign, hne, hdigits, hafter⟩)
    refine ⟨sign, digits, trim_append hbefore (fun c hc => ?_) (by simp [hne]) hafter, hsign,
      ofDigits?_eq_some.mpr ⟨hne, hdigits, rfl⟩⟩
    rcases List.mem_append.mp hc with hc | hc
    · rcases hsign with rfl | rfl
      · cases hc
      · rw [List.mem_singleton.mp hc]
        decide
    · exact isBlank_of_isDigit (hdigits c hc)

end Text

namespace Path

/-- `q` is a directory above `p`, as a text. -/
inductive Above (p : String) : String → Prop where
  | parent {q : String} : parent? p = some q → Above p q
  | up {q r : String} : Above p q → parent? q = some r → Above p r

end Path

namespace Tree

variable {t t' : Tree} {cwd d e : Loc} {p q name : String} {f : Fault}

/-! ## Names that are taken -/

theorem kind_of_scan {follow slash : Bool} {jump : Loc → List String → Bool → Except Fault Arrival}
    (hjump : ∀ d ss b f, jump d ss b = .error f → f.kind ≠ .alreadyExists) (ss : List String)
    (d : Loc) (h : t.scan follow jump slash d ss = .error f) : f.kind ≠ .alreadyExists := by
  induction ss generalizing d with
  | nil => cases h
  | cons step rest ih =>
    rw [scan] at h
    split at h
    · cases h
      rw [folderFault]
      split <;> decide
    · split at h
      · exact ih d h
      · split at h
        · exact ih d.tail h
        · split at h
          · cases h
            decide
          · split at h
            · split at h
              · cases h
              · cases h
                decide
            · split at h
              · cases h
              · exact hjump _ _ _ _ h
            · split at h
              · cases h
              · split at h
                · exact ih _ h
                · cases h
                  decide

theorem kind_of_walk {creating : Bool} (links : Nat) :
    ∀ {follow slash : Bool} {d : Loc} {ss : List String} {f : Fault},
      t.walk creating links follow d ss slash = .error f → f.kind ≠ .alreadyExists := by
  induction links with
  | zero =>
    intro follow slash d ss f h
    refine kind_of_scan (fun d ss b f hjump => ?_) ss d h
    cases hjump
    decide
  | succ links ih =>
    intro follow slash d ss f h
    exact kind_of_scan (fun d ss b f hjump => ih hjump) ss d h

theorem kind_of_resolve {follow : Bool} (h : t.resolve cwd follow p = .error f) :
    f.kind ≠ .alreadyExists := by
  cases htext : checkText p with
  | ok => exact kind_of_walk _ (resolve_of_text htext t cwd follow ▸ h)
  | error f' =>
    rw [resolve, htext] at h
    cases h
    rw [checkText] at htext
    split at htext
    · cases htext
      decide
    · split at htext
      · cases htext
        decide
      · split at htext
        · cases htext
          decide
        · cases htext

theorem walk_ne_here {links : Nat} {init : List String} {last : String} {slash : Bool}
    (hdot : last ≠ ".") (hup : last ≠ "..") :
    t.walk false links false d (init ++ [last]) slash ≠ .ok ⟨.here e, slash⟩ := by
  intro h
  obtain ⟨d₀, n, hn, hlead⟩ := leads_of_walk_append (by simp) links false d init slash h
  rw [walk_append rfl hlead false (by simp) links hn, walk_eq_scan, scan, if_neg hdot,
    if_neg hup] at h
  split at h
  · cases h
  · split at h
    · cases h
    · split at h
      · rw [if_pos rfl] at h
        cases h
      · rw [if_pos ⟨rfl, rfl⟩] at h
        cases h
      · rw [if_pos rfl] at h
        cases h

theorem taken_of_newLoc {init : List String} {last : String}
    (hsteps : (Path.route p).steps = init ++ [last]) (hdot : last ≠ ".") (hup : last ≠ "..")
    (h : t.newLoc cwd p false = .error f) (hkind : f.kind = .alreadyExists) :
    ∃ d name node, Names t cwd p d name ∧ t.node? (name :: d) = some node := by
  rw [newLoc] at h
  cases hres : t.resolve cwd false p with
  | error f' =>
    rw [hres] at h
    cases h
    exact absurd hkind (kind_of_resolve hres)
  | ok a =>
    obtain ⟨spot, slash⟩ := a
    simp only [hres, bind, Except.bind] at h
    cases spot with
    | here e =>
      rw [resolve_of_text (text_of_resolve hres), hsteps] at hres
      obtain ⟨hslash, -⟩ := endsAt_of_walk _ _ _ _ hres
      exact absurd (hslash ▸ hres) (walk_ne_here hdot hup)
    | entry d name =>
      simp only at h
      split at h
      · rename_i hsome
        obtain ⟨node, hnode⟩ := Option.isSome_iff_exists.mp hsome
        exact ⟨d, name, node, (names_of_resolve hres).1, hnode⟩
      · split at h
        · cases h
          cases hkind
        · rw [sealFault] at h
          split at h
          · rename_i hfault
            split at hfault
            · cases hfault
              cases h
              cases hkind
            · cases hfault
          · cases h

/-! ## Directories on the way -/

/-- `t'` is `t` with directories that are above `p`. -/
structure Clears (cwd : Loc) (p : String) (t t' : Tree) : Prop where
  adds : Adds t t'
  above : ∀ loc, t.node? loc = none → t'.node? loc ≠ none →
    ∃ q d name, Path.Above p q ∧ loc = name :: d ∧ Names t' cwd q d name

theorem named_of_makeFolder {loc : Loc} (h : t.makeFolder cwd p = .ok t')
    (hnone : t.node? loc = none) (hsome : t'.node? loc ≠ none) :
    ∃ d name, loc = name :: d ∧ Names t' cwd p d name := by
  have hkeeps := (adds_makeFolder h).keeps
  obtain ⟨d, name, hnames, -, -, rfl⟩ := makeFolder_eq_ok h
  by_cases heq : loc = name :: d
  · exact ⟨d, name, heq, hnames.mono hkeeps⟩
  · rw [node?_put_ne t heq] at hsome
    exact absurd hnone hsome

theorem named_of_makeFirst {loc : Loc} (ps : List String) (hnone : t.node? loc = none)
    (hsome : (t.makeFirst cwd ps).1.node? loc ≠ none) :
    ∃ q ∈ ps, ∃ d name, loc = name :: d ∧ Names (t.makeFirst cwd ps).1 cwd q d name := by
  refine makeFirst_induction (P := fun u => u.node? loc ≠ none →
    ∃ q ∈ ps, ∃ d name, loc = name :: d ∧ Names u cwd q d name) (fun h => absurd hnone h) ?_ hsome
  intro u u' q hq hu hmade hsome
  by_cases hthere : u.node? loc = none
  · exact ⟨q, hq, named_of_makeFolder hmade hthere hsome⟩
  · obtain ⟨r, hr, d, name, hloc, hnames⟩ := hu hthere
    exact ⟨r, hr, d, name, hloc, hnames.mono (adds_makeFolder hmade).keeps⟩

theorem above_of_mem_ancestors (hp : Path.Above p q) :
    ∀ (fuel : Nat) (r : String), r ∈ ancestors fuel q → Path.Above p r := by
  intro fuel
  induction fuel generalizing q with
  | zero =>
    intro r hr
    cases hr
  | succ fuel ih =>
    intro r hr
    rw [ancestors] at hr
    rcases List.mem_cons.mp hr with rfl | hr
    · exact hp
    · split at hr
      · rename_i up hup
        exact ih (.up hp hup) r hr
      · cases hr

end Tree

namespace Lock

open Concolic.Tree (Adds Clears Names)

variable {h : Host} {t t' held kept made : Tree} {path workDir name : String}
  {d : Loc} {lock : Lock}

theorem clears_prepare (h : Host) (t : Tree) (path : String) :
    Clears h.cwd path t (prepare h t path).1 := by
  refine ⟨adds_prepare h t path, fun loc hnone hsome => ?_⟩
  unfold prepare at hsome ⊢
  cases hparent : Path.parent? path with
  | none =>
    simp only [hparent] at hsome
    exact absurd hnone hsome
  | some dir =>
    simp only [hparent] at hsome ⊢
    by_cases hempty : dir = ""
    · rw [if_pos hempty] at hsome
      exact absurd hnone hsome
    · rw [if_neg hempty] at hsome ⊢
      have hfst : (t.makeFolders h.cwd dir).1.node? loc ≠ none → ∃ q d name,
          Path.Above path q ∧ loc = name :: d ∧
            Names (t.makeFolders h.cwd dir).1 h.cwd q d name := by
        intro hthere
        obtain ⟨q, hq, d, name, hloc, hnames⟩ := Tree.named_of_makeFirst _ hnone hthere
        exact ⟨q, d, name, Tree.above_of_mem_ancestors (.parent hparent) _ q hq, hloc, hnames⟩
      cases hmade : t.makeFolders h.cwd dir with
      | mk made r =>
        rw [hmade] at hfst hsome
        cases r <;> exact hfst hsome

/-! ## The owner of a lock -/

/-- The directory of the file at `path` is there. -/
def HasParent (t : Tree) (cwd : Loc) (path : String) : Prop :=
  ∀ dir, Path.parent? path = some dir → dir = "" ∨ t.isFolder cwd dir = true

theorem HasParent.prepare (hparent : HasParent t h.cwd path) : prepare h t path = (t, .ok ()) := by
  unfold Lock.prepare
  split
  · rfl
  · rename_i dir hdir
    split
    · rfl
    · rename_i hne
      obtain ⟨e, hreach⟩ := Tree.isFolder_iff.mp ((hparent dir hdir).resolve_left hne)
      rw [hreach.makeFolders]

/-- A live process owns the lock file: something has its name, and the text that is read through it
    spells the number of the process. -/
structure OwnedBy (h : Host) (t : Tree) (path : String) (pid : UInt32) : Prop where
  taken : ∃ d name node, Names t h.cwd path d name ∧ t.node? (name :: d) = some node
  spelled : ∃ text, t.readText h.cwd path = .ok text ∧ Text.Spells text.toList pid.toNat
  alive : h.isAlive pid = true

theorem ownerOf?_eq_some {text : String} {pid : UInt32} :
    ownerOf? text = some pid ↔ Text.Spells text.toList pid.toNat := by
  rw [ownerOf?, Option.map_eq_some_iff]
  constructor
  · rintro ⟨n, hread, rfl⟩
    obtain ⟨hlt, hspells⟩ := Text.unsigned?_trim.mp hread
    rwa [UInt32.toNat_ofNat_of_lt' hlt]
  · intro hspells
    exact ⟨pid.toNat, Text.unsigned?_trim.mpr ⟨UInt32.toNat_lt pid, hspells⟩, by simp⟩

theorem liveOwner_eq_some {pid : UInt32} :
    liveOwner h t path = some pid ↔
      (∃ text, t.readText h.cwd path = .ok text ∧ Text.Spells text.toList pid.toNat) ∧
        h.isAlive pid = true := by
  rw [liveOwner, readOwner]
  cases hread : t.readText h.cwd path with
  | error f => simp
  | ok text =>
    simp only [Except.ok.injEq, exists_eq_left', ← ownerOf?_eq_some]
    cases ownerOf? text with
    | none => simp
    | some owner =>
      simp only [Option.some.injEq]
      constructor
      · intro howner
        split at howner
        · rename_i halive
          cases howner
          exact ⟨rfl, halive⟩
        · cases howner
      · rintro ⟨rfl, halive⟩
        exact if_pos halive

theorem taken_of_create {f : Fault} (hcreate : create h t (pathFor workDir) = (t, .error f))
    (hkind : f.kind = .alreadyExists) :
    ∃ d name node, Names t h.cwd (pathFor workDir) d name ∧ t.node? (name :: d) = some node := by
  obtain ⟨dir, stem, hpath, hplain⟩ := pathFor_eq_join workDir
  have hlast : ∀ dots : String, dots.toList.length < 3 → stem ++ ".lock" ≠ dots := by
    rintro _ hshort rfl
    simp at hshort
    omega
  have hsteps := congrArg Path.Route.steps (Path.route_join dir hplain)
  rw [← hpath] at hsteps
  refine Tree.taken_of_newLoc hsteps (hlast "." (by decide)) (hlast ".." (by decide)) ?_ hkind
  cases hloc : t.newLoc h.cwd (pathFor workDir) false with
  | error f' =>
    rw [create_of_no_newLoc hloc] at hcreate
    cases hcreate
    rfl
  | ok loc =>
    rw [create_of_newLoc hloc] at hcreate
    cases congrArg Prod.snd hcreate

/-- **A lock is refused because of its owner** exactly if it has one. -/
theorem acquire_eq_locked {pid : UInt32} (hprepare : prepare h t (pathFor workDir) =
    (made, .ok ())) : (acquire h workDir t).2 = .error (.workspaceLocked workDir pid) ↔
      OwnedBy h made (pathFor workDir) pid := by
  rw [acquire_of_prepared hprepare]
  constructor
  · intro hlocked
    generalize hseize : seize h workDir (pathFor workDir) made = ended at hlocked
    cases seizes hseize with
    | owned hcreate hkind howner =>
      cases hlocked
      obtain ⟨hspelled, halive⟩ := liveOwner_eq_some.mp howner
      exact ⟨taken_of_create hcreate hkind, hspelled, halive⟩
    | _ => cases hlocked
  · intro howned
    obtain ⟨d, name, node, hnames, hnode⟩ := howned.taken
    have hkind : ¬ Fault.alreadyExists.kind ≠ .alreadyExists := by decide
    rw [seize, create_of_taken hnames hnode]
    simp only [if_neg hkind, liveOwner_eq_some.mpr ⟨howned.spelled, howned.alive⟩]

/-! ## What asking for a lock changes -/

/-- What a lock that is taken leaves: its file is the entry `name` in `d` and holds the number of
    the host, directories above it may be new, and nothing else is. -/
structure Obtains (h : Host) (workDir : String) (t held : Tree) (d : Loc) (name : String) :
    Prop where
  names : Names held h.cwd (pathFor workDir) d name
  file : held.node? (name :: d) = some (.file (ownerBlob h.pid))
  others : ∃ made, Clears h.cwd (pathFor workDir) t made ∧
    ∀ loc, loc ≠ name :: d → held.node? loc = made.node? loc
  pool : held.pool = t.pool

/-- What a lock that is not taken leaves: directories above its file may be new, and nothing else
    has changed, unless the entry with the name of the file had no owner and was removed in vain. -/
inductive Forgoes (h : Host) (workDir : String) (t kept : Tree) (cause : Failure) : Prop where
  | all (hclears : Clears h.cwd (pathFor workDir) t kept)
  /-- The path of the lock goes through the link that has the name of its file. -/
  | link {made : Tree} {d : Loc} {name target : String} {f : Fault} (hcause : cause = .io f)
      (hclears : Clears h.cwd (pathFor workDir) t made)
      (hnames : Names made h.cwd (pathFor workDir) d name)
      (hnode : t.node? (name :: d) = some (.link target)) (hkept : kept = made.erase (name :: d))
      (hcut : ∀ e last, ¬ Names kept h.cwd (pathFor workDir) e last)
  /-- A device of the machine has the name, in a directory where no other can take it. -/
  | device {made : Tree} {d : Loc} {name : String} {device : Device} {f : Fault}
      (hcause : cause = .io f) (hclears : Clears h.cwd (pathFor workDir) t made)
      (hnames : Names made h.cwd (pathFor workDir) d name)
      (hnode : t.node? (name :: d) = some (.device device)) (hkept : kept = made.erase (name :: d))
      (hseal : t.node? d = some .sealed)

theorem obtains_of_ok (hacquire : acquire h workDir t = (held, .ok lock)) :
    ∃ d name, Obtains h workDir t held d name := by
  obtain ⟨d, name, htakes⟩ := acquire_eq_ok hacquire
  exact ⟨d, name, htakes.names, htakes.file,
    ⟨_, clears_prepare h t (pathFor workDir), htakes.elsewhere⟩, htakes.pool⟩

/-- Only two reasons are left for which a lock file cannot be made once its name is free: its path
    leads nowhere any more, or its directory takes no new names. -/
theorem failed_after_erase {f : Fault} (hnames : Names made h.cwd path d name)
    (hslash : (Path.route path).slash = false)
    (hcreate : (create h (made.erase (name :: d)) path).2 = .error f) :
    (∀ e last, ¬ Names (made.erase (name :: d)) h.cwd path e last) ∨
      made.node? d = some .sealed := by
  refine Classical.byContradiction fun hnot => ?_
  rw [not_or, Classical.not_forall] at hnot
  obtain ⟨⟨e, hlast⟩, hseal⟩ := hnot
  obtain ⟨last, hnames'⟩ := Classical.not_forall_not.mp hlast
  obtain ⟨rfl, rfl⟩ := hnames.unique (hnames'.mono (Tree.within_erase made _).keeps)
  have hne : d ≠ name :: d := (List.cons_ne_self _ _).symm
  rw [create_of_free hnames' hslash (Tree.node?_erase_self made (List.cons_ne_nil name d))
    (by rwa [Tree.node?_erase_ne made hne])] at hcreate
  cases hcreate

theorem forgoes_of_error {cause : Failure} (hform : t.WellFormed)
    (hacquire : acquire h workDir t = (kept, .error cause)) : Forgoes h workDir t kept cause := by
  have hclears := clears_prepare h t (pathFor workDir)
  rcases refused_cases hacquire with hkept |
    ⟨⟨f, hcause⟩, made, d, name, node, hprepare, hnames, hnode, hfolder, -, hkept, f', hcreate⟩
  · exact .all (hkept ▸ hclears)
  have hmade := wellFormed_prepare hform h (pathFor workDir)
  rw [hprepare] at hclears hmade
  rw [hkept] at hcreate
  rcases not_file_of_failed hmade hnames (slash_pathFor workDir) hnode hfolder hcreate with
    ⟨target, rfl⟩ | ⟨device, rfl⟩
  · refine .link hcause hclears hnames (hclears.adds.node?_of_some hnode (by simp)) hkept ?_
    rw [hkept]
    refine (failed_after_erase hnames (slash_pathFor workDir) hcreate).resolve_right fun hseal => ?_
    rcases hmade.guarded hseal hnode with hbad | ⟨device, hbad⟩ <;> cases hbad
  · refine .device hcause hclears hnames (hclears.adds.node?_of_some hnode (by simp)) hkept ?_
    refine hclears.adds.node?_of_some ((failed_after_erase hnames (slash_pathFor workDir)
      hcreate).resolve_left fun hcut => ?_) (by simp)
    refine hcut d name (hnames.mono (Tree.keeps_erase fun old hold => ?_))
    rw [hnode] at hold
    cases hold
    rfl

/-- **Asking for a lock on any tree.**  Taken, its file holds the number of the host and everything
    else is as it was; not taken, everything is, unless its path went through the very link that had
    the name of the file.  Where the directory of the file is there, the lock is refused because of
    a process exactly if that process is alive and owns it. -/
theorem acquire_on_any_tree (h : Host) (workDir : String) (hform : t.WellFormed) :
    (∀ held lock, acquire h workDir t = (held, .ok lock) →
      lock.path = pathFor workDir ∧ ∃ d name, Obtains h workDir t held d name) ∧
    (∀ kept cause, acquire h workDir t = (kept, .error cause) → Forgoes h workDir t kept cause) ∧
    (HasParent t h.cwd (pathFor workDir) → ∀ pid,
      (acquire h workDir t).2 = .error (.workspaceLocked workDir pid) ↔
        OwnedBy h t (pathFor workDir) pid) :=
  ⟨fun _ _ hacquire => ⟨path_of_acquire hacquire, obtains_of_ok hacquire⟩,
    fun _ _ hacquire => forgoes_of_error hform hacquire,
    fun hparent _ => acquire_eq_locked hparent.prepare⟩

/-- A lock file that is a link to a text with the number of its owner. -/
def linkedLock : Tree :=
  (Tree.empty.put ["owner"] (.file ⟨" +12\n".toUTF8, false⟩)).put ["w.lock"] (.link "owner")

/-- A process beside which only the process 12 is alive. -/
def pairedHost : Host := { cwd := [], pid := 7, othersAlive := fun pid => pid = 12 }

theorem linkedLock_refused :
    linkedLock.WellFormed ∧ HasParent linkedLock [] "w.lock" ∧
      (acquire pairedHost "w" linkedLock).2 = .error (.workspaceLocked "w" 12) ∧
      OwnedBy pairedHost linkedLock "w.lock" 12 := by
  have hform : linkedLock.WellFormed :=
    (Tree.wellFormed_empty.put_new rfl (by decide) rfl _).put_new rfl (by decide) rfl _
  have hparent : HasParent linkedLock [] "w.lock" := by
    intro dir hdir
    have hroot : Path.parent? "w.lock" = some "" := by decide +kernel
    rw [hroot] at hdir
    exact .inl (Option.some.inj hdir).symm
  have hlocked : (acquire pairedHost "w" linkedLock).2 = .error (.workspaceLocked "w" 12) := by
    decide +kernel
  exact ⟨hform, hparent, hlocked,
    ((acquire_on_any_tree pairedHost "w" hform).2.2 hparent 12).mp hlocked⟩

/-- A link beside a working directory that leads to its own directory. -/
def selfLinked : Tree := Tree.empty.put ["x.lock"] (.link ".")

/-- **A link that is lost** with a lock that is not taken: the path `x.lock/x.lock` names the link
    that it goes through. -/
theorem selfLinked_loses_link :
    selfLinked.WellFormed ∧ pathFor "x.lock/x" = "x.lock/x.lock" ∧
      (acquire pairedHost "x.lock/x" selfLinked).2.toOption = none ∧
      selfLinked.node? ["x.lock"] = some (.link ".") ∧
      (acquire pairedHost "x.lock/x" selfLinked).1.node? ["x.lock"] = none :=
  ⟨Tree.wellFormed_empty.put_new rfl (by decide) rfl _, by decide +kernel, by decide +kernel,
    by decide +kernel, by decide +kernel⟩

end Lock

end Concolic
