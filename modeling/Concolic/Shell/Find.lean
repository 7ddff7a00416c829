import Concolic.Shell.Wrapper
import Concolic.Utility.Listing

/-
  The program that walks through directories and does something for each file that an expression
  selects.
-/

namespace Concolic.Shell

open Concolic.Text (decode)

/-- An expression about a file, with what is done for it. -/
inductive Criterion where
  | always (answer : Bool)
  | name (pattern : String) (ignoreCase : Bool)
  | path (pattern : String)
  | kind (letters : List Char)
  | empty
  | size (sign : Option Char) (n : Nat) (unit : Nat)
  | runnable
  | print (mark : String)
  | format (text : String)
  | delete
  | prune
  | quit
  /-- Runs a command for each file, or once for all of them. -/
  | exec (words : List String) (together : Bool)
  | not (c : Criterion)
  | both (a b : Criterion)
  | either (a b : Criterion)

namespace Criterion

/-- The expression does something with files, so that they are not printed by default. -/
def acts : Criterion → Bool
  | .print _ => true
  | .format _ => true
  | .delete => true
  | .exec _ _ => true
  | .quit => true
  | .not c => c.acts
  | .both a b => a.acts || b.acts
  | .either a b => a.acts || b.acts
  | _ => false

/-- The expression deletes files, so that directories come after what is in them. -/
def deletes : Criterion → Bool
  | .delete => true
  | .not c => c.deletes
  | .both a b => a.deletes || b.deletes
  | .either a b => a.deletes || b.deletes
  | _ => false

/-- Why an expression is none. -/
structure Complaint where
  text : String
  /-- A word that does not belong there, and the test before it. -/
  stray : Option (String × String)

def refuse {α : Type} (text : String) : Except Complaint α := .error ⟨text, none⟩

def missing {α : Type} (op : String) : Except Complaint α :=
  refuse ("missing argument to \x60" ++ op ++ "'")

/-- The words of a command up to its end, whether it is run once for all, and what follows. -/
def commandWords (acc : List String) : List String → Option (List String × Bool × List String)
  | [] => none
  | ";" :: rest => some (acc.reverse, false, rest)
  | "\x7b\x7d" :: "+" :: rest => some ((acc.reverse), true, rest)
  | w :: rest => commandWords (w :: acc) rest

/-- A size, at least it, at most it or exactly. -/
def readSize (text : String) : Except Complaint Criterion :=
  let (sign, cs) := match text.toList with
    | '+' :: cs => (some '+', cs)
    | '-' :: cs => (some '-', cs)
    | cs => (none, cs)
  let unit? : Except Complaint (Nat × List Char) := match text.toList.getLast? with
    | none => refuse "invalid null argument to -size"
    | some 'c' => .ok (1, cs.dropLast)
    | some 'w' => .ok (2, cs.dropLast)
    | some 'b' => .ok (512, cs.dropLast)
    | some 'k' => .ok (1024, cs.dropLast)
    | some 'M' => .ok (1048576, cs.dropLast)
    | some 'G' => .ok (1073741824, cs.dropLast)
    | some c =>
      if c.isDigit then .ok (512, cs)
      else refuse ("invalid -size type \x60" ++ String.singleton c ++ "'")
  match unit? with
  | .error e => .error e
  | .ok (unit, digits) =>
    match Text.ofDigits? 10 digits with
    | some n => .ok (.size sign n unit)
    | none => refuse ("Invalid argument \x60" ++ text ++ "' to -size")

/-- A criterion, and the words after it. -/
abbrev Read := Except Complaint (Criterion × List String)

/-- The expression ended too early. -/
def endedAfter (word : String) : Read :=
  refuse (if word = "(" then
    "invalid expression; expected to find a ')' but didn't see one. " ++
      "Perhaps you need an extra predicate after '('"
    else "expected an expression after " ++ Utility.quoted word)

def isJoining (word : String) : Bool := ["-o", "-or", "-a", "-and", ","].contains word

mutual

/-- Reads expressions that are tried one after the other; the last one decides. -/
def readEach : (fuel : Nat) → (before : String) → List String → Read
  | 0, _, _ => refuse "expression too long"
  | fuel + 1, before, args => do
    let (a, rest) ← readEither fuel before args
    match rest with
    | "," :: rest =>
      let (b, rest) ← readEach fuel "," rest
      return (.both (.either a (.always true)) b, rest)
    | _ => return (a, rest)

/-- Criteria of which one has to hold. -/
def readEither : (fuel : Nat) → (before : String) → List String → Read
  | 0, _, _ => refuse "expression too long"
  | fuel + 1, before, args => do
    let (a, rest) ← readBoth fuel before args
    match rest with
    | op :: rest' =>
      if op = "-o" || op = "-or" then
        let (b, rest) ← readEither fuel op rest'
        return (.either a b, rest)
      else return (a, rest)
    | [] => return (a, [])

/-- Criteria that all have to hold. -/
def readBoth : (fuel : Nat) → (before : String) → List String → Read
  | 0, _, _ => refuse "expression too long"
  | fuel + 1, before, args => do
    let (a, rest) ← readOne fuel before args
    let used := args.take (args.length - rest.length)
    let last := if used.getLast? = some ")" then ")"
      else (used.find? fun w => w ≠ "!" && w ≠ "-not").getD ""
    match rest with
    | [] => return (a, [])
    | op :: rest' =>
      if op = "-a" || op = "-and" then
        let (b, rest) ← readBoth fuel op rest'
        return (.both a b, rest)
      else if isJoining op || op = ")" then return (a, rest)
      else
        let (b, rest) ← readBoth fuel last rest
        return (.both a b, rest)

/-- A test, an action, a negation or a group. -/
def readOne : (fuel : Nat) → (before : String) → List String → Read
  | 0, _, _ => refuse "expression too long"
  | _ + 1, before, [] => endedAfter before
  | fuel + 1, before, op :: rest =>
    let valued := fun (make : String → Read) => match rest with
      | v :: _ => make v
      | [] => missing op
    match op with
    | "!" => (readOne fuel op rest).map fun (c, rest) => (.not c, rest)
    | "-not" => (readOne fuel op rest).map fun (c, rest) => (.not c, rest)
    | "(" =>
      if rest.head? = some ")" then
        refuse "invalid expression; empty parentheses are not allowed."
      else match readEach fuel op rest with
        | .error e => .error e
        | .ok (c, ")" :: rest) => .ok (c, rest)
        | .ok _ =>
          refuse "invalid expression; I was expecting to find a ')' somewhere but did not see one."
    | "-true" => .ok (.always true, rest)
    | "-false" => .ok (.always false, rest)
    | "-depth" => .ok (.always true, rest)
    | "-print" => .ok (.print "\n", rest)
    | "-print0" => .ok (.print "\x00", rest)
    | "-empty" => .ok (.empty, rest)
    | "-executable" => .ok (.runnable, rest)
    | "-readable" => .ok (.always true, rest)
    | "-writable" => .ok (.always true, rest)
    | "-delete" => .ok (.delete, rest)
    | "-prune" => .ok (.prune, rest)
    | "-quit" => .ok (.quit, rest)
    | "-name" => valued fun v => .ok (.name v false, rest.tail)
    | "-iname" => valued fun v => .ok (.name v true, rest.tail)
    | "-path" => valued fun v => .ok (.path v, rest.tail)
    | "-wholename" => valued fun v => .ok (.path v, rest.tail)
    | "-printf" => valued fun v => .ok (.format v, rest.tail)
    | "-maxdepth" => valued fun v => depth op v rest.tail
    | "-mindepth" => valued fun v => depth op v rest.tail
    | "-type" => valued fun v =>
      let letters := v.toList.filter (· ≠ ',')
      match letters.find? fun ch => !"bcdpfls".toList.contains ch with
      | some _ => refuse ("Unknown argument to -type: " ++ v)
      | none => .ok (.kind letters, rest.tail)
    | "-size" => valued fun v => (readSize v).map fun c => (c, rest.tail)
    | "-exec" =>
      match commandWords [] rest with
      | some (words, together, rest) =>
        if words.isEmpty then missing op else .ok (.exec words together, rest)
      | none => missing op
    | _ =>
      if isJoining op then
        refuse ("invalid expression; you have used a binary operator " ++ Utility.quoted op ++
          " with nothing before it.")
      else if op = ")" then refuse "invalid expression; you have too many ')'"
      else if op.toList.head? = some '-' then refuse ("unknown predicate \x60" ++ op ++ "'")
      else .error ⟨"paths must precede expression: \x60" ++ op ++ "'", some (op, before)⟩
where
  /-- A bound on the depth, which is looked at before. -/
  depth (op v : String) (rest : List String) : Read :=
    match Text.ofDigits? 10 v.toList with
    | some _ => .ok (.always true, rest)
    | none =>
      refuse ("Expected a positive decimal integer argument to " ++ op ++ ", but got " ++
        Utility.quoted v)

end

/-- The criterion that all words make up. -/
def read (args : List String) : Except Complaint Criterion :=
  if args.isEmpty then .ok (.always true)
  else match readEach (5 * args.length + 5) "" args with
    | .error e => .error e
    | .ok (c, []) => .ok c
    | .ok _ => refuse "you have too many ')'"

end Criterion

/-! ## Walking -/

/-- A file that is visited. -/
structure Visit where
  path : String
  loc : Loc
  depth : Nat
  root : String

/-- How far the walk has come. -/
structure Walk where
  state : State
  pruned : Bool
  done : Bool
  status : Nat
  /-- The paths for commands that are run once, last one first. -/
  gathered : List (List String × List String)

def kindLetter (t : Tree) (loc : Loc) : Char :=
  if t.isFolderAt loc then 'd'
  else if Utility.isLinkAt t loc then 'l'
  else if (t.device? loc).isSome then 'c'
  else 'f'

def fileSize (t : Tree) (loc : Loc) : Nat :=
  match t.blob? loc, t.node? loc with
  | some b, _ => b.bytes.size
  | none, some (.link target) => target.utf8ByteSize
  | none, _ => 4096

def nameMatches (pattern name : String) (ignoreCase : Bool) : Bool :=
  let lower := fun (cs : List Char) => if ignoreCase then cs.map Char.toLower else cs
  (Pattern.ofGlyphs true (glyphs false (String.ofList (lower pattern.toList)))).matches
    (lower name.toList)

/-- A text with places for what is known of a file. -/
def formatVisit (t : Tree) (v : Visit) : List Char → List Char
  | '%' :: c :: rest =>
    let text := match c with
      | 'p' => v.path
      | 'f' => Utility.baseName v.path
      | 'h' =>
        let parent := (v.path.toList.reverse.dropWhile (· ≠ '/')).drop 1
        if parent.isEmpty then "." else String.ofList parent.reverse
      | 'P' => String.ofList ((v.path.toList.drop v.root.length).dropWhile (· = '/'))
      | 'd' => Nat.repr v.depth
      | 'y' => String.singleton (kindLetter t v.loc)
      | 's' => Nat.repr (fileSize t v.loc)
      | '%' => "%"
      | c => String.ofList ['%', c]
    text.toList ++ formatVisit t v rest
  | '\\' :: 'n' :: rest => '\n' :: formatVisit t v rest
  | '\\' :: 't' :: rest => '\t' :: formatVisit t v rest
  | '\\' :: '0' :: rest => '\x00' :: formatVisit t v rest
  | '\\' :: '\\' :: rest => '\\' :: formatVisit t v rest
  | c :: rest => c :: formatVisit t v rest
  | [] => []

def Walk.print (w : Walk) (text : String) : Walk :=
  match w.state.write 1 text with
  | .ok s => { w with state := s }
  | .error _ => { w with status := 1 }

/-- The answer of an expression for a file, and the walk after what was done for it. -/
def Criterion.visit (u : Setup) (r : Runner) (v : Visit) : Criterion → Walk → Bool × Walk
  | .always b, w => (b, w)
  | .name pattern i, w => (nameMatches pattern (Utility.baseName v.path) i, w)
  | .path pattern, w => (nameMatches pattern v.path false, w)
  | .kind letters, w => (letters.contains (kindLetter w.state.world.tree v.loc), w)
  | .empty, w =>
    let t := w.state.world.tree
    (if t.isFolderAt v.loc then (Utility.sortedNames t v.loc).isEmpty
      else fileSize t v.loc = 0 && !Utility.isLinkAt t v.loc, w)
  | .size sign n unit, w =>
    let blocks := (fileSize w.state.world.tree v.loc + unit - 1) / unit
    (match sign with
      | some '+' => n < blocks
      | some _ => blocks < n
      | none => blocks = n, w)
  | .runnable, w =>
    let t := w.state.world.tree
    (t.isFolderAt v.loc || (t.blob? v.loc).any fun b => b.runnable, w)
  | .print mark, w => (true, w.print (v.path ++ mark))
  | .format text, w =>
    (true, w.print (String.ofList (formatVisit w.state.world.tree v text.toList)))
  | .delete, w =>
    let t := w.state.world.tree
    let result := if t.isFolderAt v.loc then t.removeFolder w.state.shell.cwd (decode v.path)
      else t.removeFile w.state.shell.cwd (decode v.path)
    match result with
    | .ok t => (true, { w with state := w.state.withWorld fun x => { x with tree := t } })
    | .error f =>
      let s := u.complain 1 ("cannot delete " ++ Utility.quoted v.path ++ ": " ++ Utility.reason f)
        w.state
      (false, { w with state := s, status := 1 })
  | .prune, w => (true, { w with pruned := true })
  | .quit, w => (true, { w with done := true })
  | .exec words together, w =>
    if together then
      let old := (w.gathered.lookup words).getD []
      (true, { w with gathered := (words, v.path :: old) ::
        w.gathered.filter fun g => g.1 ≠ words })
    else
      let filled := words.map fun word => String.ofList
        (replaceMark ['\x7b', '\x7d'] v.path.toList (word.length + 1) word.toList)
      match filled with
      | [] => (false, w)
      | command :: args =>
        match u.spawn r command args w.state with
        | .ok s => (s.shell.status = 0, { w with state := s, done := w.done || !s.isNormal })
        | .error f =>
          let s := u.complain 0 (Utility.quoted command ++ ": " ++ Utility.reason f) w.state
          (false, { w with state := s })
  | .not c, w =>
    let (b, w) := c.visit u r v w
    (!b, w)
  | .both a b, w =>
    match a.visit u r v w with
    | (true, w) => b.visit u r v w
    | other => other
  | .either a b, w =>
    match a.visit u r v w with
    | (false, w) => b.visit u r v w
    | other => other

/-- Visits a file and what is below it. -/
def walkFrom (u : Setup) (r : Runner) (c : Criterion) (after : Bool) (least : Nat)
    (most : Option Nat) : (fuel : Nat) → Visit → Walk → Walk
  | 0, _, w => w
  | fuel + 1, v, w =>
    let visit := fun (w : Walk) =>
      if w.done || v.depth < least then w else (c.visit u r v w).2
    let inside := fun (w : Walk) =>
      let deep := most.any fun m => decide (m ≤ v.depth)
      if w.done || w.pruned || deep || !w.state.world.tree.isFolderAt v.loc then
        { w with pruned := false }
      else (Utility.sortedNames w.state.world.tree v.loc).foldl
        (fun w name => walkFrom u r c after least most fuel
          ⟨Utility.inFolder v.path name, decode name :: v.loc, v.depth + 1, v.root⟩ w)
        w
    if after then visit (inside w) else inside (visit { w with pruned := false })

/-- Runs the programs that take many paths at once. -/
def runGathered (u : Setup) (r : Runner) (w : Walk) : Walk :=
  w.gathered.reverse.foldl
    (fun w (words, paths) =>
      match words with
      | [] => w
      | name :: args =>
        match u.spawn r name (args ++ paths.reverse) w.state with
        | .ok s => { w with state := s, status := if s.shell.status = 0 then w.status else 1 }
        | .error f =>
          { w with state := u.complain 1 (Utility.quoted name ++ ": " ++ Utility.reason f) w.state,
                   status := 1 })
    w

def depthOption (args : List String) (op : String) : Option Nat :=
  match args.dropWhile (· ≠ op) with
  | _ :: v :: _ => Text.ofDigits? 10 v.toList
  | _ => none

/-- Whether the expression starts here. -/
def startsExpression (arg : String) : Bool :=
  arg = "!" || arg = "(" || (arg.toList.head? = some '-' && arg.length > 1)

/-- Walks from each starting point. -/
def runFind (u : Setup) (r : Runner) (args : List String) (s : State) : State :=
  let args := args.dropWhile fun a => a = "-L" || a = "-P" || a = "-H"
  let roots := args.takeWhile fun a => !startsExpression a
  let expression := args.drop roots.length
  match Criterion.read expression with
  | .error e =>
    let s := u.complain 1 e.text s
    match e.stray with
    | some (word, test) =>
      if s.world.tree.hasEntry s.shell.cwd (decode word) then
        u.complain 1 ("possible unquoted pattern after predicate \x60" ++ test ++ "'?") s
      else s
    | none => s
  | .ok c =>
    let c := if c.acts then c else .both c (.print "\n")
    let after := c.deletes || expression.contains "-depth"
    let least := (depthOption expression "-mindepth").getD 0
    let most := depthOption expression "-maxdepth"
    let roots := if roots.isEmpty then ["."] else roots
    let start : Walk := ⟨s, false, false, 0, []⟩
    let w := roots.foldl
      (fun w root =>
        if w.done then w
        else match w.state.world.tree.lookup w.state.shell.cwd false (decode root) with
          | .ok loc =>
            if w.state.world.tree.hasEntry w.state.shell.cwd (decode root) ||
                Utility.isLinkAt w.state.world.tree loc then
              walkFrom u r c after least most 1000 ⟨root, loc, 0, root⟩ w
            else complainAbout w root .notFound
          | .error f => complainAbout w root f)
      start
    let w := if w.state.isNormal then runGathered u r w else w
    if w.state.isNormal then w.state.withStatus w.status else w.state
where
  complainAbout (w : Walk) (root : String) (f : Fault) : Walk :=
    { w with state := u.complain 1 (Utility.quoted root ++ ": " ++ Utility.reason f) w.state,
             status := 1 }

end Concolic.Shell
