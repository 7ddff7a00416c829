import Concolic.Utility.Basic

/-
  Programs that make, remove, copy, move and link files.

  Each works on its operands one after the other.  What goes wrong with one operand is complained
  about, and the program goes on with the next.
-/

namespace Concolic.Utility

open Concolic.Text (encode decode)

/-! ## Paths -/

/-- The place that a path leads to. -/
def Call.locate (c : Call) (t : Tree) (follow : Bool) (path : String) : Except Fault Loc :=
  t.lookup c.cwd follow (decode path)

def Call.isFolder (c : Call) (t : Tree) (path : String) : Bool := t.isFolder c.cwd (decode path)

/-- Complains about a missing operand. -/
def Call.missingOperand (c : Call) (what : String) : Effect :=
  c.misuse 1 ("missing " ++ what ++ "operand")

def sortedNames (t : Tree) (dir : Loc) : List String :=
  ((t.names dir).map encode).mergeSort fun a b => a ≤ b

def isLinkAt (t : Tree) (loc : Loc) : Bool :=
  match t.node? loc with
  | some (.link _) => true
  | _ => false

/-! ## Removing -/

/-- The texts that are printed while all that is at a location is removed. -/
def removalLines (t : Tree) : (fuel : Nat) → (path : String) → Loc → List String
  | 0, _, _ => []
  | fuel + 1, path, loc =>
    if t.isFolderAt loc then
      ((sortedNames t loc).flatMap fun name =>
        removalLines t fuel (inFolder path name) (decode name :: loc)) ++
        ["removed directory " ++ quoted path ++ "\n"]
    else ["removed " ++ quoted path ++ "\n"]

/-- What a file is called. -/
def kindAt (t : Tree) (loc : Loc) : String :=
  match t.node? loc with
  | some (.link _) => "symbolic link"
  | _ =>
    if t.isFolderAt loc then "directory"
    else if (t.device? loc).isSome then "character special file"
    else if (t.blobAt loc).bytes.isEmpty then "regular empty file"
    else "regular file"

/-- Removes what is at a path, piece by piece, where the user agrees.  The answer is whether all of
    it went away. -/
def removeAsking (c : Call) (verbose : Bool) : (fuel : Nat) → Effect → (path : String) → Loc →
    Bool × Effect
  | 0, e, _, _ => (false, e)
  | fuel + 1, e, path, loc =>
    let isFolder := e.tree.isFolderAt loc
    let names := if isFolder then sortedNames e.tree loc else []
    let (going, e) := if names.isEmpty then (true, e)
      else c.ask e ("descend into directory " ++ quoted path)
    if !going then (false, e)
    else
      let (emptied, e) := names.foldl
        (fun (acc : Bool × Effect) name =>
          let (gone, e) := removeAsking c verbose fuel acc.2 (inFolder path name)
            (decode name :: loc)
          (acc.1 && gone, e))
        (true, e)
      if !emptied then (false, e)
      else
        let (agreed, e) := c.ask e ("remove " ++ kindAt e.tree loc ++ " " ++ quoted path)
        if !agreed then (false, e)
        else match e.tree.removeEntry c.cwd (decode path) with
          | (t, .ok ()) =>
            let e := e.onTree t
            (true, if verbose then
                e.say ((if isFolder then "removed directory " else "removed ") ++
                  quoted path ++ "\n")
              else e)
          | (t, .error f) =>
            (false, (e.onTree t).complain 1
              (c.name ++ ": cannot remove " ++ quoted path ++ ": " ++ reason f))

/-- Which of some options was given last. -/
def lastOf? (given : List Given) (letters : List Char) : Option Char :=
  (given.reverse.find? fun g => letters.contains g.letter).map (·.letter)

def rm (c : Call) : Effect :=
  let options := Options.ofLetters "rRfidvI" ""
    [("recursive", 'r', .no), ("force", 'f', .no), ("dir", 'd', .no), ("verbose", 'v', .no),
     ("interactive", 'i', .attached), ("no-preserve-root", 'N', .no), ("preserve-root", 'P', .no),
     ("one-file-system", 'O', .no)]
  c.withOptions options fun given operands =>
    let deep := has given 'r' || has given 'R'
    let manner := lastOf? given ['f', 'i', 'I']
    let force := manner = some 'f'
    let (agreed, e) := if manner = some 'I' && (deep || 3 < operands.length) then
        c.ask c.idle ("remove " ++ Nat.repr operands.length ++
          (if operands.length = 1 then " argument" else " arguments") ++
          (if deep then " recursively" else ""))
      else (true, c.idle)
    if operands.isEmpty then if force then c.idle else c.missingOperand ""
    else if !agreed then e
    else operands.foldl
      (fun e arg =>
        let complaint := fun (e : Effect) f =>
          e.complain 1 (c.name ++ ": cannot remove " ++ quoted arg ++ ": " ++ reason f)
        match c.locate e.tree false arg with
        | .error f =>
          if force && (f.kind = .notFound || f.kind = .notADirectory) then e else complaint e f
        | .ok loc =>
          let last := (Path.route arg).steps.getLast?
          let isFolder := e.tree.isFolderAt loc
          if deep && isFolder && (last = some "." || last = some "..") then
            e.complain 1 (c.name ++ ": refusing to remove '.' or '..' directory: skipping " ++
              quoted arg)
          else if deep && loc = [] then
            (e.complain 1 (c.name ++ ": it is dangerous to operate recursively on " ++
              (if arg = "/" then quoted arg else quoted arg ++ " (same as '/')"))).complain 1
              (c.name ++ ": use --no-preserve-root to override this failsafe")
          else if isFolder && !deep && !has given 'd' then complaint e .isADirectory
          else if manner = some 'i' then
            (removeAsking c (has given 'v') 1000 e (withoutSlashes arg) loc).2
          else
            let shown := if has given 'v' then removalLines e.tree 1000 (withoutSlashes arg) loc
              else []
            let result := if isFolder && !deep then
                match e.tree.removeFolder c.cwd (decode arg) with
                | .ok t => (t, .ok ())
                | .error f => (e.tree, .error f)
              else e.tree.removeEntry c.cwd (decode arg)
            match result with
            | (t, .ok ()) => shown.foldl Effect.say (e.onTree t)
            | (t, .error f) => complaint (e.onTree t) f)
      e

def rmdir (c : Call) : Effect :=
  let options := Options.ofLetters "pv" ""
    [("parents", 'p', .no), ("verbose", 'v', .no), ("ignore-fail-on-non-empty", 'i', .no)]
  c.withOptions options fun given operands =>
    if operands.isEmpty then c.missingOperand ""
    else operands.foldl
      (fun e arg =>
        let chain := if has given 'p' then Tree.ancestors (arg.length + 1) (withoutSlashes arg)
          else [arg]
        let chain := chain.filter (· ≠ "")
        (chain.foldl
          (fun (acc : Effect × Bool) path =>
            let (e, going) := acc
            if !going then (e, false)
            else
              let e := if has given 'v' then
                  e.say (c.name ++ ": removing directory, " ++ quoted path ++ "\n")
                else e
              match e.tree.removeFolder c.cwd (decode path) with
              | .ok t => (e.onTree t, true)
              | .error f =>
                if f = .notEmpty && has given 'i' then (e, false)
                else
                  let what := if path = arg then "failed to remove "
                    else "failed to remove directory "
                  (e.complain 1 (c.name ++ ": " ++ what ++ quoted path ++ ": " ++ reason f), false))
          (e, true)).1)
      c.idle

def unlinkFile (c : Call) : Effect :=
  c.withOptions (Options.ofLetters "" "" []) fun _ operands =>
    match operands with
    | [] => c.missingOperand ""
    | _ :: extra :: _ => c.misuse 1 ("extra operand " ++ quotedPlainly extra)
    | [arg] =>
      match c.tree.removeFile c.cwd (decode arg) with
      | .ok t => c.idle.onTree t
      | .error f => c.fail 1 ("cannot unlink " ++ quoted arg ++ ": " ++ reason f)

/-! ## Making -/

/-- The directories on the way. -/
def pathChain (path : String) : List String :=
  let start := if path.toList.head? = some '/' then "/" else ""
  let steps := ((Text.splitOn '/' path.toList).filter (· ≠ [])).map String.ofList
  (List.range steps.length).map fun n => start ++ "/".intercalate (steps.take (n + 1))

/-- Makes a directory and those above it that are missing; gives those that were made. -/
def makeChain (c : Call) (t : Tree) (made : List String) :
    List String → Tree × List String × Option (String × Fault)
  | [] => (t, made.reverse, none)
  | path :: rest =>
    if c.isFolder t path then makeChain c t made rest
    else match t.makeFolder c.cwd (decode path) with
      | .ok t => makeChain c t (path :: made) rest
      | .error f =>
        let f := if f = .alreadyExists && !rest.isEmpty then .notADirectory else f
        (t, made.reverse, some (path, f))

def mkdir (c : Call) : Effect :=
  let options := Options.ofLetters "pv" "m"
    [("parents", 'p', .no), ("verbose", 'v', .no), ("mode", 'm', .yes)]
  c.withOptions options fun given operands =>
    if operands.isEmpty then c.missingOperand ""
    else operands.foldl
      (fun e arg =>
        let complaint := fun (e : Effect) (path : String) f =>
          e.complain 1 (c.name ++ ": cannot create directory " ++ quotedPlainly path ++ ": " ++
            reason f)
        let say := fun (e : Effect) (path : String) =>
          if has given 'v' then e.say (c.name ++ ": created directory " ++
            quotedPlainly path ++ "\n")
          else e
        if has given 'p' && arg ≠ "" then
          let (t, made, failure) := makeChain c e.tree [] (pathChain arg)
          let e := made.foldl say (e.onTree t)
          match failure with
          | some (path, f) => complaint e path f
          | none => e
        else match e.tree.makeFolder c.cwd (decode arg) with
          | .ok t => say (e.onTree t) arg
          | .error f => complaint e arg f)
      c.idle

def touch (c : Call) : Effect :=
  let options := Options.ofLetters "acmfh" "dtr"
    [("no-create", 'c', .no), ("date", 'd', .yes), ("reference", 'r', .yes), ("time", 'T', .yes),
     ("no-dereference", 'h', .no)]
  c.withOptions options fun given operands =>
    if operands.isEmpty then c.missingOperand "file "
    else operands.foldl
      (fun e arg =>
        if arg = "-" || c.isFolder e.tree arg then e
        else if has given 'c' && !e.tree.hasEntry c.cwd (decode arg) then e
        else match e.tree.append c.cwd (decode arg) .empty with
          | .ok t => e.onTree t
          | .error f =>
            if f = .isADirectory then
              e.complain 1 (c.name ++ ": setting times of " ++ quoted arg ++ ": " ++
                reason .notFound)
            else e.complain 1 (c.name ++ ": cannot touch " ++ quoted arg ++ ": " ++ reason f))
      c.idle

/-- A size with its unit. -/
def sizeOf? (text : String) : Option Nat :=
  let cs := text.toList
  let digits := cs.takeWhile Char.isDigit
  let powers := "KMGTPE".toList
  let unit : Option Nat := match cs.drop digits.length with
    | [] => some 1
    | ['b'] => some 512
    | ['c'] => some 1
    | [c] => (powers.findIdx? (· = Text.toUpper c)).map fun i => Nat.pow 1024 (i + 1)
    | [c, 'B'] => (powers.findIdx? (· = Text.toUpper c)).map fun i => Nat.pow 1000 (i + 1)
    | [c, 'i', 'B'] => (powers.findIdx? (· = Text.toUpper c)).map fun i => Nat.pow 1024 (i + 1)
    | _ => none
  match Text.ofDigits? 10 digits, unit with
  | some n, some u => some (n * u)
  | none, some u => if digits.isEmpty && !cs.isEmpty && u ≠ 1 then some u else none
  | _, _ => none

/-- Cut off, or filled with zeros. -/
def resized (bytes : ByteArray) (size : Nat) : ByteArray :=
  if size ≤ bytes.size then bytes.extract 0 size
  else bytes ++ ByteArray.mk (Array.replicate (size - bytes.size) 0)

def truncate (c : Call) : Effect :=
  let options := Options.ofLetters "co" "sr"
    [("no-create", 'c', .no), ("size", 's', .yes), ("reference", 'r', .yes),
      ("io-blocks", 'o', .no)]
  c.withOptions options fun given operands =>
    let amount : Except Effect (Char × Nat) := match valueOf? given 's', valueOf? given 'r' with
      | none, none => .error (c.misuse 1 "you must specify either '--size' or '--reference'")
      | none, some path =>
        match c.locate c.tree true path with
        | .ok loc => .ok ('=', (c.tree.blobAt loc).bytes.size)
        | .error f => .error (c.fail 1 ("cannot stat " ++ quoted path ++ ": " ++ reason f))
      | some text, other =>
        let (how, digits) := match text.toList with
          | '+' :: cs => ('+', String.ofList cs)
          | '-' :: cs => ('-', String.ofList cs)
          | '<' :: cs => ('<', String.ofList cs)
          | '>' :: cs => ('>', String.ofList cs)
          | '/' :: cs => ('/', String.ofList cs)
          | '%' :: cs => ('%', String.ofList cs)
          | _ => ('=', text)
        match sizeOf? digits, other with
        | none, _ => .error (c.fail 1 ("Invalid number: " ++ quotedPlainly digits))
        | some n, some _ =>
          if how = '=' then
            .error (c.misuse 1 "you must specify a relative '--size' with '--reference'")
          else .ok (how, n)
        | some n, none =>
          if n = 0 && (how = '/' || how = '%') then .error (c.fail 1 "division by zero")
          else .ok (how, n)
    match amount with
    | .error e => e
    | .ok (how, n) =>
      if operands.isEmpty then c.missingOperand "file "
      else operands.foldl
        (fun e arg =>
          if has given 'c' && !e.tree.hasEntry c.cwd (decode arg) then e
          else match e.tree.writeLoc c.cwd (decode arg) with
            | .error f =>
              e.complain 1 (c.name ++ ": cannot open " ++ quoted arg ++
                " for writing: " ++ reason f)
            | .ok loc =>
              if (e.tree.device? loc).isSome then e
              else
                let blob := e.tree.blobAt loc
                let old := blob.bytes.size
                let size := match how with
                  | '+' => old + n
                  | '-' => old - n
                  | '<' => min old n
                  | '>' => max old n
                  | '/' => old / n * n
                  | '%' => (old + n - 1) / n * n
                  | _ => n
                e.onTree (e.tree.setBlob loc { blob with bytes := resized blob.bytes size }))
        c.idle

/-- The first name of the form that is free, with the number from which it was made. -/
def freeName (t : Tree) (cwd : Loc) (start ending : String) (letters : Nat) : (tries : Nat) → Nat →
    Option String
  | 0, _ => none
  | tries + 1, n =>
    let digits := (Nat.toDigits 36 (n * 7919 + 1000003)).map fun c =>
      if c = '*' then 'x' else c
    let middle := (digits ++ List.replicate letters 'q').take letters
    let name := start ++ String.ofList middle ++ ending
    if (t.lookup cwd false (decode name)).toOption.isNone then some name
    else freeName t cwd start ending letters tries (n + 1)

def mktemp (c : Call) : Effect :=
  let options := Options.ofLetters "dqut" "p"
    [("directory", 'd', .no), ("tmpdir", 'P', .attached), ("suffix", 's', .yes),
      ("dry-run", 'u', .no)]
  c.withOptions options fun given operands =>
    let inTemp := operands.isEmpty || has given 'p' || has given 'P' || has given 't'
    let template := operands.headD "tmp.XXXXXXXXXX"
    let folder := ((valueOf? given 'p').orElse fun _ => valueOf? given 'P').getD "/tmp"
    let template := if inTemp then inFolder folder template else template
    let cs := template.toList.reverse
    let ending := cs.takeWhile (· ≠ 'X')
    let marks := (cs.drop ending.length).takeWhile (· = 'X')
    if marks.length < 3 then c.fail 1 ("too few X's in template " ++ quotedPlainly template)
    else
      let start := String.ofList (cs.drop (ending.length + marks.length)).reverse
      let ending := String.ofList ending.reverse ++ (valueOf? given 's').getD ""
      match freeName c.tree c.cwd start ending marks.length 1000 1 with
      | none => c.fail 1 ("failed to create file via template " ++ quotedPlainly template)
      | some name =>
        let made := if has given 'u' then .ok c.tree
          else if has given 'd' then c.tree.makeFolder c.cwd (decode name)
          else (c.tree.createNew c.cwd (decode name)).map (·.2)
        match made with
        | .ok t => (c.idle.onTree t).say (name ++ "\n")
        | .error f =>
          let what := if has given 'd' then "directory" else "file"
          c.fail 1 ("failed to create " ++ what ++ " via template " ++
            quotedPlainly template ++ ": " ++ reason f)

/-! ## Modes -/

def modeOf (blob : Blob) : Nat := if blob.runnable then 0o755 else 0o644

/-- The permissions that letters name. -/
def modeBits (who : List Char) (what : List Char) (old : Nat) (isFolder : Bool) : Nat :=
  let everyone := who.isEmpty || who.contains 'a'
  let per := what.foldl (fun n c => match c with
    | 'r' => n ||| 4
    | 'w' => n ||| 2
    | 'x' => n ||| 1
    | 'X' => if isFolder || old &&& 0o111 ≠ 0 then n ||| 1 else n
    | 'u' => n ||| (old / 64 % 8)
    | 'g' => n ||| (old / 8 % 8)
    | 'o' => n ||| (old % 8)
    | _ => n) 0
  let masked := if who.isEmpty then per &&& 5 else per
  (if everyone || who.contains 'u' then per * 64 else 0) |||
    (if everyone || who.contains 'g' then masked * 8 else 0) |||
    (if everyone || who.contains 'o' then masked else 0)

def whoBits (who : List Char) : Nat :=
  if who.isEmpty || who.contains 'a' then 0o777
  else (if who.contains 'u' then 0o700 else 0) ||| (if who.contains 'g' then 0o070 else 0) |||
    (if who.contains 'o' then 0o007 else 0)

/-- The operations of one clause of a symbolic mode, after those whom it is about. -/
def clauseMode (who : List Char) (isFolder : Bool) : (fuel : Nat) → List Char → Nat → Option Nat
  | 0, _, _ => none
  | _ + 1, [], old => some old
  | fuel + 1, op :: rest, old =>
    if op ≠ '+' && op ≠ '-' && op ≠ '=' then none
    else
      let what := rest.takeWhile fun c => "rwxXstugo".toList.contains c
      let bits := modeBits who what old isFolder
      let new := match op with
        | '+' => old ||| bits
        | '-' => old - (old &&& bits)
        | _ => (old - (old &&& whoBits who)) ||| bits
      clauseMode who isFolder fuel (rest.drop what.length) new

/-- Permissions after a change. -/
def changedMode (isFolder : Bool) (change : String) (old : Nat) : Option Nat :=
  match Text.ofDigits? 8 change.toList with
  | some n => if n < 0o10000 then some n else none
  | none =>
    if change = "" then none
    else (Text.splitOn ',' change.toList).foldl
      (fun acc clause => acc.bind fun old =>
        let who := clause.takeWhile fun c => "ugoa".toList.contains c
        let ops := clause.drop who.length
        if ops.isEmpty then none else clauseMode who isFolder (ops.length + 1) ops old)
      (some old)

def modeLetters (mode : Nat) : String :=
  String.ofList ((List.range 9).map fun i =>
    if mode / Nat.pow 2 (8 - i) % 2 = 1 then ['r', 'w', 'x'].getD (i % 3) '-' else '-')

def modeDigits (mode : Nat) : String := Nat.repr (mode / 512 % 8) ++ octal3 mode

/-- A directory and all that is below it. -/
def below (t : Tree) : (fuel : Nat) → (path : String) → Loc → List (String × Loc)
  | 0, _, _ => []
  | fuel + 1, path, loc =>
    (path, loc) ::
      if t.isFolderAt loc then
        (sortedNames t loc).flatMap fun name =>
          let child := decode name :: loc
          if isLinkAt t child then [] else below t fuel (inFolder path name) child
      else []

def chmod (c : Call) : Effect :=
  let modeLike := fun (a : String) => match a.toList with
    | '-' :: d :: _ => "rwxXstugo".toList.contains d
    | _ => false
  let early := c.args.find? modeLike
  let args := match early with
    | some m => c.args.erase m
    | none => c.args
  let options := Options.ofLetters "Rvcf" ""
    [("recursive", 'R', .no), ("verbose", 'v', .no), ("changes", 'c', .no), ("silent", 'f', .no),
     ("quiet", 'f', .no)]
  { c with args }.withOptions options fun given operands =>
    let (mode, files) := match early, operands with
      | some m, files => (some m, files)
      | none, m :: files => (some m, files)
      | none, [] => (none, [])
    match mode with
    | none => c.missingOperand ""
    | some mode =>
      if files.isEmpty then c.misuse 1 ("missing operand after " ++ quotedPlainly mode)
      else if (changedMode false mode 0).isNone then
        c.misuse 1 ("invalid mode: " ++ quotedPlainly mode)
      else files.foldl
        (fun e arg =>
          match c.locate e.tree true arg with
          | .error f =>
            if has given 'f' then { e with status := 1 }
            else if isDangling c e.tree arg then
              e.complain 1 (c.name ++ ": cannot operate on dangling symlink " ++ quoted arg)
            else
              let e := e.complain 1 (c.name ++ ": cannot access " ++ quoted arg ++ ": " ++ reason f)
              if has given 'v' then e.say (quoted arg ++ " could not be accessed\n") else e
          | .ok loc =>
            let targets := if has given 'R' then below e.tree 1000 arg loc else [(arg, loc)]
            targets.foldl
              (fun e (path, loc) =>
                let isFolder := e.tree.isFolderAt loc
                let blob := e.tree.blobAt loc
                let old := if isFolder then 0o755 else modeOf blob
                let new := (changedMode isFolder mode old).getD old
                let e := match e.tree.blob? loc with
                  | some b => e.onTree (e.tree.setBlob loc { b with runnable := new &&& 0o111 ≠ 0 })
                  | none => e
                if old = new then
                  if has given 'v' then
                    e.say ("mode of " ++ quoted path ++ " retained as " ++ modeDigits old ++ " (" ++
                      modeLetters old ++ ")\n")
                  else e
                else if has given 'v' || has given 'c' then
                  e.say ("mode of " ++ quoted path ++ " changed from " ++ modeDigits old ++ " (" ++
                    modeLetters old ++ ") to " ++ modeDigits new ++ " (" ++
                      modeLetters new ++ ")\n")
                else e)
              e)
        c.idle
where
  /-- A symbolic link is there that leads nowhere. -/
  isDangling (c : Call) (t : Tree) (arg : String) : Bool :=
    match c.locate t false arg with
    | .ok loc => isLinkAt t loc
    | .error _ => false

/-! ## Copying -/

/-- What is done for a source and a target. -/
abbrev Pairing := Effect → (source target : String) → Effect

/-- The path of a source inside a directory. -/
def inside (folder source : String) : String :=
  let name := baseName source
  if name = ".." then folder else inFolder folder name

/-- Reads operands as sources and a destination, and does something to each pair. -/
def overPairs (c : Call) (given : List Given) (operands : List String) (lone : Option String)
    (intoLinks : Bool) (act : Pairing) : Effect :=
  let isTarget := fun (path : String) =>
    c.isFolder c.tree path &&
      (intoLinks || match c.locate c.tree false path with
        | .ok loc => !isLinkAt c.tree loc
        | .error _ => true)
  let folderFault := fun (path : String) =>
    match c.locate c.tree true path with
    | .error f => reason f
    | .ok _ => reason .notADirectory
  match valueOf? given 't' with
  | some folder =>
    if operands.isEmpty then c.missingOperand "file "
    else if !c.isFolder c.tree folder then
      c.fail 1 ("target directory " ++ quoted folder ++ ": " ++ folderFault folder)
    else operands.foldl (fun e source => act e source (inside folder source)) c.idle
  | none =>
    match operands with
    | [] => c.missingOperand "file "
    | [source] =>
      match lone with
      | some folder => act c.idle source (inside folder source)
      | none => c.misuse 1 ("missing destination file operand after " ++ quoted source)
    | _ =>
      let sources := operands.dropLast
      let target := operands.getLastD ""
      if has given 'T' then
        match sources with
        | [source] => act c.idle source target
        | _ => c.misuse 1 ("extra operand " ++ quotedPlainly (operands.getD 2 ""))
      else if isTarget target then
        sources.foldl (fun e source => act e source (inside target source)) c.idle
      else match sources with
        | [source] => act c.idle source target
        | _ => c.fail 1 ("target " ++ quoted target ++ ": " ++ folderFault target)

/-- How files are copied. -/
structure Copying where
  deep : Bool
  follow : Bool
  verbose : Bool
  careful : Bool
  asking : Bool
  /-- Copies are further names, or links. -/
  hard : Bool
  symbolic : Bool
  /-- Copies can be executed, or cannot, whatever the source is. -/
  runnable : Option Bool

def copyPath (c : Call) (how : Copying) (barred : Option Loc) :
    (fuel : Nat) → (follow : Bool) → Pairing
  | 0, _, e, _, _ => e
  | fuel + 1, follow, e, source, target =>
    let fail := fun (text : String) => e.complain 1 (c.name ++ ": " ++ text)
    match c.locate e.tree follow source with
    | .error f => fail ("cannot stat " ++ quoted source ++ ": " ++ reason f)
    | .ok loc =>
      let isFolder := e.tree.isFolderAt loc
      if isFolder && !how.deep then fail ("-r not specified; omitting directory " ++ quoted source)
      else
        let found := e.tree.resolve c.cwd true (decode target)
        let there : Except Fault (Option Loc) := match c.locate e.tree true target with
          | .ok loc => .ok (some loc)
          | .error f => if f = .notFound then .ok none else .error f
        match there with
        | .error f => fail ("cannot stat " ++ quoted target ++ ": " ++ reason f)
        | .ok there =>
          let same := there.any fun other =>
            loc = other || (!isFolder && e.tree.sameFile loc other)
          let verbose := fun (e : Effect) =>
            if how.verbose then e.say (quoted source ++ " -> " ++ quoted target ++ "\n") else e
          if same && !isFolder then
            fail (quoted source ++ " and " ++ quoted target ++ " are the same file")
          else if isFolder && there.any fun other => !e.tree.isFolderAt other then
            fail ("cannot overwrite non-directory " ++ quoted target ++ " with directory " ++
              quoted source)
          else if !isFolder && there.any fun other => e.tree.isFolderAt other then
            fail ("cannot overwrite directory " ++ quoted target ++ " with non-directory")
          else if !isFolder && how.careful && there.isSome then e
          else
            let (agreed, e) := if !isFolder && how.asking && there.isSome then
                c.ask e ("overwrite " ++ quoted target)
              else (true, e)
            let fail := fun (text : String) => e.complain 1 (c.name ++ ": " ++ text)
            if !agreed then { e with status := 1 }
            else if isFolder then
              let place : Option Loc := match found with
                | .ok a => some a.spot.loc
                | .error _ => none
              if place.any fun p => loc.isSuffixOf p then
                let names := sortedNames e.tree loc
                let made := if there.isSome then e
                  else match e.tree.makeFolder c.cwd (decode target) with
                    | .ok t => e.onTree t
                    | .error _ => e
                let filled := names.foldl
                  (fun e name =>
                    if some (decode name :: loc) = place then e
                    else copyPath c how place fuel (how.follow) e (inFolder source name)
                      (inFolder target name))
                  made
                filled.complain 1 (c.name ++ ": cannot copy a directory, " ++ quoted source ++
                  ", into itself, " ++ quoted target)
              else
                let made := if there.isSome then .ok e.tree
                  else e.tree.makeFolder c.cwd (decode target)
                match made with
                | .error f => fail ("cannot create directory " ++ quoted target ++ ": " ++ reason f)
                | .ok t =>
                  let e := e.onTree t
                  let e := if there.isSome then e else verbose e
                  (sortedNames e.tree loc).foldl
                    (fun e name =>
                      if barred = some (decode name :: loc) then e
                      else copyPath c how barred fuel how.follow e (inFolder source name)
                        (inFolder target name))
                    e
            else match e.tree.node? loc with
              | some (.link text) =>
                let cleared := match e.tree.removeFile c.cwd (decode target) with
                  | .ok t => t
                  | .error _ => e.tree
                match cleared.makeLink c.cwd (decode target) text with
                | .ok t => verbose (e.onTree t)
                | .error f =>
                    fail ("cannot create symbolic link " ++ quoted target ++ ": " ++ reason f)
              | _ =>
                let dangling := there.isNone && (match c.locate e.tree false target with
                  | .ok _ => true
                  | .error _ => false)
                if how.hard then
                  match e.tree.addName c.cwd (decode target) (decode source) with
                  | .ok t => verbose (e.onTree t)
                  | .error f =>
                    fail ("cannot create hard link " ++ quoted target ++ " to " ++
                      quoted source ++ ": " ++ reason f)
                else if how.symbolic then
                  match e.tree.makeLink c.cwd (decode target) (decode source) with
                  | .ok t => verbose (e.onTree t)
                  | .error f =>
                    fail ("cannot create symbolic link " ++ quoted target ++ " to " ++
                      quoted source ++ ": " ++ reason f)
                else if dangling then
                  fail ("not writing through dangling symlink " ++ quoted target)
                else
                  let blob := (e.tree.readAt loc).toOption.getD Blob.empty
                  match e.tree.writeLoc c.cwd (decode target) with
                  | .error f =>
                    let f := if f = .isADirectory then .notADirectory else f
                    fail ("cannot create regular file " ++ quoted target ++ ": " ++ reason f)
                  | .ok dest =>
                    let runnable := how.runnable.getD
                      (if there.isSome then (e.tree.blobAt dest).runnable else blob.runnable)
                    let opened := if (e.tree.device? dest).isSome then e.tree
                      else e.tree.setBlob dest ⟨ByteArray.empty, runnable⟩
                    match opened.extend dest blob.bytes with
                    | .ok t => verbose (e.onTree t)
                    | .error f =>
                      (e.onTree opened).complain 1 (c.name ++ ": error writing " ++ quoted target ++
                        ": " ++ reason f)

/-- The options that copying and moving share. -/
def pairOptions : List (String × Char × Valued) :=
  [("recursive", 'r', .no), ("archive", 'a', .no), ("force", 'f', .no), ("interactive", 'i', .no),
   ("no-clobber", 'n', .no), ("verbose", 'v', .no), ("target-directory", 't', .yes),
   ("no-target-directory", 'T', .no), ("update", 'u', .attached), ("preserve", 'p', .attached),
   ("link", 'l', .no), ("symbolic-link", 's', .no), ("dereference", 'L', .no),
   ("no-dereference", 'P', .no), ("parents", 'Y', .no), ("remove-destination", 'Z', .no),
   ("no-preserve", 'W', .yes)]

def cp (c : Call) : Effect :=
  c.withOptions (Options.ofLetters "rRafinvTulsdLPHpx" "tS" pairOptions) fun given operands =>
    let deep := has given 'r' || has given 'R' || has given 'a'
    let linkWise := given.foldl (fun acc g =>
      if g.letter = 'L' then some true
      else if g.letter = 'P' || g.letter = 'd' || g.letter = 'a' then some false
      else acc) none
    let follow := linkWise.getD (!deep)
    let how : Copying :=
      { deep, follow, verbose := has given 'v', careful := lastOf? given ['i', 'n'] = some 'n',
        asking := lastOf? given ['i', 'n'] = some 'i', hard := has given 'l',
        symbolic := has given 's', runnable := none }
    overPairs c given operands none true fun e source target =>
      copyPath c how none 1000 (follow || has given 'H') e source target

def install (c : Call) : Effect :=
  let options := Options.ofLetters "dDvTpsCc" "mogtS"
    [("directory", 'd', .no), ("mode", 'm', .yes), ("verbose", 'v', .no),
     ("target-directory", 't', .yes)]
  c.withOptions options fun given operands =>
    if has given 'd' then
      if operands.isEmpty then c.missingOperand "file "
      else operands.foldl
        (fun e arg =>
          match makeChain c e.tree [] (pathChain arg) with
          | (t, _, none) => e.onTree t
          | (t, _, some (path, f)) =>
            (e.onTree t).complain 1 (c.name ++ ": cannot create directory " ++
              quoted path ++ ": " ++ reason f))
        c.idle
    else
      let mode := (valueOf? given 'm').bind fun m => changedMode false m 0
      let how : Copying :=
        { deep := false, follow := true, verbose := has given 'v', careful := false,
          asking := false, hard := false, symbolic := false,
          runnable := some ((mode.getD 0o755) &&& 0o111 ≠ 0) }
      overPairs c given operands none true fun e source target =>
        if c.isFolder e.tree source then
          e.complain 1 (c.name ++ ": omitting directory " ++ quoted source)
        else
          let e := if has given 'D' then
              match makeChain c e.tree [] ((pathChain target).dropLast) with
              | (t, _, _) => e.onTree t
            else e
          copyPath c how none 1 true e source target

/-! ## Moving -/

def movePath (c : Call) (given : List Given) : Pairing := fun e source target =>
  let fail := fun (text : String) => e.complain 1 (c.name ++ ": " ++ text)
  match c.locate e.tree false source with
  | .error f => fail ("cannot stat " ++ quoted source ++ ": " ++ reason f)
  | .ok loc =>
    let isFolder := e.tree.isFolderAt loc
    let there : Except Fault (Option Loc) := match c.locate e.tree false target with
      | .ok loc => .ok (some loc)
      | .error f => if f = .notFound then .ok none else .error f
    match there with
    | .error f => fail ("cannot stat " ++ quoted target ++ ": " ++ reason f)
    | .ok there =>
      let same := there.any fun other => loc = other || (!isFolder && e.tree.sameFile loc other)
      let manner := lastOf? given ['f', 'i', 'n']
      let (agreed, e) := if manner = some 'i' && there.isSome && !same then
          c.ask e ("overwrite " ++ quoted target)
        else (true, e)
      let fail := fun (text : String) => e.complain 1 (c.name ++ ": " ++ text)
      if manner = some 'n' && there.isSome then e
      else if !agreed then { e with status := 1 }
      else if same then
        fail (quoted source ++ " and " ++ quoted target ++ " are the same file")
      else if isFolder && there.any fun other => !e.tree.isFolderAt other then
        fail ("cannot overwrite non-directory " ++ quoted target ++
          " with directory " ++ quoted source)
      else if !isFolder && there.any fun other => e.tree.isFolderAt other then
        fail ("cannot overwrite directory " ++ quoted target ++ " with non-directory")
      else match e.tree.rename c.cwd (decode source) (decode target) with
        | .ok t =>
          let e := e.onTree t
          if has given 'v' then
            e.say ("renamed " ++ quoted source ++ " -> " ++ quoted target ++ "\n")
          else e
        | .error f =>
          if f = .invalidArgument then
            fail ("cannot move " ++ quoted source ++
              " to a subdirectory of itself, " ++ quoted target)
          else if f = .notEmpty && there.isSome then
            fail ("cannot overwrite " ++ quoted target ++ ": " ++ reason f)
          else
            fail ("cannot move " ++ quoted source ++ " to " ++ quoted target ++ ": " ++ reason f)

def mv (c : Call) : Effect :=
  c.withOptions (Options.ofLetters "finvTu" "tS" pairOptions) fun given operands =>
    overPairs c given operands none true (movePath c given)

/-! ## Linking -/

def linkPath (c : Call) (given : List Given) : Pairing := fun e source target =>
  let fail := fun (text : String) => e.complain 1 (c.name ++ ": " ++ text)
  let symbolic := has given 's'
  let sourceLoc := c.locate e.tree (has given 'L') source
  match symbolic, sourceLoc with
  | false, .error f => fail ("failed to access " ++ quoted source ++ ": " ++ reason f)
  | _, _ =>
    let isFolder := match sourceLoc with
      | .ok loc => e.tree.isFolderAt loc
      | .error _ => false
    if !symbolic && isFolder then
      fail (shown source ++ ": hard link not allowed for directory")
    else
      let there := (c.locate e.tree false target).toOption
      let same := there.any fun other => match sourceLoc with
        | .ok loc => loc = other || (!symbolic && e.tree.sameFile loc other)
        | .error _ => false
      let asking := lastOf? given ['f', 'i'] = some 'i'
      let (agreed, e) := if asking && there.isSome && !same then
          c.ask e ("replace " ++ quoted target)
        else (true, e)
      let fail := fun (text : String) => e.complain 1 (c.name ++ ": " ++ text)
      let force := has given 'f' || asking
      if !agreed then { e with status := 1 }
      else if force && same then
        fail (quoted source ++ " and " ++ quoted target ++ " are the same file")
      else if force && there.any fun loc => e.tree.isFolderAt loc then
        fail (shown target ++ ": cannot overwrite directory")
      else
        let cleared := if force && there.isSome then
            ((e.tree.removeFile c.cwd (decode target)).toOption).getD e.tree
          else e.tree
        let result := if symbolic then cleared.makeLink c.cwd (decode target) (decode source)
          else cleared.addName c.cwd (decode target) (decode source)
        match result with
        | .ok t =>
          let e := e.onTree t
          if has given 'v' then
            e.say (quoted target ++ (if symbolic then " -> " else " => ") ++ quoted source ++ "\n")
          else e
        | .error f =>
          if symbolic then
            if source = "" || f = .nameTooLong then
              fail ("failed to create symbolic link " ++ quoted target ++ " -> " ++ quoted source ++
                ": " ++ reason f)
            else fail ("failed to create symbolic link " ++ quoted target ++ ": " ++ reason f)
          else if f = .alreadyExists then
            fail ("failed to create hard link " ++ quoted target ++ ": " ++ reason f)
          else
            fail ("failed to create hard link " ++ quoted target ++ " => " ++
              quoted source ++ ": " ++ reason f)

def ln (c : Call) : Effect :=
  let options := Options.ofLetters "sfvnTirLPFd" "tS"
    [("symbolic", 's', .no), ("force", 'f', .no), ("verbose", 'v', .no),
      ("no-dereference", 'n', .no),
     ("no-target-directory", 'T', .no), ("target-directory", 't', .yes), ("logical", 'L', .no),
     ("physical", 'P', .no), ("relative", 'r', .no)]
  c.withOptions options fun given operands =>
    if has given 'r' && !has given 's' then c.fail 1 "cannot do --relative without --symbolic"
    else overPairs c given operands (some ".") (!has given 'n') (linkPath c given)

def linkFile (c : Call) : Effect :=
  c.withOptions (Options.ofLetters "" "" []) fun _ operands =>
    match operands with
    | [] => c.missingOperand ""
    | [one] => c.misuse 1 ("missing operand after " ++ quotedPlainly one)
    | [source, target] =>
      match c.tree.addName c.cwd (decode target) (decode source) with
      | .ok t => c.idle.onTree t
      | .error f =>
        c.fail 1 ("cannot create link " ++ quoted target ++ " to " ++ quoted source ++
          ": " ++ reason f)
    | _ :: _ :: extra :: _ => c.misuse 1 ("extra operand " ++ quotedPlainly extra)

end Concolic.Utility
