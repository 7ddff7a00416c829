import Concolic.Utility.Files

/-
  Programs about names: of files, of programs, of variables, of the machine and its user.
-/

namespace Concolic.Utility

open Concolic.Text (encode decode)

/-! ## Paths -/

def withoutEnding (name ending : String) : String :=
  if ending ≠ "" && name ≠ ending && ending.toList.isSuffixOf name.toList then
    String.ofList (name.toList.take (name.length - ending.length))
  else name

def basename (c : Call) : Effect :=
  let options := Options.ofLetters "az" "s"
    [("multiple", 'a', .no), ("suffix", 's', .yes), ("zero", 'z', .no)]
  match readLeadingOptions options c.args with
  | .error e => c.misuse 1 e
  | .ok (given, operands) =>
    let close := if has given 'z' then "\x00" else "\n"
    if operands.isEmpty then c.misuse 1 "missing operand"
    else if has given 'a' || has given 's' then
      let ending := (valueOf? given 's').getD ""
      c.print (String.join (operands.map fun p => withoutEnding (baseName p) ending ++ close))
    else match operands with
      | [p] => c.print (baseName p ++ close)
      | [p, ending] => c.print (withoutEnding (baseName p) ending ++ close)
      | _ => c.misuse 1 ("extra operand " ++ quotedPlainly (operands.getD 2 ""))

def folderName (path : String) : String :=
  let cs := path.toList.reverse.dropWhile (· = '/')
  if cs.isEmpty then if path = "" then "." else "/"
  else
    let rest := (cs.dropWhile (· ≠ '/'))
    if rest.isEmpty then "."
    else
      let dir := rest.dropWhile (· = '/')
      if dir.isEmpty then "/" else String.ofList dir.reverse

def dirname (c : Call) : Effect :=
  match readLeadingOptions (Options.ofLetters "z" "" [("zero", 'z', .no)]) c.args with
  | .error e => c.misuse 1 e
  | .ok (given, operands) =>
    let close := if has given 'z' then "\x00" else "\n"
    if operands.isEmpty then c.misuse 1 "missing operand"
    else c.print (String.join (operands.map fun p => folderName p ++ close))

def locPath (loc : Loc) : String := "/" ++ "/".intercalate (loc.reverse.map encode)

def pwd (c : Call) : Effect :=
  c.withOptions (Options.ofLetters "LP" "" [("logical", 'L', .no), ("physical", 'P', .no)])
    fun _ operands =>
      let e := if operands.isEmpty then c.idle
        else c.idle.complain 0 (c.name ++ ": ignoring non-option arguments")
      e.say (locPath c.cwd ++ "\n")

/-- Walks on where nothing is. -/
def looseWalk (t : Tree) : (fuel : Nat) → Loc → List String → Loc
  | 0, dir, _ => dir
  | _ + 1, dir, [] => dir
  | fuel + 1, dir, "." :: rest => looseWalk t fuel dir rest
  | fuel + 1, dir, ".." :: rest => looseWalk t fuel dir.tail rest
  | fuel + 1, dir, name :: rest =>
    match t.node? (name :: dir) with
    | some (.link target) =>
      let r := Path.route target
      looseWalk t fuel (if r.absolute then [] else dir) (r.steps ++ rest)
    | _ => looseWalk t fuel (name :: dir) rest

/-- How much of a path must exist. -/
inductive Existing where
  | all
  | allButLast
  | nothing
  deriving DecidableEq

/-- The place that a path leads to. -/
def canonical (c : Call) (need : Existing) (path : String) : Except Fault Loc :=
  let r := Path.route (decode path)
  let start : Loc := if r.absolute then [] else c.cwd
  match need with
  | .all => c.locate c.tree true path
  | .nothing =>
    if path = "" then .error .notFound
    else .ok (looseWalk c.tree 1000 start r.steps)
  | .allButLast =>
    match c.tree.resolve c.cwd true (decode path) with
    | .error f => .error f
    | .ok a => .ok a.spot.loc

def readlink (c : Call) : Effect :=
  let options := Options.ofLetters "femnqsvz" ""
    [("canonicalize", 'f', .no), ("canonicalize-existing", 'e', .no),
     ("canonicalize-missing", 'm', .no), ("no-newline", 'n', .no), ("verbose", 'v', .no)]
  c.withOptions options fun given operands =>
    if operands.isEmpty then c.misuse 1 "missing operand"
    else
      let ending := if has given 'n' && operands.length = 1 then "" else "\n"
      operands.foldl
        (fun e path =>
          let found : Except Fault String :=
            if has given 'f' || has given 'e' || has given 'm' then
              let need : Existing := if has given 'e' then .all
                else if has given 'm' then .nothing else .allButLast
              (canonical c need path).map locPath
            else match c.locate c.tree false path with
              | .error f => .error f
              | .ok loc => match c.tree.node? loc with
                | some (.link text) => .ok (encode text)
                | _ => .error .invalidArgument
          match found with
          | .ok text => e.say (text ++ ending)
          | .error f =>
            if has given 'v' then e.complain 1 (c.name ++ ": " ++ plainComplaint path f)
            else { e with status := 1 })
        c.idle

/-- A path from one place to another. -/
def relativePath (base loc : Loc) : String :=
  let a := base.reverse
  let b := loc.reverse
  let common := ((a.zip b).takeWhile fun p => p.1 = p.2).length
  let steps := List.replicate (a.length - common) ".." ++ (b.drop common).map encode
  if steps.isEmpty then "." else "/".intercalate steps

def realpath (c : Call) : Effect :=
  let options := Options.ofLetters "emLPqsz" ""
    [("canonicalize-existing", 'e', .no), ("canonicalize-missing", 'm', .no), ("quiet", 'q', .no),
     ("strip", 's', .no), ("no-symlinks", 's', .no), ("relative-to", 'R', .yes),
     ("relative-base", 'B', .yes)]
  c.withOptions options fun given operands =>
    if operands.isEmpty then c.misuse 1 "missing operand"
    else operands.foldl
      (fun e path =>
        let need : Existing := if has given 'e' then .all
          else if has given 'm' then .nothing else .allButLast
        match canonical c need path with
        | .error f =>
          if has given 'q' then { e with status := 1 }
          else e.complain 1 (c.name ++ ": " ++ plainComplaint path f)
        | .ok loc =>
          match (valueOf? given 'R').bind fun base => (canonical c need base).toOption with
          | some base => e.say (relativePath base loc ++ "\n")
          | none => e.say (locPath loc ++ "\n"))
      c.idle

/-! ## Programs and variables -/

def which (c : Call) : Effect :=
  let folders := (Text.splitOn ':' ((c.environment.lookup "PATH").getD "").toList).map String.ofList
  let isProgram := fun (path : String) =>
    match c.locate c.tree true path with
    | .ok loc => (c.tree.blob? loc).any fun b => b.runnable
    | .error _ => false
  let names := c.args.filter fun a => a ≠ "-a" && a ≠ "-s"
  if names.isEmpty then { c.idle with status := 1 }
  else names.foldl
    (fun e name =>
      let candidates := if name.toList.contains '/' then [name]
        else folders.map fun dir => inFolder (if dir = "" then "." else dir) name
      let found := candidates.filter isProgram
      let found := if c.args.contains "-a" then found else found.take 1
      if found.isEmpty then { e with status := 1 }
      else if c.args.contains "-s" then e
      else e.say (String.join (found.map (· ++ "\n"))))
    c.idle

def printenv (c : Call) : Effect :=
  match readLeadingOptions (Options.ofLetters "0" "" [("null", '0', .no)]) c.args with
  | .error e => c.misuse 2 e
  | .ok (given, names) =>
    let ending := if has given '0' then "\x00" else "\n"
    if names.isEmpty then
      c.print (String.join (c.environment.map fun v => v.1 ++ "=" ++ v.2 ++ ending))
    else names.foldl
      (fun e name => match c.environment.lookup name with
        | some v => e.say (v ++ ending)
        | none => { e with status := 1 })
      c.idle

/-! ## The machine -/

/-- A program that takes no operands. -/
def withoutOperands (c : Call) (o : Options) (run : List Given → Effect) : Effect :=
  c.withOptions o fun given operands =>
    match operands with
    | [] => run given
    | extra :: _ => c.misuse 1 ("extra operand " ++ quotedPlainly extra)

/-- The program `id`, on a machine whose user is its administrator. -/
def identity (c : Call) : Effect :=
  let options := Options.ofLetters "ugGnrza" ""
    [("user", 'u', .no), ("group", 'g', .no), ("groups", 'G', .no), ("name", 'n', .no),
     ("real", 'r', .no), ("zero", 'z', .no)]
  c.withOptions options fun given operands =>
    let choices := "ugG".toList.filter fun l => has given l
    match operands.find? (· ≠ "root") with
    | some other => c.fail 1 (quotedPlainly other ++ ": no such user")
    | none =>
      if 1 < choices.length then c.fail 1 "cannot print \"only\" of more than one choice"
      else if choices.isEmpty then
        if has given 'n' || has given 'r' then
          c.fail 1 "cannot print only names or real IDs in default format"
        else c.print "uid=0(root) gid=0(root) groups=0(root)\n"
      else c.print (if has given 'n' then "root\n" else "0\n")

def whoami (c : Call) : Effect :=
  withoutOperands c (Options.ofLetters "" "" []) fun _ => c.print "root\n"

def groups (c : Call) : Effect :=
  c.withOptions (Options.ofLetters "" "" []) fun _ operands =>
    if operands.isEmpty then c.print "root\n"
    else operands.foldl
      (fun e user =>
        if user = "root" then e.say "root : root\n"
        else e.complain 1 (c.name ++ ": " ++ quotedPlainly user ++ ": no such user"))
      c.idle

def arch (c : Call) : Effect :=
  withoutOperands c (Options.ofLetters "" "" []) fun _ => c.print "x86_64\n"

/-- The program `uname`.  The machine keeps its name and the version of its system to itself. -/
def uname (c : Call) : Effect :=
  let options := Options.ofLetters "smpio" ""
    [("kernel-name", 's', .no), ("machine", 'm', .no), ("processor", 'p', .no),
     ("operating-system", 'o', .no)]
  withoutOperands c options fun given =>
    let parts := (if has given 's' then ["Linux"] else []) ++
      ((given.filter fun g => "mpi".toList.contains g.letter).map fun _ => "x86_64") ++
      (if has given 'o' then ["GNU/Linux"] else [])
    c.print (" ".intercalate (if given.isEmpty then ["Linux"] else parts) ++ "\n")

/-- The program `tty`, on a machine without terminals. -/
def tty (c : Call) : Effect :=
  withoutOperands c (Options.ofLetters "s" "" [("silent", 's', .no), ("quiet", 's', .no)])
    fun given =>
      let e := if has given 's' then c.idle else c.print "not a tty\n"
      { e with status := 1 }

/-- The program `sync`: what is written is already where it stays. -/
def syncFiles (c : Call) : Effect :=
  c.withOptions (Options.ofLetters "df" "" [("data", 'd', .no), ("file-system", 'f', .no)])
    fun _ operands => operands.foldl
      (fun e path =>
        match c.locate e.tree true path with
        | .ok _ => e
        | .error f =>
          e.complain 1 (c.name ++ ": error opening " ++ quoted path ++ ": " ++ reason f))
      c.idle

/-- What a letter asks about a file. -/
def statField (c : Call) (path : String) (loc : Loc) (letter : Char) : String :=
  let blob := c.tree.blobAt loc
  let (size, kind, mode) := match c.tree.node? loc with
    | some (.link text) => ((encode text).length, "symbolic link", 0o777)
    | some .folder => (4096, "directory", 0o755)
    | some .sealed => (0, "directory", 0o555)
    | some (.device _) => (0, "character special file", 0o666)
    | _ =>
      (blob.bytes.size, if blob.bytes.size = 0 then "regular empty file" else "regular file",
        modeOf blob)
  match letter with
  | 'n' => path
  | 'N' => quoted path
  | 's' => Nat.repr size
  | 'F' => kind
  | 'a' => String.ofList (Nat.toDigits 8 mode)
  | 'A' => (if kind = "directory" then "d" else if kind = "symbolic link" then "l" else "-") ++
      modeLetters mode
  | 'U' => "root"
  | 'G' => "root"
  | 'u' => "0"
  | 'g' => "0"
  | 'h' => "1"
  | '%' => "%"
  | _ => "0"

/-- A text with places for what is known of a file. -/
def statFormat (c : Call) (path : String) (loc : Loc) (escapes : Bool) (acc : String) :
    List Char → String
  | '%' :: letter :: rest =>
    statFormat c path loc escapes (acc ++ statField c path loc letter) rest
  | '\\' :: 'n' :: rest =>
    statFormat c path loc escapes (acc ++ (if escapes then "\n" else "\\n")) rest
  | '\\' :: 't' :: rest =>
    statFormat c path loc escapes (acc ++ (if escapes then "\t" else "\\t")) rest
  | ch :: rest => statFormat c path loc escapes (acc.push ch) rest
  | [] => acc

def stat (c : Call) : Effect :=
  let options := Options.ofLetters "Lft" "c"
    [("format", 'c', .yes), ("printf", 'P', .yes), ("dereference", 'L', .no), ("terse", 't', .no)]
  c.withOptions options fun given operands =>
    if operands.isEmpty then c.misuse 1 "missing operand"
    else operands.foldl
      (fun e path =>
        match c.locate c.tree (has given 'L') path with
        | .error f =>
          e.complain 1 (c.name ++ ": cannot statx " ++ quoted path ++ ": " ++ reason f)
        | .ok loc =>
          match valueOf? given 'P', valueOf? given 'c' with
          | some form, _ => e.say (statFormat c path loc true "" form.toList)
          | none, some form => e.say (statFormat c path loc false "" form.toList ++ "\n")
          | none, none => e.say ("  File: " ++ path ++ "\n"))
      c.idle

end Concolic.Utility
