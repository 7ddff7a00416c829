import Concolic.Shell.Eval
import Concolic.Utility.Numbers

/-
  Programs that run other programs: with another environment, for a limited time, or with arguments
  that are read from the standard input.
-/

namespace Concolic.Shell

open Concolic.Text (decode)

/-- How a program was called. -/
structure Setup where
  /-- How the running program was called, for its complaints. -/
  caller : String
  environment : List (String × String)

/-- The program that a name stands for.  A file that has no known form is a script. -/
def Setup.find (u : Setup) (s : State) (name : String) (args : List String) : Except Fault Image :=
  let path := (u.environment.lookup "PATH").getD "/bin:/usr/bin"
  match Image.find s.world.tree s.shell.cwd path name args with
  | .error f =>
    if f = .execFormat then
      let file := if name.toList.contains '/' then some name
        else ((Image.searchFolders path).map fun dir => Utility.inFolder dir name).find? fun p =>
          s.world.tree.hasEntry s.shell.cwd (decode p)
      match file with
      | some file => .ok ⟨"sh", "/bin/sh", file :: args⟩
      | none => .error f
    else .error f
  | found => found

/-- The status for a program that cannot be run. -/
def missingStatus (f : Fault) : Nat := if f = .notFound then 127 else 126

def Setup.complain (u : Setup) (status : Nat) (text : String) (s : State) : State :=
  (s.printError (u.caller ++ ": " ++ text ++ "\n")).withStatus status

def Setup.misuse (u : Setup) (status : Nat) (text : String) (s : State) : State :=
  u.complain status (text ++ "\nTry '" ++ u.caller ++ " --help' for more information.") s

/-- Becomes another program.  `complaint` says what is told about one that cannot be run. -/
def Setup.become (u : Setup) (r : Runner) (complaint : String → String) (words : List String)
    (s : State) : State :=
  match words with
  | [] => s.withStatus 0
  | name :: args =>
    match u.find s name args with
    | .ok image => r.program image u.environment s
    | .error f => u.complain (missingStatus f) (complaint name ++ ": " ++ Utility.reason f) s

/-- Runs another program and waits for it; the end by a signal is a status. -/
def Setup.spawn (u : Setup) (r : Runner) (name : String) (args : List String) (s : State) :
    Except Fault State := do
  let image ← u.find s name args
  let after := r.program image u.environment s
  match after.shell.flow with
  | .killed n => return (after.withFlow .normal).withStatus (128 + n)
  | _ => return after

/-! ## Another environment -/

/-- The environment after assignments at the start of words, and the words after them. -/
def assignLeading (env : List (String × String)) : List String →
    List (String × String) × List String
  | [] => (env, [])
  | word :: rest =>
    if word.toList.contains '=' then
      let name := String.ofList (word.toList.takeWhile (· ≠ '='))
      let value := String.ofList ((word.toList.dropWhile (· ≠ '=')).drop 1)
      let env := if env.any fun e => e.1 = name then
          env.map fun e => if e.1 = name then (name, value) else e
        else env ++ [(name, value)]
      assignLeading env rest
    else (env, word :: rest)

def splitWords (text : String) : List String :=
  ((Text.splitOn ' ' (text.toList.map fun c => if c = '\t' || c = '\n' then ' ' else c)).filter
    (!·.isEmpty)).map String.ofList

/-- The arguments with those put in that a text among the options stands for. -/
def unfoldArguments : List String → List String
  | "-S" :: text :: rest => splitWords text ++ rest
  | arg :: rest =>
    match arg.toList with
    | '-' :: 'S' :: text => splitWords (String.ofList text) ++ rest
    | '-' :: _ => arg :: unfoldArguments rest
    | _ => arg :: rest
  | [] => []

def runEnv (u : Setup) (r : Runner) (args : List String) (s : State) : State :=
  let options : Utility.Options :=
    Utility.Options.ofLetters "i0v" "uC" [("ignore-environment", 'i', .no), ("null", '0', .no),
      ("unset", 'u', .yes), ("chdir", 'C', .yes), ("debug", 'v', .no)]
  match Utility.readLeadingOptions options (unfoldArguments args) with
  | .error e => u.misuse 125 e s
  | .ok (given, words) =>
    let removed := (given.filter fun g => g.letter = 'u').filterMap (·.value)
    let bare := words.head? = some "-"
    let env := if bare || Utility.has given 'i' then []
      else u.environment.filter fun e => !removed.contains e.1
    let (env, words) := assignLeading env (if bare then words.tail else words)
    if words.isEmpty then
      let mark := if Utility.has given '0' then "\x00" else "\n"
      let text := String.join (env.map fun e => e.1 ++ "=" ++ e.2 ++ mark)
      s.absorb "env" u.caller
        { Utility.Effect.none s.world.tree with printed := [(false, text)] }
    else
      let inside : Except Fault Loc := match Utility.valueOf? given 'C' with
        | none => .ok s.shell.cwd
        | some dir =>
          match s.world.tree.lookup s.shell.cwd true (decode dir) with
          | .ok loc => if s.world.tree.isFolderAt loc then .ok loc else .error .notADirectory
          | .error f => .error f
      match inside with
      | .error f =>
        u.complain 125 ("cannot change directory to " ++
          Utility.quoted ((Utility.valueOf? given 'C').getD "") ++ ": " ++ Utility.reason f) s
      | .ok cwd =>
        let outer := s.shell.cwd
        let complaint := fun (name : String) => Utility.quoted name
        let hint := match words with
          | name :: _ => name.toList.contains ' ' &&
            ((u.find s name []).toOption).isNone
          | [] => false
        let s := { u with environment := env }.become r complaint words
          (s.withShell fun sh => { sh with cwd })
        let s := if hint && s.shell.status = 127 then
            s.printError (u.caller ++ ": use -[v]S to pass options in shebang lines\n")
          else s
        s.withShell fun sh => { sh with cwd := outer }

/-! ## Other circumstances -/

def runNice (u : Setup) (r : Runner) (args : List String) (s : State) : State :=
  let args := args.map fun a => match a.toList with
    | '-' :: d :: ds => if d.isDigit then "-n" ++ String.ofList (d :: ds) else a
    | _ => a
  match Utility.readLeadingOptions
      (Utility.Options.ofLetters "" "n" [("adjustment", 'n', .yes)]) args with
  | .error e => u.misuse 125 e s
  | .ok (given, words) =>
    match Utility.valueOf? given 'n' with
    | some n =>
      if (Text.signed? n.toList).isNone then
        u.complain 125 ("invalid adjustment " ++ Utility.quoted n) s
      else if words.isEmpty then u.misuse 125 "a command must be given with an adjustment" s
      else u.become r Utility.quoted words s
    | none =>
      if words.isEmpty then
        s.absorb "nice" u.caller
          { Utility.Effect.none s.world.tree with printed := [(false, "0\n")] }
      else u.become r Utility.quoted words s

/-- Runs a program as it is. -/
def runPlainly (u : Setup) (r : Runner) (options : Utility.Options) (complaint : String → String)
    (args : List String) (s : State) : State :=
  match Utility.readLeadingOptions options args with
  | .error e => u.misuse 125 e s
  | .ok (_, []) => u.misuse 125 "missing operand" s
  | .ok (_, words) => u.become r complaint words s

def runTimeout (u : Setup) (r : Runner) (args : List String) (s : State) : State :=
  let options := Utility.Options.ofLetters "v" "sk"
    [("signal", 's', .yes), ("kill-after", 'k', .yes), ("preserve-status", 'p', .no),
     ("foreground", 'f', .no), ("verbose", 'v', .no)]
  let hint := fun (s : State) =>
    (s.printError ("Try '" ++ u.caller ++ " --help' for more information.\n")).withStatus 125
  match Utility.readLeadingOptions options args with
  | .error e => u.misuse 125 e s
  | .ok (_, []) => hint s
  | .ok (_, [_]) => hint s
  | .ok (given, duration :: name :: words) =>
    let signal := match Utility.valueOf? given 's' with
      | some text => signal? text
      | none => some 15
    match Utility.interval? duration, signal with
    | _, none =>
      u.misuse 125 (Utility.quoted ((Utility.valueOf? given 's').getD "") ++ ": invalid signal") s
    | none, _ => u.misuse 125 ("invalid time interval " ++ Utility.quoted duration) s
    | some time, some signal =>
      match u.find s name words with
      | .error f =>
        u.complain (missingStatus f)
          ("failed to run command " ++ Utility.quoted name ++ ": " ++ Utility.reason f) s
      | .ok image =>
        let outer := s.world.limit
        let own := s.world.clock + time
        let sooner := time ≠ 0 && outer.all fun l => own < l
        if !sooner then r.program image u.environment s
        else
          let after := r.program image u.environment
            (s.withWorld fun w => { w with limit := some own })
          let after := after.withWorld fun w => { w with limit := outer }
          match after.shell.flow with
          | .late =>
            let after := after.atTime own
            if signal = 9 then after.withFlow (.killed 9)
            else (after.withFlow .normal).withStatus
              (if Utility.has given 'p' then 128 + signal else 124)
          | _ => after

/-! ## Arguments from the standard input -/

/-- Splits a text into arguments at blanks, with quotes and backslashes, or says what is wrong.
    `word` is the argument that is being read, last character first. -/
def quotedArguments (acc : List String) (word : Option (List Char)) (quote : Option Char) :
    List Char → Except String (List String)
  | [] =>
    match quote with
    | some q =>
      .error ("unmatched " ++ (if q = '\'' then "single" else "double") ++
        " quote; by default quotes are special to xargs unless you use the -0 option")
    | none => .ok (close acc word).reverse
  | c :: rest =>
    match quote with
    | some q =>
      if c = q then quotedArguments acc word none rest
      else if c = '\n' then
        .error ("unmatched " ++ (if q = '\'' then "single" else "double") ++
          " quote; by default quotes are special to xargs unless you use the -0 option")
      else quotedArguments acc (some (c :: word.getD [])) quote rest
    | none =>
      if c = '\'' || c = '"' then quotedArguments acc (some (word.getD [])) (some c) rest
      else if c = ' ' || c = '\t' || c = '\n' then quotedArguments (close acc word) none none rest
      else if c = '\\' then
        match rest with
        | d :: rest => quotedArguments acc (some (d :: word.getD [])) none rest
        | [] => quotedArguments acc word none []
      else quotedArguments acc (some (c :: word.getD [])) none rest
where
  /-- The arguments with the one that was read. -/
  close (acc : List String) (word : Option (List Char)) : List String :=
    match word with
    | some cs => String.ofList cs.reverse :: acc
    | none => acc

def inGroups (size : Nat) : (fuel : Nat) → List String → List (List String)
  | 0, _ => []
  | _ + 1, [] => []
  | fuel + 1, args => args.take size :: inGroups size fuel (args.drop size)

def replaceMark (mark new : List Char) : (fuel : Nat) → List Char → List Char
  | 0, cs => cs
  | _ + 1, [] => []
  | fuel + 1, c :: cs =>
    if !mark.isEmpty && mark.isPrefixOf (c :: cs) then
      new ++ replaceMark mark new fuel ((c :: cs).drop mark.length)
    else c :: replaceMark mark new fuel cs

/-- Runs commands one after the other, for as long as none fails badly.  `worst` is the status so
    far. -/
def runBatches (u : Setup) (r : Runner) (show_ : Bool) (worst : Nat) :
    List (List String) → State → State
  | [], s => s.withStatus worst
  | [] :: rest, s => runBatches u r show_ worst rest s
  | (name :: args) :: rest, s =>
    let outer := s.shell.descriptors
    let s := if show_ then s.printError (" ".intercalate (name :: args) ++ "\n") else s
    let child := s.openAs 0 ⟨.device .null, 0, true, false, false⟩
    match u.spawn r name args child with
    | .error f =>
      (u.complain (missingStatus f) (name ++ ": " ++ Utility.reason f) child).withShell
        fun sh => { sh with descriptors := outer }
    | .ok after =>
      let after := after.withShell fun sh => { sh with descriptors := outer }
      let status := after.shell.status
      if !after.isNormal then after
      else if status = 255 then
        u.complain 124 (name ++ ": exited with status 255; aborting") after
      else if 128 < status then
        u.complain 125 (name ++ ": terminated by signal " ++ Nat.repr (status - 128)) after
      else runBatches u r show_ (if status = 0 then worst else 123) rest after

def runXargs (u : Setup) (r : Runner) (args : List String) (s : State) : State :=
  let options := Utility.Options.ofLetters "0rtxp" "nILPdsaE"
    [("null", '0', .no), ("no-run-if-empty", 'r', .no), ("verbose", 't', .no), ("exit", 'x', .no),
     ("max-args", 'n', .yes), ("replace", 'I', .yes), ("max-lines", 'L', .yes),
     ("max-procs", 'P', .yes), ("delimiter", 'd', .yes), ("max-chars", 's', .yes),
     ("arg-file", 'a', .yes)]
  match Utility.readLeadingOptions options args with
  | .error e => u.misuse 1 e s
  | .ok (given, words) =>
    let words := if words.isEmpty then ["echo"] else words
    let number := fun (letter : Char) => (Utility.valueOf? given letter).map fun v =>
      (v, Text.ofDigits? 10 v.toList)
    let bad := ['n', 'L'].findSome? fun l => (number l).bind fun (v, n) =>
      match n with
      | some 0 => some ("value 0 for -" ++ String.singleton l ++ " option should be >= 1")
      | some _ => none
      | none => some ("invalid number \"" ++ v ++ "\" for -" ++ String.singleton l ++ " option")
    match bad with
    | some text => u.misuse 1 text s
    | none =>
      let input : Except Fault String := match Utility.valueOf? given 'a' with
        | some path => (s.world.tree.readBlob s.shell.cwd (decode path)).map fun b =>
          Text.octets b.bytes
        | none => (s.available 0).map (·.1)
      match input with
      | .error f =>
        u.complain 1 (match Utility.valueOf? given 'a' with
          | some path => "Cannot open input file " ++ Utility.quoted path ++ ": " ++
              Utility.reason f
          | none => Utility.reason f) s
      | .ok text =>
        let s := if (Utility.valueOf? given 'a').isSome then s else s.taken .all
        let cs := text.toList
        let separator : Option Char := if Utility.has given '0' then some '\x00'
          else (Utility.valueOf? given 'd').bind fun d => match d.toList with
            | ['\\', 'n'] => some '\n'
            | ['\\', 't'] => some '\t'
            | ['\\', '0'] => some '\x00'
            | c :: _ => some c
            | [] => none
        let separated := fun (c : Char) =>
          let parts := Text.splitOn c cs
          (if parts.getLast? = some [] then parts.dropLast else parts).map String.ofList
        let mark := Utility.valueOf? given 'I'
        let items : Except String (List String) := match separator, mark with
          | some c, _ => .ok (separated c)
          | none, some _ =>
            .ok (((Utility.linesOf text).1.map fun l => String.ofList (l.dropWhile fun c =>
              c = ' ' || c = '\t')).filter (· ≠ ""))
          | none, none => quotedArguments [] none none cs
        match items with
        | .error e => u.complain 1 e s
        | .ok items =>
          let batches : List (List String) := match mark, number 'L', number 'n' with
            | some m, _, _ => items.map fun item => words.map fun w =>
              String.ofList (replaceMark m.toList item.toList (w.length + 1) w.toList)
            | none, some (_, some n), _ =>
              let lines := ((Utility.linesOf text).1.map String.ofList).filter
                fun l => !(splitWords l).isEmpty
              (inGroups n (lines.length + 1) lines).map fun ls =>
                words ++ ls.flatMap splitWords
            | none, _, some (_, some n) =>
              (inGroups n (items.length + 1) items).map fun b => words ++ b
            | none, _, _ =>
              if items.isEmpty then [] else [words ++ items]
          let batches := if batches.isEmpty && mark.isNone && !Utility.has given 'r' then [words]
            else batches
          if s.isNormal then runBatches u r (Utility.has given 't') 0 batches s else s

end Concolic.Shell
