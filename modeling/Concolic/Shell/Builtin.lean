import Concolic.Shell.Expand
import Concolic.Shell.Signal
import Concolic.Utility.Test

/-
  The commands that the shell itself carries out and that run no other command.
-/

namespace Concolic.Shell

open Concolic.Text (encode decode)
open Concolic.Utility (Flavor)

/-- The state after a command; a failure ends the script if the command is a special one. -/
structure Outcome where
  state : State
  /-- It could not do its work at all. -/
  failed : Bool

def State.done (s : State) (status : Nat) : Outcome := ⟨s.withStatus status, false⟩

/-- The command could not do its work. -/
def State.refuse (s : State) (name text : String) : Outcome :=
  let status := if s.shell.dialect = .extended then 1 else 2
  ⟨(s.warnAs name text).withStatus status, true⟩

/-- Failed with a complaint, but goes on in any case. -/
def State.grumble (s : State) (name text : String) (status : Nat) : Outcome :=
  ⟨(s.warnAs name text).withStatus status, false⟩

def State.say (s : State) (name text : String) (status : Nat) : Outcome :=
  match (if text = "" then .ok s else s.write 1 text : Except Fault State) with
  | .ok s => s.done status
  | .error f =>
    if s.shell.dialect = .extended then
      s.grumble name ("write error: " ++ Utility.reason f) 1
    else s.grumble name (name ++ ": I/O error") (status ||| 1)

def State.flavor (s : State) : Flavor :=
  if s.shell.dialect = .extended then .extended else .plain

def natural? (text : String) : Option Nat := Text.ofDigits? 10 text.toList

/-- A number that is not negative, as commands take it: with blanks around it and a sign. -/
def count? (text : String) : Option Nat :=
  let isGap := fun (c : Char) => c = ' ' || ('\t' ≤ c && c ≤ '\r')
  let cs := ((text.toList.dropWhile isGap).reverse.dropWhile isGap).reverse
  match Text.signed? cs with
  | some v => if 0 ≤ v && v < Int.pow 2 31 then some v.toNat else none
  | none => none

def singleQuotedText (text : String) : String :=
  "'" ++ String.join (text.toList.map fun c =>
    if c = '\'' then "'\"'\"'" else String.singleton c) ++ "'"

/-! ## Options -/

/-- The options, each with its letter. -/
def optionNames : List (String × Char) :=
  [("errexit", 'e'), ("noglob", 'f'), ("ignoreeof", 'I'), ("interactive", 'i'), ("monitor", 'm'),
   ("noexec", 'n'), ("stdin", 's'), ("xtrace", 'x'), ("verbose", 'v'), ("vi", 'V'), ("emacs", 'E'),
   ("noclobber", 'C'), ("allexport", 'a'), ("notify", 'b'), ("nounset", 'u'), ("privileged", 'p'),
   ("nolog", '\x01'), ("debug", '\x02')]

def optionOrder : List Char := optionNames.map (·.2)

/-- Turns an option on or off. -/
def State.setOption (s : State) (c : Char) (on : Bool) : State :=
  s.withShell fun sh =>
    let others := sh.options.filter (· ≠ c)
    let options := if on then c :: others else others
    { sh with options := optionOrder.filter fun c => options.contains c }

/-- Options at the start of arguments: the state with them set, what follows them, whether they were
    followed by an end mark, or the option that there is none of. -/
def readSetOptions (s : State) : (fuel : Nat) → List String →
    Except String (State × List String × Bool)
  | 0, args => .ok (s, args, false)
  | _ + 1, [] => .ok (s, [], false)
  | fuel + 1, arg :: rest =>
    match arg.toList with
    | ['-', '-'] => .ok (s, rest, true)
    | ['-'] => .ok ((s.setOption 'x' false).setOption 'v' false, rest, !rest.isEmpty)
    | sign :: c :: letters =>
      if sign ≠ '-' && sign ≠ '+' then .ok (s, arg :: rest, false)
      else
        let on := sign = '-'
        let (names, rest) := if (c :: letters).contains 'o' then (rest.take 1, rest.drop 1)
          else ([], rest)
        let letterResult := (c :: letters).foldl
          (fun acc c => match acc with
            | .error e => .error e
            | .ok s =>
              if c = 'o' then .ok s
              else if (optionNames.any fun o => o.2 = c) || c = 'c' || c = 'l' then
                .ok (State.setOption s c on)
              else .error ("Illegal option " ++ String.singleton sign ++ String.singleton c))
          (Except.ok s)
        match letterResult with
        | .error e => .error e
        | .ok s =>
          match names with
          | [] => readSetOptions s fuel rest
          | name :: _ =>
            if name = "pipefail" && s.shell.dialect = .extended then
              readSetOptions (s.withShell fun sh => { sh with pipefail := on }) fuel rest
            else match optionNames.lookup name with
              | some c => readSetOptions (s.setOption c on) fuel rest
              | none => .error ("Illegal option " ++ String.singleton sign ++ "o " ++ name)
    | _ => .ok (s, arg :: rest, false)

def optionTable (s : State) : String :=
  "Current option settings\n" ++ String.join (optionNames.map fun (name, c) =>
    name ++ String.ofList (List.replicate (16 - name.length) ' ') ++
      (if s.has c then "on" else "off") ++ "\n")

def optionCommands (s : State) : String :=
  String.join (optionNames.map fun (name, c) =>
    "set " ++ (if s.has c then "-o " else "+o ") ++ name ++ "\n")

def variableTable (s : State) : String :=
  let vs := s.shell.bindings.filterMap fun (name, v) => v.value.map fun value => (name, value)
  String.join ((vs.mergeSort fun a b => a.1 ≤ b.1).map fun (name, value) =>
    name ++ "=" ++ singleQuotedText value ++ "\n")

def setCommand (args : List String) (s : State) : Outcome :=
  match args with
  | [] => s.say "set" (variableTable s) 0
  | ["-o"] => s.say "set" (optionTable s) 0
  | ["+o"] => s.say "set" (optionCommands s) 0
  | _ =>
    match readSetOptions s (args.length + 1) args with
    | .error e => s.refuse "set" e
    | .ok (s, rest, marked) =>
      if marked || !rest.isEmpty then
        (s.withShell fun sh => { sh with args := rest, optionPlace := (0, []) }).done 0
      else s.done 0

/-! ## Variables -/

/-- The parts around the first `=`. -/
def nameAndValue (word : String) : String × Option String :=
  let name := word.toList.takeWhile (· ≠ '=')
  match word.toList.drop name.length with
  | _ :: value => (String.ofList name, some (String.ofList value))
  | [] => (word, none)

/-- Assigns variables and marks them. -/
def markAll (command : String) (mark : Variable → Variable) : List String → State → Outcome
  | [], s => s.done 0
  | word :: rest, s =>
    let (name, value) := nameAndValue word
    if !isName name then s.refuse command (name ++ ": bad variable name")
    else
      let assigned := match value with
        | some v => s.assign? name v
        | none => some s
      match assigned with
      | none => s.refuse command (name ++ ": is read only")
      | some s =>
        let v := (s.binding? name).getD ⟨none, false, false⟩
        markAll command mark rest (s.setVariable name (mark v))

/-- The marked variables as a script. -/
def markedTable (command : String) (isMarked : Variable → Bool) (s : State) : String :=
  let vs := s.shell.bindings.filter fun v => isMarked v.2
  String.join ((vs.mergeSort fun a b => a.1 ≤ b.1).map fun (name, v) =>
    command ++ " " ++ name ++ (match v.value with
      | some value => "=" ++ singleQuotedText value
      | none => "") ++ "\n")

def exportCommand (args : List String) (s : State) : Outcome :=
  match args with
  | [] => s.say "export" (markedTable "export" (·.exported) s) 0
  | ["-p"] => s.say "export" (markedTable "export" (·.exported) s) 0
  | "-p" :: rest => markAll "export" (fun v => { v with exported := true }) rest s
  | "--" :: rest => markAll "export" (fun v => { v with exported := true }) rest s
  | "-n" :: rest => markAll "export" (fun v => { v with exported := false }) rest s
  | _ => markAll "export" (fun v => { v with exported := true }) args s

def readonlyCommand (args : List String) (s : State) : Outcome :=
  match args with
  | [] => s.say "readonly" (markedTable "readonly" (·.fixed) s) 0
  | ["-p"] => s.say "readonly" (markedTable "readonly" (·.fixed) s) 0
  | "--" :: rest => markAll "readonly" (fun v => { v with fixed := true }) rest s
  | _ => markAll "readonly" (fun v => { v with fixed := true }) args s

/-- The state in which the function that is running remembers a variable. -/
def State.remember (s : State) (name : String) : State :=
  match s.shell.saved with
  | [] => s
  | frame :: outer =>
    if frame.any fun f => f.1 = name then s
    else s.withShell fun sh => { sh with saved := ((name, s.binding? name) :: frame) :: outer }

def localCommand : List String → State → Outcome
  | [], s => s.done 0
  | word :: rest, s =>
    if s.shell.saved.isEmpty then
      if s.shell.dialect = .extended then
        s.grumble "local" "can only be used in a function" 1
      else s.refuse "local" "not in a function"
    else
      let (name, value) := nameAndValue word
      if name = "-" then localCommand rest s
      else if !isName name then s.refuse "local" (name ++ ": bad variable name")
      else
        let s := s.remember name
        match value with
        | some v =>
          match s.assign? name v with
          | some s => localCommand rest s
          | none => s.refuse "local" (name ++ ": is read only")
        | none =>
          let s := if s.shell.dialect = .extended then s.dropVariable name else s
          localCommand rest s

def unsetAll (functions : Bool) : List String → State → Outcome
  | [], s => s.done 0
  | name :: rest, s =>
    if functions then
      unsetAll functions rest
        (s.withShell fun sh => { sh with functions := sh.functions.filter fun f => f.1 ≠ name })
    else if !isName name then s.refuse "unset" (name ++ ": bad variable name")
    else match s.binding? name with
      | some v =>
        if v.fixed then s.refuse "unset" (name ++ ": is read only")
        else unsetAll functions rest (s.dropVariable name)
      | none =>
        if s.shell.dialect = .extended then
          unsetAll functions rest
            (s.withShell fun sh => { sh with functions := sh.functions.filter fun f => f.1 ≠ name })
        else unsetAll functions rest s

def unsetCommand (args : List String) (s : State) : Outcome :=
  match args with
  | "-f" :: rest => unsetAll true rest s
  | "-v" :: rest => unsetAll false rest s
  | "--" :: rest => unsetAll false rest s
  | _ => unsetAll false args s

def shiftCommand (args : List String) (s : State) : Outcome :=
  let n := match args with
    | [] => some 1
    | arg :: _ => count? arg
  match n with
  | none => s.refuse "shift" ("Illegal number: " ++ args.headD "")
  | some n =>
    if n > s.shell.args.length then
      if s.shell.dialect = .extended then s.done 1 else s.refuse "shift" "can't shift that many"
    else
      (s.withShell fun sh =>
        { sh with args := sh.args.drop n, optionPlace := (0, []) }).done 0

/-! ## Directories -/

def pathOf (loc : Loc) : String := "/" ++ "/".intercalate (loc.reverse.map encode)

/-- The steps of a path with `.` left out and `..` taking back the step before it. -/
def plainSteps (acc : List String) : List String → List String
  | [] => acc.reverse
  | "." :: rest => plainSteps acc rest
  | ".." :: rest => plainSteps acc.tail rest
  | step :: rest => plainSteps (step :: acc) rest

/-- A path without `.` and `..`. -/
def plainPath (base path : String) : String :=
  let whole := if path.toList.head? = some '/' then path else base ++ "/" ++ path
  let steps := ((Text.splitOn '/' whole.toList).filter (· ≠ [])).map String.ofList
  "/" ++ "/".intercalate (plainSteps [] steps)

/-- Makes a directory the current one. -/
def changeFolder (path : String) (physical announce : Bool) (s : State) : Outcome :=
  let current := (s.value? "PWD").getD (pathOf s.shell.cwd)
  let target := if physical then path else plainPath current path
  match s.world.tree.lookup s.shell.cwd true (decode target) with
  | .error f =>
    if s.shell.dialect = .extended then
      s.grumble "cd" (path ++ ": " ++ Utility.reason f) 1
    else s.refuse "cd" ("can't cd to " ++ path)
  | .ok loc =>
    if !s.world.tree.isFolderAt loc then
      if s.shell.dialect = .extended then s.grumble "cd" (path ++ ": Not a directory") 1
      else s.refuse "cd" ("can't cd to " ++ path)
    else
      let shown := if physical then pathOf loc else target
      let s := s.withShell fun sh => { sh with cwd := loc }
      let s := (s.assign? "OLDPWD" current).getD s
      let s := (s.assign? "PWD" shown).getD s
      if announce then s.say "cd" (shown ++ "\n") 0 else s.done 0

/-- A directory found by way of `CDPATH`. -/
def searchedFolder? (s : State) (path : String) : Option String :=
  if path.toList.head? = some '/' || path = "." || path = ".." ||
      "./".toList.isPrefixOf path.toList || "../".toList.isPrefixOf path.toList then none
  else
    match s.value? "CDPATH" with
    | none => none
    | some list =>
      ((Text.splitOn ':' list.toList).filterMap fun part =>
        if part.isEmpty then none
        else
          let candidate := Utility.inFolder (String.ofList part) path
          if s.world.tree.isFolder s.shell.cwd (decode candidate) then some candidate
          else none).head?

def cdCommand (args : List String) (s : State) : Outcome :=
  let physical := args.head? = some "-P"
  let args := args.dropWhile fun a => a = "-P" || a = "-L" || a = "--"
  match args with
  | [] =>
    match s.value? "HOME" with
    | some home => changeFolder home physical false s
    | none =>
      if s.shell.dialect = .extended then s.grumble "cd" "HOME not set" 1 else s.done 0
  | "-" :: _ =>
    match s.value? "OLDPWD" with
    | some old => changeFolder old physical true s
    | none =>
      if s.shell.dialect = .extended then s.grumble "cd" "OLDPWD not set" 1
      else s.say "cd" ((s.value? "PWD").getD (pathOf s.shell.cwd) ++ "\n") 0
  | path :: _ =>
    match searchedFolder? s path with
    | some found => changeFolder found physical true s
    | none => changeFolder path physical false s

def pwdCommand (args : List String) (s : State) : Outcome :=
  if args.contains "-P" then s.say "pwd" (pathOf s.shell.cwd ++ "\n") 0
  else s.say "pwd" ((s.value? "PWD").getD (pathOf s.shell.cwd) ++ "\n") 0

/-! ## Reading -/

/-- A line with the backslashes in it carried out: characters, each with whether it is protected,
    and whether the line goes on in the next one. -/
def protectedChars (acc : List Glyph) : List Char → List Glyph × Bool
  | [] => (acc.reverse, false)
  | ['\\'] => (acc.reverse, false)
  | ['\\', '\n'] => (acc.reverse, true)
  | '\\' :: c :: rest => protectedChars (⟨c, true⟩ :: acc) rest
  | c :: rest => if c = '\n' then (acc.reverse, false) else protectedChars (⟨c, false⟩ :: acc) rest

/-- Reads a line from the standard input: its characters, whether its end was found, and whether
    more may still come. -/
def readLine (raw : Bool) (acc : List Glyph) : (fuel : Nat) → State →
    Except Fault (List Glyph × Bool × Bool × State)
  | 0, s => .ok (acc, false, true, s)
  | fuel + 1, s =>
    match s.peekLine 0 with
    | .error f => .error f
    | .ok (line, ended) =>
      let s := s.consume 0 line.length
      let complete := line.getLast? = some '\n'
      let kept := line.filter (· ≠ '\x00')
      if raw then
        let cs := if complete then kept.dropLast else kept
        .ok (acc ++ cs.map fun c => ⟨c, false⟩, complete, ended || complete, s)
      else
        let (cs, joined) := protectedChars [] kept
        if joined && complete then readLine raw (acc ++ cs) fuel s
        else .ok (acc ++ cs, complete, ended || complete, s)

/-- Whether a character separates fields. -/
def Glyph.separates (separators : List Char) (g : Glyph) : Bool :=
  !g.quoted && separators.contains g.char

/-- Whether it is a blank that does so. -/
def Glyph.isGap (separators : List Char) (g : Glyph) : Bool :=
  g.separates separators && isBlankSeparator g.char

/-- What follows a separator: blanks, one other separator, blanks. -/
def afterSeparator (separators : List Char) (gs : List Glyph) : List Glyph :=
  let rest := gs.dropWhile (Glyph.isGap separators)
  match rest with
  | g :: more =>
    if g.separates separators then more.dropWhile (Glyph.isGap separators) else rest
  | [] => []

/-- The values of `n` variables for a line: a field each, and for the last one all that is left. -/
def lineFields (separators : List Char) : (n : Nat) → List Glyph → List String
  | 0, _ => []
  | 1, gs =>
    let first := gs.takeWhile fun g => !g.separates separators
    if (afterSeparator separators (gs.drop first.length)).isEmpty then [glyphText first]
    else [glyphText (gs.reverse.dropWhile (Glyph.isGap separators)).reverse]
  | n + 1, gs =>
    let first := gs.takeWhile fun g => !g.separates separators
    glyphText first :: lineFields separators n (afterSeparator separators (gs.drop first.length))

/-- Assigns fields to variables in order. -/
def assignFields (command : String) : List String → List String → State → Outcome
  | [], _, s => s.done 0
  | name :: names, values, s =>
    if !isName name then s.refuse command (name ++ ": bad variable name")
    else match s.assign? name (values.headD "") with
      | some s => assignFields command names values.tail s
      | none => s.refuse command (name ++ ": is read only")

def readCommand (args : List String) (s : State) : Outcome :=
  let raw := args.any fun a => a = "-r"
  let rec names : List String → List String
    | "-p" :: _ :: rest => names rest
    | "-r" :: rest => names rest
    | "-s" :: rest => names rest
    | "--" :: rest => rest
    | rest => rest
  let wanted := names args
  let wanted := if wanted.isEmpty && s.shell.dialect = .extended then ["REPLY"] else wanted
  if wanted.isEmpty then s.refuse "read" "arg count"
  else match readLine raw [] 100000 s with
    | .error _ =>
      let o := assignFields "read" wanted [] s
      if o.failed then o else o.state.done 1
    | .ok (gs, complete, mayEnd, s) =>
      if !mayEnd then ⟨s.withFlow .late, false⟩
      else
        let separators := s.separators.toList
        let gs := gs.dropWhile (Glyph.isGap separators)
        let o := assignFields "read" wanted (lineFields separators wanted.length gs) s
        if o.failed then o else o.state.done (if complete then 0 else 1)

/-! ## Options of scripts -/

def getoptsCommand (args : List String) (s : State) : Outcome :=
  match args with
  | spec :: name :: given =>
    let words := if given.isEmpty then s.shell.args else given
    let index := max 1 ((natural? ((s.value? "OPTIND").getD "1")).getD 1)
    let letters := if s.shell.optionPlace.1 = index then s.shell.optionPlace.2 else []
    let silent := spec.toList.head? = some ':'
    let finish := fun (s : State) (result : String) (index : Nat) (letters : List Char)
        (status : Nat) =>
      let s := (s.assign? "OPTIND" (Nat.repr index)).getD s
      let s := s.withShell fun sh => { sh with optionPlace := (index, letters) }
      match s.assign? name result with
      | some s => s.done status
      | none => s.refuse "getopts" (name ++ ": is read only")
    let start : Option (Char × List Char × Nat) := match letters with
      | c :: rest => some (c, rest, index)
      | [] =>
        match (words[index - 1]?).map String.toList with
        | some ('-' :: '-' :: []) => none
        | some ('-' :: c :: rest) => some (c, rest, index + 1)
        | _ => none
    match start with
    | none =>
      let index := if words[index - 1]? = some "--" then index + 1 else index
      finish (s.dropVariable "OPTARG") "?" index [] 1
    | some (c, rest, index) =>
      let letter := String.singleton c
      let place := spec.toList.dropWhile (· ≠ c)
      let report := fun (text : String) (s : State) =>
        if s.shell.dialect = .extended then
          s.printError (s.shell.name ++ ": " ++ text ++ "\n")
        else s.printError (text ++ "\n")
      if c = ':' || place.isEmpty then
        let s := if silent then (s.assign? "OPTARG" letter).getD s
          else (report (if s.shell.dialect = .extended then "illegal option -- " ++ letter
            else "Illegal option -" ++ letter) s).dropVariable "OPTARG"
        finish s "?" index rest 0
      else if (place.drop 1).head? = some ':' then
        match rest, words[index - 1]? with
        | _ :: _, _ =>
          finish ((s.assign? "OPTARG" (String.ofList rest)).getD s) letter index [] 0
        | [], some value => finish ((s.assign? "OPTARG" value).getD s) letter (index + 1) [] 0
        | [], none =>
          if silent then finish ((s.assign? "OPTARG" letter).getD s) ":" index [] 0
          else
            let s := report (if s.shell.dialect = .extended
              then "option requires an argument -- " ++ letter
              else "No arg for -" ++ letter ++ " option") s
            finish (s.dropVariable "OPTARG") "?" index [] 0
      else finish ((s.assign? "OPTARG" "").getD s) letter index rest 0
  | _ =>
    if s.shell.dialect = .extended then
      s.grumble "getopts" "usage: getopts optstring name [arg ...]" 2
    else s.refuse "getopts" "Usage: getopts optstring var [arg]"

/-! ## Leaving -/

def exitCommand (args : List String) (s : State) : Outcome :=
  match args with
  | [] => ⟨s.withFlow .exit, false⟩
  | arg :: _ =>
    match count? arg with
    | some n => ⟨s.exit (n % 256), false⟩
    | none =>
      if s.shell.dialect = .extended then
        match Text.signed? arg.toList with
        | some v => ⟨s.exit (v % 256).toNat, false⟩
        | none =>
          ⟨(s.warnAs "exit" (arg ++ ": numeric argument required")).exit 2, false⟩
      else s.refuse "exit" ("Illegal number: " ++ arg)

def returnCommand (args : List String) (s : State) : Outcome :=
  match args with
  | [] => ⟨s.withFlow .return, false⟩
  | arg :: _ =>
    match count? arg with
    | some n => ⟨(s.withStatus (n % 256)).withFlow .return, false⟩
    | none => s.refuse "return" ("Illegal number: " ++ arg)

/-- Leaves loops, or goes on with the next round. -/
def leaveCommand (command : String) (args : List String) (s : State) : Outcome :=
  let n := match args with
    | [] => some 1
    | arg :: _ => count? arg
  match n with
  | none => s.refuse command ("Illegal number: " ++ args.headD "")
  | some 0 => s.refuse command ("Illegal number: " ++ args.headD "")
  | some n =>
    let n := min n s.shell.loopDepth
    if n = 0 then s.done 0
    else
      let flow := if command = "break" then Flow.leave n else Flow.again n
      ⟨(s.withStatus 0).withFlow flow, false⟩

/-! ## Signals -/

def trapTable (s : State) : String :=
  let ts := s.shell.traps.mergeSort fun a b => a.1 ≤ b.1
  String.join (ts.map fun (n, action) =>
    "trap -- " ++ singleQuotedText action ++ " " ++ signalName n ++ "\n")

def trapAll (action : Option String) : List String → State → Outcome
  | [], s => s.done 0
  | word :: rest, s =>
    match signal? word with
    | none =>
      if s.shell.dialect = .extended then
        s.grumble "trap" (word ++ ": invalid signal specification") 1
      else ⟨(s.printError ("trap: " ++ word ++ ": bad trap\n")).withStatus 1, false⟩
    | some n =>
      trapAll action rest (s.withShell fun sh =>
        let others := sh.traps.filter fun t => t.1 ≠ n
        { sh with traps := match action with
          | some a => (n, a) :: others
          | none => others })

def trapCommand (args : List String) (s : State) : Outcome :=
  let args := match args with
    | "--" :: rest => rest
    | args => args
  match args with
  | [] => s.say "trap" (trapTable s) 0
  | [word] => trapAll none [word] s
  | "-" :: words => trapAll none words s
  | action :: words =>
    if (natural? action).isSome then trapAll none args s
    else trapAll (some action) words s

/-- A signal arrives. -/
def State.receive (s : State) (signal : Nat) : State :=
  if signal = 9 then s.withFlow (.killed 9)
  else match s.shell.traps.lookup signal with
    | some "" => s
    | some _ => s.withShell fun sh => { sh with pending := sh.pending ++ [signal] }
    | none =>
      if isHarmless signal then s else s.withFlow (.killed signal)

def killAll (signal : Nat) : List String → State → Outcome
  | [], s => s.done 0
  | word :: rest, s =>
    let digits := match word.toList with
      | '-' :: ds => ds
      | ds => ds
    match Text.ofDigits? 10 digits with
    | none =>
      if s.shell.dialect = .extended then
        s.grumble "kill" (word ++ ": arguments must be process or job IDs") 1
      else s.refuse "kill" ("Illegal number: " ++ word)
    | some p =>
      if p = s.shell.process && s.shell.isCopy then
        killAll signal rest (s.withWorld fun w => { w with signals := w.signals ++ [(p, signal)] })
      else if p = s.shell.process || p = 0 then
        let s := s.receive signal
        if s.isNormal then killAll signal rest (s.withStatus 0) else ⟨s, false⟩
      else if s.world.waiting.any fun j => j.process = p then
        let s := if isHarmless signal then s else s.withWorld fun w =>
          { w with waiting := w.waiting.filter fun j => j.process ≠ p
                   ended := ⟨p, 128 + signal, some signal⟩ :: w.ended }
        killAll signal rest (s.withStatus 0)
      else if s.shell.jobs.contains p then killAll signal rest (s.withStatus 0)
      else if s.shell.dialect = .extended then
        s.grumble "kill" ("(" ++ word ++ ") - No such process") 1
      else ⟨(s.warnAs "kill" "No such process\n").withStatus 1, false⟩

def killCommand (args : List String) (s : State) : Outcome :=
  let usage :=
    "Usage: kill [-s sigspec | -signum | -sigspec] [pid | job]... or\nkill -l [exitstatus]"
  match args with
  | [] => s.refuse "kill" usage
  | "-l" :: [] => s.say "kill" (String.join (signalNames.map (· ++ "\n"))) 0
  | "-l" :: arg :: _ =>
    match count? arg with
    | some n => s.say "kill" (signalName (if n > 128 then n - 128 else n) ++ "\n") 0
    | none => s.refuse "kill" ("Illegal number: " ++ arg)
  | "-s" :: name :: rest =>
    match signal? name with
    | some n => if rest.isEmpty then s.refuse "kill" usage else killAll n rest s
    | none => s.refuse "kill" ("invalid signal number or name: " ++ name)
  | arg :: rest =>
    match arg.toList with
    | ['-', '-'] => killAll 15 rest s
    | '-' :: c :: more =>
      match signal? (String.ofList (c :: more)) with
      | some n => if rest.isEmpty then s.refuse "kill" usage else killAll n rest s
      | none => s.refuse "kill" ("Illegal option -" ++ String.singleton c)
    | _ => killAll 15 (arg :: rest) s

/-! ## Aliases -/

def aliasCommand (args : List String) (s : State) : Outcome :=
  let shown := fun (a : String × String) => a.1 ++ "=" ++ singleQuotedText a.2 ++ "\n"
  if args.isEmpty then s.say "alias" (String.join (s.shell.aliases.map shown)) 0
  else args.foldl
    (fun o arg =>
      let s := o.state
      match nameAndValue arg with
      | (name, some value) =>
        ⟨s.withShell fun sh => { sh with aliases := State.replaceKey name value sh.aliases }, false⟩
      | (name, none) =>
        match s.shell.aliases.lookup name with
        | some value => s.say "alias" (shown (name, value)) s.shell.status
        | none => ⟨(s.printError ("alias: " ++ name ++ " not found\n")).withStatus 1, false⟩)
    (s.done 0)

def unaliasCommand (args : List String) (s : State) : Outcome :=
  if args.head? = some "-a" then (s.withShell fun sh => { sh with aliases := [] }).done 0
  else args.foldl
    (fun o name =>
      let s := o.state
      if s.shell.aliases.any fun a => a.1 = name then
        ⟨s.withShell fun sh => { sh with aliases := sh.aliases.filter fun a => a.1 ≠ name }, false⟩
      else ⟨(s.printError ("unalias: " ++ name ++ " not found\n")).withStatus 1, false⟩)
    (s.done 0)

/-! ## Names of commands -/

/-- The commands that every shell has. -/
def builtinNames : List String :=
  specialBuiltins ++
  ["[", "alias", "bg", "cd", "chdir", "command", "echo", "false", "fg", "getopts", "hash", "jobs",
   "kill", "local", "printf", "pwd", "read", "test", "true", "type", "ulimit", "umask", "unalias",
   "wait"]

/-- The commands that only the extended shell has. -/
def extendedBuiltins : List String :=
  ["source", "declare", "typeset", "let", "builtin", "shopt", "mapfile", "readarray",
    "pushd", "popd",
   "dirs", "disown", "enable", "help", "history", "logout", "caller", "compgen", "complete", "bind",
   "suspend"]

/-- Whether the shell itself carries out a command. -/
def State.isBuiltin (s : State) (name : String) : Bool :=
  (builtinNames.contains name && !(s.shell.dialect = .extended && name = "chdir")) ||
    (s.shell.dialect = .extended && extendedBuiltins.contains name)

/-- The file that a program name stands for. -/
def State.programPath? (s : State) (name : String) : Option String :=
  let path := (s.value? "PATH").getD ""
  let isFile := fun (p : String) =>
    match s.world.tree.lookup s.shell.cwd true (decode p) with
    | .ok loc => (s.world.tree.blob? loc).any fun b => b.runnable
    | .error _ => false
  if name.toList.contains '/' then if isFile name then some name else none
  else if name = "" then none
  else ((Text.splitOn ':' path.toList).map fun dir =>
    if dir.isEmpty then name else Utility.inFolder (String.ofList dir) name).find? isFile

/-- What a name stands for, in words.  The flag says that it is known. -/
def describeName (s : State) (brief tracked : Bool) (name : String) : String × Bool :=
  let answer := fun (short long : String) =>
    (if brief then short ++ "\n" else name ++ long ++ "\n", true)
  if reservedWords.contains name then answer name " is a shell keyword"
  else match s.shell.aliases.lookup name with
    | some value =>
      answer ("alias " ++ name ++ "=" ++ singleQuotedText value) (" is an alias for " ++ value)
    | none =>
      if specialBuiltins.contains name then
        answer name (if s.shell.dialect = .extended then " is a shell builtin"
          else " is a special shell builtin")
      else if s.shell.functions.any fun f => f.1 = name then
        answer name (if s.shell.dialect = .extended then " is a function"
          else " is a shell function")
      else if s.isBuiltin name then answer name " is a shell builtin"
      else match s.programPath? name with
        | some path => answer path
          (if tracked then " is a tracked alias for " ++ path else " is " ++ path)
        | none => (if brief then "" else name ++ ": not found\n", false)

def typeCommand (args : List String) (s : State) : Outcome :=
  args.foldl
    (fun o name =>
      let (text, known) := describeName o.state false false name
      if !known && o.state.shell.dialect = .extended then
        o.state.grumble "type" (name ++ ": not found") 1
      else o.state.say "type" text (if known then o.state.shell.status else 127))
    (s.done 0)

/-- The command `umask`, which has no effect here but can be asked. -/
def umaskCommand (args : List String) (s : State) : Outcome :=
  let mask := (s.value? "\x01umask").getD "0022"
  match args with
  | [] => s.say "umask" (mask ++ "\n") 0
  | "-S" :: _ =>
    let part := fun (who : String) (c : Char) =>
      let bits := 7 - (c.toNat - 48)
      who ++ "=" ++ (if bits / 4 % 2 = 1 then "r" else "") ++
        (if bits / 2 % 2 = 1 then "w" else "") ++ (if bits % 2 = 1 then "x" else "")
    match mask.toList with
    | [_, u, g, o] => s.say "umask" (part "u" u ++ "," ++ part "g" g ++ "," ++ part "o" o ++ "\n") 0
    | _ => s.done 0
  | arg :: _ =>
    match Text.ofDigits? 8 arg.toList with
    | some n =>
      if n < 512 then
        (s.setVariable "\x01umask" ⟨some (String.ofList (Text.zeroFilled 4
          ((n / 64) * 100 + (n / 8 % 8) * 10 + n % 8))), false, false⟩).done 0
      else s.refuse "umask" ("Illegal number: " ++ arg)
    | none =>
      if arg.toList.head?.any Char.isDigit then s.refuse "umask" ("Illegal number: " ++ arg)
      else s.done 0

/-! ## All of them -/

/-- Carries out a built-in command that runs no other; none if there is no such command. -/
def simpleBuiltin? (name : String) (args : List String) (s : State) : Option Outcome :=
  match name with
  | ":" => some (s.done 0)
  | "true" => some (s.done 0)
  | "false" => some (s.done 1)
  | "echo" => some (s.say "echo" (Utility.echo s.flavor args) 0)
  | "printf" => some (printfOutcome args)
  | "test" => some (testOutcome name args)
  | "[" => some (testOutcome name args)
  | "cd" => some (cdCommand args s)
  | "chdir" => some (cdCommand args s)
  | "pwd" => some (pwdCommand args s)
  | "set" => some (setCommand args s)
  | "unset" => some (unsetCommand args s)
  | "export" => some (exportCommand args s)
  | "readonly" => some (readonlyCommand args s)
  | "local" => some (localCommand args s)
  | "declare" => some (declareOutcome args)
  | "typeset" => some (declareOutcome args)
  | "shift" => some (shiftCommand args s)
  | "read" => some (readCommand args s)
  | "getopts" => some (getoptsCommand args s)
  | "exit" => some (exitCommand args s)
  | "return" => some (returnCommand args s)
  | "break" => some (leaveCommand name args s)
  | "continue" => some (leaveCommand name args s)
  | "trap" => some (trapCommand args s)
  | "kill" => some (killCommand args s)
  | "alias" => some (aliasCommand args s)
  | "unalias" => some (unaliasCommand args s)
  | "type" => some (typeCommand args s)
  | "umask" => some (umaskCommand args s)
  | "times" => some (s.say "times" "0m0.000000s 0m0.000000s\n0m0.000000s 0m0.000000s\n" 0)
  | "ulimit" => some (s.say "ulimit" (if args.isEmpty then "unlimited\n" else "") 0)
  | "hash" =>
    some (args.foldl
      (fun o a =>
        if a = "-r" || (o.state.programPath? a).isSome || o.state.isBuiltin a then o
        else o.state.grumble "hash" (a ++ ": not found") 1)
      (s.done 0))
  | "jobs" => some (s.done 0)
  | "bg" => some (s.refuse "bg" "No current job")
  | "fg" => some (s.refuse "fg" "No current job")
  | "shopt" => some (s.done 0)
  | "let" => some (letOutcome args)
  | _ => none
where
  printfOutcome (args : List String) : Outcome :=
    let (args, plainly) := match args with
      | "--" :: rest => (rest, true)
      | args => (args, false)
    match args with
    | [] =>
      if s.shell.dialect = .extended then
        ⟨(s.printError "printf: usage: printf [-v var] format [arguments]\n").withStatus 2, false⟩
      else s.refuse "printf" "usage: printf format [arg ...]"
    | "-v" :: name :: form :: rest =>
      if s.shell.dialect = .extended then
        let p := Utility.format .extended form rest
        ((s.assign? name p.text).getD s).done p.status
      else s.refuse "printf" "Illegal option -v"
    | form :: rest =>
      let isOption : Bool := match form.toList with
        | '-' :: _ :: _ => s.shell.dialect == Dialect.plain && !plainly
        | _ => false
      if isOption then
        s.refuse "printf" ("Illegal option -" ++ String.ofList ((form.toList.drop 1).take 1))
      else
        let p := Utility.format s.flavor form rest
        let s := p.complaints.reverse.foldl (fun s text => s.warnAs "printf" text) s
        s.say "printf" p.text p.status
  testOutcome (name : String) (args : List String) : Outcome :=
    match Utility.testStatus ⟨s.world.tree, s.shell.cwd, s.flavor, fun x => (s.value? x).isSome⟩
      (name = "[") args with
    | (status, none) => s.done status
    | (status, some e) => ⟨(s.warnAs name e).withStatus status, true⟩
  /-- Gives variables values and marks. -/
  declareOutcome (args : List String) : Outcome :=
    let words := args.filter fun a => a.toList.head? ≠ some '-'
    let letters := (args.filter fun a => a.toList.head? = some '-').flatMap String.toList
    let s := words.foldl (fun s w =>
      if s.shell.saved.isEmpty || letters.contains 'g' then s else s.remember (nameAndValue w).1) s
    markAll "declare" (fun v =>
      { v with exported := v.exported || letters.contains 'x',
               fixed := v.fixed || letters.contains 'r' }) words s
  letOutcome (args : List String) : Outcome :=
    args.foldl
      (fun o source =>
        match arithmeticValue o.state source with
        | .ok (v, s) => s.done (if v = 0 then 1 else 0)
        | .error e => o.state.grumble "let" e 1)
      (s.done 1)

end Concolic.Shell
