import Concolic.Shell.Script
import Concolic.Text.Decimal
import Concolic.Text.Split

/-
  Reading scripts.

  The text of a script is read one line of commands at a time, because what has been run may change
  how the next line is read.  The functions call one another through the brackets of the language,
  so they share an amount of fuel.
-/

namespace Concolic.Shell

/-- The two forms of the language: the common one, and the one with the usual additions. -/
inductive Dialect where
  | plain
  | extended
  deriving DecidableEq, Repr

/-- Why a text is no script. -/
structure Complaint where
  line : Nat
  text : String

/-- A word or an operator of the language. -/
inductive Token where
  | finish
  | newline
  | word (pieces : Word) (quoted : Bool)
  | redirect (descriptor : Option Nat) (operator : String)
  /-- An operator or a reserved word. -/
  | mark (text : String)

/-- How a complaint names a token. -/
def Token.shown : Token → String
  | .finish => "end of file"
  | .newline => "newline"
  | .word _ _ => "word"
  | .redirect _ _ => "redirection"
  | .mark s => "\"" ++ s ++ "\""

/-- A document that is announced and starts after the line. -/
structure Announced where
  key : Nat
  ending : String
  /-- Tabs at the start of its lines are dropped. -/
  stripped : Bool
  quoted : Bool

/-- What is left of a script, and what is needed to read it. -/
structure Source where
  rest : List Char
  line : Nat
  /-- A token that was read too early. -/
  held : Option Token
  announced : List Announced
  documents : List (Nat × Word)
  nextKey : Nat
  aliases : List (String × String)
  /-- The aliases being read, with how much text is left after them. -/
  unfolding : List (String × Nat)
  dialect : Dialect

/-- Reading from a source. -/
abbrev Reading := EStateM Complaint Source

/-- Enough for any text. -/
def Source.fuel (s : Source) : Nat :=
  16 * (s.rest.length + s.aliases.foldl (fun n a => n + a.2.length) 0 + 64)

/-! ## Complaints -/

def complain {α : Type} (text : String) : Reading α := do
  let s ← get
  throw ⟨s.line, "Syntax error: " ++ text⟩

/-- Gives up because of a token; `wanted` is the one that should have stood there. -/
def unexpected {α : Type} (t : Token) (wanted : Option String) : Reading α :=
  complain (t.shown ++ " unexpected" ++
    match wanted with
    | some "word" => " (expecting word)"
    | some w => " (expecting \"" ++ w ++ "\")"
    | none => "")

/-! ## Characters -/

/-- The text without line joins (a backslash before a line end) at its start, and their number. -/
def dropJoins : List Char → Nat → List Char × Nat
  | '\\' :: '\n' :: rest, n => dropJoins rest (n + 1)
  | rest, n => (rest, n)

/-- Skips line ends that join lines. -/
def skipJoins : Reading Unit :=
  modify fun s => let (rest, n) := dropJoins s.rest 0; { s with rest, line := s.line + n }

/-- The text without blanks and line joins at its start, and the number of joins. -/
def dropBlanks : List Char → Nat → List Char × Nat
  | ' ' :: rest, n => dropBlanks rest n
  | '\t' :: rest, n => dropBlanks rest n
  | '\\' :: '\n' :: rest, n => dropBlanks rest (n + 1)
  | rest, n => (rest, n)

/-- What ends a word that is not quoted. -/
def endsWord (c : Char) : Bool :=
  c = ' ' || c = '\t' || c = '\n' || c = ';' || c = '&' || c = '|' || c = '<' || c = '>' ||
  c = '(' || c = ')'

/-- The characters up to one that fails the test. -/
def takeRun (test : Char → Bool) : Reading String := do
  let s ← get
  set { s with rest := s.rest.dropWhile test }
  return String.ofList (s.rest.takeWhile test)

def lineEnds (cs : List Char) : Nat := cs.foldl (fun n c => if c = '\n' then n + 1 else n) 0

/-! ## Parameters -/

/-- The name of a parameter between braces, and whether its size is asked for. -/
def parameterName (cs : List Char) : Option (String × Bool × List Char) :=
  let named := fun (c : Char) (rest : List Char) (size : Bool) =>
    if isNameStart c then
      some (String.ofList (c :: rest.takeWhile isNameChar), size, rest.dropWhile isNameChar)
    else if c.isDigit then
      some (String.ofList (c :: rest.takeWhile Char.isDigit), size, rest.dropWhile Char.isDigit)
    else none
  match cs with
  | '#' :: '\x7d' :: rest => some ("#", false, '\x7d' :: rest)
  | '#' :: c :: rest =>
    match named c rest true with
    | some found => some found
    | none =>
      if rest.head? = some '\x7d' then
        if isSpecial c then some (String.singleton c, true, rest) else none
      else some ("#", false, c :: rest)
  | c :: rest =>
    match named c rest false with
    | some found => some found
    | none => if isSpecial c then some (String.singleton c, false, rest) else none
  | [] => none

/-- The use of a parameter that the characters after its name ask for.  The flag says that a word
    follows, up to the closing brace. -/
def parameterUse (cs : List Char) : Use × Bool × List Char :=
  let plain := fun (c : Char) (empty : Bool) => match c with
    | '-' => some (Use.fallback empty)
    | '=' => some (Use.assign empty)
    | '?' => some (Use.demand empty)
    | '+' => some (Use.instead empty)
    | _ => none
  match cs with
  | '\x7d' :: rest => (.value, false, rest)
  | ':' :: '\x7d' :: rest => (.value, false, rest)
  | '#' :: '#' :: rest => (.dropFront true, true, rest)
  | '#' :: rest => (.dropFront false, true, rest)
  | '%' :: '%' :: rest => (.dropBack true, true, rest)
  | '%' :: rest => (.dropBack false, true, rest)
  | ':' :: c :: rest => ((plain c true).getD .malformed, true, rest)
  | c :: rest => ((plain c false).getD .malformed, true, rest)
  | [] => (.malformed, true, [])

/-- The further uses of the extended language.  The flag of the result says how many
    words follow. -/
def extendedUse (cs : List Char) : Option (Use × Nat × List Char) :=
  match cs with
  | ':' :: c :: rest =>
    if c = '-' || c = '=' || c = '?' || c = '+' || c = '\x7d' then none
    else some (.slice, 2, c :: rest)
  | '/' :: '/' :: rest => some (.substitute true none, 2, rest)
  | '/' :: '#' :: rest => some (.substitute false (some '#'), 2, rest)
  | '/' :: '%' :: rest => some (.substitute false (some '%'), 2, rest)
  | '/' :: rest => some (.substitute false none, 2, rest)
  | '^' :: '^' :: '\x7d' :: rest => some (.letters true true, 0, rest)
  | '^' :: '\x7d' :: rest => some (.letters true false, 0, rest)
  | ',' :: ',' :: '\x7d' :: rest => some (.letters false true, 0, rest)
  | ',' :: '\x7d' :: rest => some (.letters false false, 0, rest)
  | _ => none

/-! ## Quoted texts -/

/-- The text up to a single quote. -/
def singleQuoted (acc : List Char) : List Char → Option (List Char × List Char)
  | [] => none
  | '\'' :: rest => some (acc.reverse, rest)
  | c :: rest => singleQuoted (c :: acc) rest

/-- The text up to a backquote, with the backslashes that protect characters in it dropped, and
    what follows it. -/
def backQuoted (quoted : Bool) (acc : List Char) : List Char → Option (List Char × List Char)
  | [] => none
  | '\x60' :: rest => some (acc.reverse, rest)
  | '\\' :: c :: rest =>
    if c = '\\' || c = '\x60' || c = '$' || (quoted && c = '"') then
      backQuoted quoted (c :: acc) rest
    else backQuoted quoted (c :: '\\' :: acc) rest
  | c :: rest => backQuoted quoted (c :: acc) rest

/-- The value of a few digits. -/
def digitsUpTo (base : Nat) : Nat → Nat → List Char → Nat × List Char
  | 0, value, cs => (value, cs)
  | _ + 1, value, [] => (value, [])
  | n + 1, value, c :: rest =>
    match Text.hexValue? c with
    | some d => if d < base then digitsUpTo base n (value * base + d) rest else (value, c :: rest)
    | none => (value, c :: rest)

/-- The text of `$'…'` up to its closing quote, with its backslash sequences replaced. -/
def escapeQuoted (acc : List Char) : (fuel : Nat) → List Char → Option (List Char × List Char)
  | 0, _ => none
  | _ + 1, [] => none
  | _ + 1, '\'' :: rest => some (acc.reverse, rest)
  | fuel + 1, '\\' :: c :: rest =>
    match c with
    | 'n' => escapeQuoted ('\n' :: acc) fuel rest
    | 't' => escapeQuoted ('\t' :: acc) fuel rest
    | 'r' => escapeQuoted ('\r' :: acc) fuel rest
    | 'a' => escapeQuoted ('\x07' :: acc) fuel rest
    | 'b' => escapeQuoted ('\x08' :: acc) fuel rest
    | 'e' => escapeQuoted ('\x1b' :: acc) fuel rest
    | 'E' => escapeQuoted ('\x1b' :: acc) fuel rest
    | 'f' => escapeQuoted ('\x0c' :: acc) fuel rest
    | 'v' => escapeQuoted ('\x0b' :: acc) fuel rest
    | 'x' =>
      let (value, after) := digitsUpTo 16 2 0 rest
      escapeQuoted (Char.ofNat (value % 256) :: acc) fuel after
    | c =>
      if '0' ≤ c && c ≤ '7' then
        let (value, after) := digitsUpTo 8 3 0 (c :: rest)
        escapeQuoted (Char.ofNat (value % 256) :: acc) fuel after
      else if c = '\\' || c = '\'' || c = '"' || c = '?' then escapeQuoted (c :: acc) fuel rest
      else escapeQuoted (c :: '\\' :: acc) fuel rest
  | fuel + 1, c :: rest => escapeQuoted (c :: acc) fuel rest

/-! ## Documents -/

/-- Whether the next line belongs to this one. -/
def endsInJoin (line : List Char) : Bool := (line.reverse.takeWhile (· = '\\')).length % 2 = 1

/-- The text of a document that starts with the given lines, the lines after it, and the number of
    lines that it takes up. -/
def documentBody (a : Announced) (acc : List Char) (n : Nat) (joined : Bool) :
    List (List Char) → List Char × List (List Char) × Nat
  | [] => (acc, [], n)
  | line :: more =>
    let line := if a.stripped then line.dropWhile (· = '\t') else line
    if !joined && line = a.ending.toList then (acc, more, n + 1)
    else
      let acc := acc ++ line ++ if more.isEmpty then [] else ['\n']
      documentBody a acc (n + 1) (!a.quoted && endsInJoin line) more

/-! ## Words -/

/-- What ends a run of pieces. -/
inductive Ending where
  /-- A blank, a line end or an operator. -/
  | word
  | quote
  /-- A closing brace, or one of the characters. -/
  | brace (stops : List Char)
  /-- Two closing brackets, with so many other ones open. -/
  | brackets (depth : Nat)
  | text
  deriving DecidableEq

/-- Where a run of pieces stands. -/
structure Place where
  ending : Ending
  /-- Between double quotes, or where the same rules hold. -/
  quoted : Bool
  /-- In a document, where double quotes are nothing special. -/
  document : Bool
  /-- Between further double quotes inside braces inside double quotes. -/
  inner : Bool

def Place.bare : Place := ⟨.word, false, false, false⟩

def Place.double : Place := ⟨.quote, true, false, false⟩

/-- In an arithmetic expression. -/
def Place.expression : Place := ⟨.brackets 0, true, false, false⟩

def Place.body : Place := ⟨.text, true, true, false⟩

/-- The word of a parameter that stands in `p`. -/
def Place.braces (p : Place) (pattern : Bool) (stops : List Char) : Place :=
  ⟨.brace stops, p.quoted && !pattern, false, false⟩

/-- Which tokens get a meaning of their own, and whether line ends are skipped before them. -/
structure Keys where
  newlines : Bool
  reserved : Bool
  aliases : Bool

/-- Every word is an ordinary one. -/
def Keys.none : Keys := ⟨false, false, false⟩
def Keys.start : Keys := ⟨false, true, true⟩
/-- At the start of a command, which may be on a later line. -/
def Keys.later : Keys := ⟨true, true, true⟩
/-- Where only a reserved word is special. -/
def Keys.reservedLater : Keys := ⟨true, true, false⟩

def reservedWords : List String :=
  ["!", "case", "do", "done", "elif", "else", "esac", "fi", "for", "if", "in", "then", "until",
   "while", "\x7b", "\x7d"]

/-- What a list of commands cannot go on with. -/
def endsList : Token → Bool
  | .finish => true
  | .mark s =>
    [")", ";;", "do", "done", "elif", "else", "esac", "fi", "then", "\x7d"].contains s
  | _ => false

/-- Which commands a list holds. -/
inductive ListKind where
  | line
  | body
  | any
  deriving DecidableEq

def hold (t : Token) : Reading Unit := modify fun s => { s with held := some t }

/-- The commands whose failure ends a script. -/
def specialBuiltins : List String :=
  [".", ":", "break", "continue", "eval", "exec", "exit", "export", "local", "readonly", "return",
   "set", "shift", "times", "trap", "unset"]

/-- A compound command with redirections.  In the plain language a group of nothing but a copy of
    the process is that copy: the redirections of the group take the place of those that it had. -/
def withRedirects (dialect : Dialect) (line : Nat) (c : Command) (redirects : List Redirect) :
    Command :=
  match dialect, c with
  | .plain, .group [.redirected _ (.subshell n cs) _] => .redirected line (.subshell n cs) redirects
  | .plain, .group [.subshell n cs] => .redirected line (.subshell n cs) redirects
  | _, c => .redirected line c redirects

/-- A word that is an assignment: the name, whether the value is added to the old one, and the word
    of the value. -/
def assignment? (dialect : Dialect) : Word → Option (String × Bool × Word)
  | .text false s :: rest =>
    let cs := s.toList
    let name := cs.takeWhile (fun c => c ≠ '=' && c ≠ '+')
    match cs.drop name.length with
    | '=' :: value =>
      if isName (String.ofList name) then
        some (String.ofList name, false,
          if value.isEmpty then rest else .text false (String.ofList value) :: rest)
      else none
    | '+' :: '=' :: value =>
      if dialect = .extended && isName (String.ofList name) then
        some (String.ofList name, true,
          if value.isEmpty then rest else .text false (String.ofList value) :: rest)
      else none
    | _ => none
  | _ => none

/-- The line that ends a document. -/
def delimiterText (w : Word) : String :=
  String.join (w.map fun
    | .text _ s => s
    | .parameter _ name _ _ => "$" ++ name
    | _ => "")

/-- The operator of a redirection. -/
def arrow (descriptor : Option Nat) (first : Char) : Reading Token := do
  let s : Source ← get
  let found : String × List Char := match first, s.rest with
    | '>', '>' :: rest => (">>", rest)
    | '>', '|' :: rest => (">|", rest)
    | '>', '&' :: rest => (">&", rest)
    | '>', rest => (">", rest)
    | _, '<' :: rest =>
      match (dropJoins rest 0).1 with
      | '-' :: rest => ("<<-", rest)
      | '<' :: more =>
        if s.dialect = Dialect.extended then ("<<<", more) else ("<<", '<' :: more)
      | rest => ("<<", rest)
    | _, '&' :: rest => ("<&", rest)
    | _, '>' :: rest => ("<>", rest)
    | _, rest => ("<", rest)
  set { s with rest := found.2 }
  return .redirect descriptor found.1

mutual

/-- Reads pieces up to their ending.  `acc` holds the pieces so far, last one first; the flag says
    that some were quoted. -/
def pieces : (fuel : Nat) → Place → Word → Bool → Reading (Word × Bool)
  | 0, _, _, _ => complain "word too long"
  | fuel + 1, p, acc, quote => do
    let s ← get
    let push := fun (c : Char) (rest : List Char) => do
      set { s with rest, line := if c = '\n' then s.line + 1 else s.line }
      pieces fuel p (pushChar p.quoted c acc) quote
    match s.rest with
    | [] =>
      match p.ending with
      | .word => return (acc.reverse, quote)
      | .text => return (acc.reverse, quote)
      | .quote => complain "Unterminated quoted string"
      | .brace _ =>
        if p.quoted then complain "Unterminated quoted string" else complain "Missing '\x7d'"
      | .brackets _ => complain "Missing '))'"
    | '\\' :: '\n' :: rest =>
      set { s with rest, line := s.line + 1 }
      pieces fuel p acc quote
    | '\\' :: c :: rest =>
      let isBrace := match p.ending with
        | .brace _ => true
        | _ => false
      let kept := p.quoted && !(c = '\\' || c = '\x60' || c = '$' || (c = '"' && !p.document) ||
        (c = '\x7d' && isBrace))
      set { s with rest }
      let acc := if kept then pushChar true '\\' acc else acc
      pieces fuel p (pushChar true c acc) true
    | '\'' :: rest =>
      if p.quoted then push '\'' rest
      else match singleQuoted [] rest with
        | none =>
          set { s with rest := [], line := s.line + lineEnds rest }
          complain "Unterminated quoted string"
        | some (inside, after) =>
          set { s with rest := after, line := s.line + lineEnds inside }
          pieces fuel p (.text true (String.ofList inside) :: acc) true
    | '"' :: rest =>
      match p.ending, p.quoted with
      | .quote, _ =>
        set { s with rest }
        return (acc.reverse, true)
      | .brackets _, _ => push '"' rest
      | .text, _ => push '"' rest
      | .brace _, true =>
        set { s with rest }
        pieces fuel { p with inner := !p.inner } acc true
      | _, _ =>
        set { s with rest }
        let (inside, _) ← pieces fuel .double [] true
        let inside := if inside.isEmpty then [.text true ""] else inside
        pieces fuel p (inside.reverse ++ acc) true
    | '$' :: rest =>
      set { s with rest }
      let acc ← dollar fuel p acc
      pieces fuel p acc quote
    | '\x60' :: rest =>
      match backQuoted p.quoted [] rest with
      | none =>
        set { s with rest := [], line := s.line + lineEnds rest }
        complain "EOF in backquote substitution"
      | some (inside, after) =>
        set { s with rest := inside, line := 1, held := none, announced := [] }
        let script ← list fuel .any []
        modify fun t => { t with
          rest := after, line := s.line + lineEnds inside, held := s.held,
          announced := s.announced }
        pieces fuel p (.output p.quoted (script.getD []) :: acc) quote
    | '(' :: rest =>
      match p.ending with
      | .word => return (acc.reverse, quote)
      | .brackets depth =>
        set { s with rest }
        pieces fuel { p with ending := .brackets (depth + 1) } (pushChar p.quoted '(' acc) quote
      | _ => push '(' rest
    | ')' :: rest =>
      match p.ending with
      | .word => return (acc.reverse, quote)
      | .brackets 0 =>
        match dropJoins rest 0 with
        | (')' :: after, n) =>
          set { s with rest := after, line := s.line + n }
          return (acc.reverse, quote)
        | _ => push ')' rest
      | .brackets (depth + 1) =>
        set { s with rest }
        pieces fuel { p with ending := .brackets depth } (pushChar p.quoted ')' acc) quote
      | _ => push ')' rest
    | c :: rest =>
      match p.ending with
      | .word => if endsWord c then return (acc.reverse, quote) else push c rest
      | .brace stops =>
        if c = '\x7d' && !p.inner then
          set { s with rest }
          return (acc.reverse, quote)
        else if stops.contains c && !p.inner then return (acc.reverse, quote)
        else push c rest
      | _ => push c rest

/-- What stands after a dollar sign. -/
def dollar : (fuel : Nat) → Place → Word → Reading Word
  | 0, _, _ => complain "word too long"
  | fuel + 1, p, acc => do
    skipJoins
    let s ← get
    match s.rest with
    | '(' :: rest =>
      match dropJoins rest 0 with
      | ('(' :: rest, n) =>
        set { s with rest, line := s.line + n }
        let (expression, _) ← pieces fuel .expression [] false
        return .number p.quoted expression :: acc
      | (rest, n) =>
        set { s with rest, line := s.line + n, held := none, announced := [] }
        let script ← list fuel .any []
        match ← token fuel .none with
        | .mark ")" => pure ()
        | t => unexpected t (some ")")
        documents fuel
        modify fun t => { t with held := s.held, announced := s.announced }
        return .output p.quoted (script.getD []) :: acc
    | '\x7b' :: rest =>
      let (rest, n) := dropJoins rest 0
      set { s with rest, line := s.line + n }
      brace fuel p acc
    | '\'' :: rest =>
      if s.dialect = .extended && !p.quoted then
        match escapeQuoted [] (rest.length + 1) rest with
        | some (inside, after) =>
          set { s with rest := after, line := s.line + lineEnds inside }
          return .text true (String.ofList inside) :: acc
        | none => complain "Unterminated quoted string"
      else return pushChar p.quoted '$' acc
    | c :: rest =>
      if isNameStart c then
        let name ← takeRun isNameChar
        return .parameter p.quoted name .value [] :: acc
      else if isSpecial c then
        set { s with rest }
        return .parameter p.quoted (String.singleton c) .value [] :: acc
      else return pushChar p.quoted '$' acc
    | [] => return pushChar p.quoted '$' acc

/-- A parameter between braces. -/
def brace : (fuel : Nat) → Place → Word → Reading Word
  | 0, _, _ => complain "word too long"
  | fuel + 1, p, acc => do
    let s ← get
    let wordUpTo := fun (name : String) (use : Use) (pattern : Bool) => do
      let (word, _) ← pieces fuel (p.braces pattern []) [] false
      return .parameter p.quoted name use [word] :: acc
    match parameterName s.rest with
    | none => wordUpTo "" .malformed false
    | some (name, size, rest) =>
      let extra := if s.dialect = .extended && !size then extendedUse rest else none
      match extra with
      | some (use, 0, rest) =>
        set { s with rest }
        return .parameter p.quoted name use [] :: acc
      | some (use, _, rest) =>
        set { s with rest }
        let stop := if use = .slice then ':' else '/'
        let (first, _) ← pieces fuel (p.braces (use ≠ .slice) [stop]) [] false
        let t ← get
        -- The stop itself is still there unless the brace was closed.
        let consumed := s.rest.length - t.rest.length
        let closed := (s.rest.drop (consumed - 1)).head? = some '\x7d'
        match t.rest with
        | c :: after =>
          if c = stop && !closed then
            set { t with rest := after }
            let (second, _) ← pieces fuel (p.braces false []) [] false
            return .parameter p.quoted name use [first, second] :: acc
          else return .parameter p.quoted name use [first] :: acc
        | [] => return .parameter p.quoted name use [first] :: acc
      | none =>
        if size then
          set { s with rest }
          if rest.head? = some '\x7d' then
            set { s with rest := rest.drop 1 }
            return .parameter p.quoted name .size [] :: acc
          else wordUpTo name .malformed false
        else
          let (use, hasWord, rest) := parameterUse rest
          set { s with rest }
          if !hasWord then return .parameter p.quoted name use [] :: acc
          else
            let pattern := match use with
              | .dropFront _ => true
              | .dropBack _ => true
              | _ => false
            wordUpTo name use pattern

/-- The documents that were announced on this line. -/
def documents : (fuel : Nat) → Reading Unit
  | 0 => complain "document too long"
  | fuel + 1 => do
    let s ← get
    match s.announced with
    | [] => return ()
    | a :: others =>
      let (body, after, n) := documentBody a [] 0 false (Text.splitOn '\n' s.rest)
      let after := Text.joinWith '\n' after
      if a.quoted then
        set { s with
          rest := after, line := s.line + n, announced := others
          documents := (a.key, [.text true (String.ofList body)]) :: s.documents }
      else
        set { s with rest := body, held := none, announced := [] }
        let (word, _) ← pieces fuel .body [] false
        modify fun t => { t with
          rest := after, line := s.line + n, held := s.held, announced := others
          documents := (a.key, word) :: t.documents }
      documents fuel

/-- The next token, with no word special. -/
def rawToken : (fuel : Nat) → Reading Token
  | 0 => complain "line too long"
  | fuel + 1 => do
    let s ← get
    match s.held with
    | some t =>
      set { s with held := none }
      return t
    | none =>
      let (rest, n) := dropBlanks s.rest 0
      let s := { s with rest, line := s.line + n }
      let after := fun (rest : List Char) =>
        let (rest, n) := dropJoins rest 0
        { s with rest, line := s.line + n }
      match s.rest with
      | [] =>
        set s
        return .finish
      | '#' :: rest =>
        set { s with rest := rest.dropWhile (· ≠ '\n') }
        rawToken fuel
      | '\n' :: rest =>
        set { s with rest, line := s.line + 1 }
        return .newline
      | '&' :: rest =>
        let s := after rest
        match s.rest with
        | '&' :: rest =>
          set { s with rest }
          return .mark "&&"
        | '>' :: rest =>
          if s.dialect = .extended then
            match rest with
            | '>' :: rest =>
              set { s with rest }
              return .redirect none "&>>"
            | _ =>
              set { s with rest }
              return .redirect none "&>"
          else
            set s
            return .mark "&"
        | _ =>
          set s
          return .mark "&"
      | '|' :: rest =>
        let s := after rest
        match s.rest with
        | '|' :: rest =>
          set { s with rest }
          return .mark "||"
        | '&' :: rest =>
          if s.dialect = .extended then
            set { s with rest }
            return .mark "|&"
          else
            set s
            return .mark "|"
        | _ =>
          set s
          return .mark "|"
      | ';' :: rest =>
        let s := after rest
        match s.rest with
        | ';' :: rest =>
          set { s with rest }
          return .mark ";;"
        | _ =>
          set s
          return .mark ";"
      | '(' :: rest =>
        set { s with rest }
        return .mark "("
      | ')' :: rest =>
        set { s with rest }
        return .mark ")"
      | '<' :: rest =>
        set (after rest)
        arrow none '<'
      | '>' :: rest =>
        set (after rest)
        arrow none '>'
      | c :: '<' :: rest =>
        if c.isDigit then
          set (after rest)
          arrow (some (c.toNat - 48)) '<'
        else
          set s
          let (w, q) ← pieces fuel .bare [] false
          return .word w q
      | c :: '>' :: rest =>
        if c.isDigit then
          set (after rest)
          arrow (some (c.toNat - 48)) '>'
        else
          set s
          let (w, q) ← pieces fuel .bare [] false
          return .word w q
      | _ =>
        set s
        let (w, q) ← pieces fuel .bare [] false
        return .word w q

/-- The next token, with the special words in force. -/
def token : (fuel : Nat) → Keys → Reading Token
  | 0, _ => complain "line too long"
  | fuel + 1, k => do
    let t ← rawToken fuel
    match t with
    | .newline =>
      if k.newlines then
        documents fuel
        token fuel k
      else return .newline
    | .word w false =>
      match plainText? w with
      | none => return t
      | some text =>
        if k.reserved && reservedWords.contains text then return .mark text
        else if k.aliases then
          let s ← get
          match s.aliases.lookup text with
          | none => return t
          | some value =>
            let left := s.rest.length
            let busy := s.unfolding.filter fun u => u.2 < left
            if busy.any fun u => u.1 = text then return t
            else
              set { s with
                rest := value.toList ++ ' ' :: s.rest, unfolding := (text, left + 1) :: busy }
              token fuel k
        else return t
    | _ => return t

/-- Reads a list of commands; none if the text ends before a line of commands starts. -/
def list : (fuel : Nat) → ListKind → List Command → Reading (Option (List Command))
  | 0, _, _ => complain "list too long"
  | fuel + 1, kind, acc => do
    match ← token fuel { Keys.start with newlines := kind ≠ .line } with
    | .newline =>
      documents fuel
      return some acc.reverse
    | .finish =>
      documents fuel
      hold .finish
      return if acc.isEmpty && kind = .line then none else some acc.reverse
    | t =>
      hold t
      if endsList t && (kind = .any || (kind = .body && !acc.isEmpty)) then
        return some acc.reverse
      else
        let c ← andOr fuel
        match ← token fuel .none with
        | .finish =>
          documents fuel
          hold .finish
          return some (c :: acc).reverse
        | .newline =>
          hold .newline
          list fuel kind (c :: acc)
        | .mark ";" => list fuel kind (c :: acc)
        | .mark "&" => list fuel kind (.background c :: acc)
        | t =>
          if kind = .line then unexpected t none
          else
            hold t
            return some (c :: acc).reverse

/-- Pipelines between `&&` and `||`. -/
def andOr : (fuel : Nat) → Reading Command
  | 0 => complain "list too long"
  | fuel + 1 => do
    let first ← pipeline fuel .start
    andOrRest fuel first

def andOrRest : (fuel : Nat) → Command → Reading Command
  | 0, _ => complain "list too long"
  | fuel + 1, first => do
    match ← token fuel .none with
    | .mark "&&" =>
      let second ← pipeline fuel .later
      andOrRest fuel (.both first second)
    | .mark "||" =>
      let second ← pipeline fuel .later
      andOrRest fuel (.either first second)
    | t =>
      hold t
      return first

def pipeline : (fuel : Nat) → Keys → Reading Command
  | 0, _ => complain "list too long"
  | fuel + 1, k => do
    let t ← token fuel k
    let negated := match t with
      | .mark "!" => true
      | _ => false
    if !negated then hold t
    let first ← command fuel .start
    let all ← pipelineRest fuel [first]
    let c := match all with
      | [c] => c
      | cs => .pipeline cs
    return match negated with
      | true => .negation c
      | false => c

def pipelineRest : (fuel : Nat) → List Command → Reading (List Command)
  | 0, _ => complain "list too long"
  | fuel + 1, acc => do
    match ← token fuel .none with
    | .mark "|" =>
      let c ← command fuel .later
      pipelineRest fuel (c :: acc)
    | .mark "|&" =>
      let c ← command fuel .later
      let acc := match acc with
        | last :: others => .redirected 0 last [.copy 2 [.text true "1"]] :: others
        | [] => []
      pipelineRest fuel (c :: acc)
    | t =>
      hold t
      return acc.reverse

/-- A word that has to come next. -/
def expect : (fuel : Nat) → Keys → String → Reading Unit
  | 0, _, _ => complain "list too long"
  | fuel + 1, k, wanted => do
    match ← token fuel k with
    | .mark s => if s = wanted then return () else unexpected (.mark s) (some wanted)
    | t => unexpected t (some wanted)

def command : (fuel : Nat) → Keys → Reading Command
  | 0, _ => complain "list too long"
  | fuel + 1, k => do
    let t ← token fuel k
    let line := (← get).line
    match t with
    | .mark "if" =>
      let c ← condition fuel
      expect fuel .start "fi"
      trailing fuel line c []
    | .mark "while" => loopBody fuel line false
    | .mark "until" => loopBody fuel line true
    | .mark "for" =>
      let name ← token fuel .none
      match name with
      | .word w false =>
        match plainText? w with
        | some name =>
          if !isName name then complain "Bad for loop variable"
          else
            let c ← eachLoop fuel line name
            trailing fuel line c []
        | none => complain "Bad for loop variable"
      | _ => complain "Bad for loop variable"
    | .mark "case" =>
      match ← token fuel .none with
      | .word w _ =>
        expect fuel .later "in"
        let cases ← choices fuel []
        trailing fuel line (.choice line w cases) []
      | t => unexpected t (some "word")
    | .mark "(" =>
      let s ← get
      if s.dialect = .extended && s.rest.head? = some '(' then
        set { s with rest := s.rest.drop 1 }
        let (expression, _) ← pieces fuel .expression [] false
        trailing fuel line (.arithmetic line expression) []
      else
        let body ← list fuel .body []
        expect fuel .none ")"
        trailing fuel line (.subshell line (body.getD [])) []
    | .mark "\x7b" =>
      let body ← list fuel .body []
      expect fuel .none "\x7d"
      trailing fuel line (.group (body.getD [])) []
    | .word w false =>
      let s ← get
      match s.dialect, plainText? w with
      | .extended, some "[[" =>
        let words ← questionWords fuel []
        trailing fuel line (.question line words) []
      | .extended, some "function" =>
        match ← token fuel .none with
        | .word n _ =>
          let name := (plainText? n).getD ""
          match ← token fuel .later with
          | .mark "(" => expect fuel .none ")"
          | t => hold t
          let body ← command fuel .later
          return .define line name body
        | t => unexpected t none
      | _, _ =>
        hold t
        simple fuel line [] [] []
    | .word _ true =>
      hold t
      simple fuel line [] [] []
    | .redirect _ _ =>
      hold t
      simple fuel line [] [] []
    | t => unexpected t none

/-- The words up to the double brackets. -/
def questionWords : (fuel : Nat) → List Word → Reading (List Word)
  | 0, _ => complain "list too long"
  | fuel + 1, acc => do
    match ← token fuel { Keys.none with newlines := true } with
    | .word w q =>
      if !q && plainText? w = some "]]" then return acc.reverse
      else questionWords fuel (w :: acc)
    | .mark s => questionWords fuel ([.text false s] :: acc)
    | .redirect _ s => questionWords fuel ([.text false s] :: acc)
    | t => unexpected t (some "]]")

def condition : (fuel : Nat) → Reading Command
  | 0 => complain "list too long"
  | fuel + 1 => do
    let test ← list fuel .body []
    expect fuel .none "then"
    let positive ← list fuel .body []
    let negative ← do
      match ← token fuel .none with
      | .mark "elif" => pure [← condition fuel]
      | .mark "else" => pure ((← list fuel .body []).getD [])
      | t =>
        hold t
        pure []
    return .condition (test.getD []) (positive.getD []) negative

/-- What stands after `while` and `until`. -/
def loopBody : (fuel : Nat) → Nat → Bool → Reading Command
  | 0, _, _ => complain "list too long"
  | fuel + 1, line, negated => do
    let test ← list fuel .body []
    expect fuel .none "do"
    let body ← list fuel .body []
    expect fuel .none "done"
    trailing fuel line (.loop negated (test.getD []) (body.getD [])) []

def eachLoop : (fuel : Nat) → Nat → String → Reading Command
  | 0, _, _ => complain "list too long"
  | fuel + 1, line, name => do
    let words ← do
      match ← token fuel .later with
      | .mark "in" => pure (some (← eachWords fuel []))
      | .mark ";" => pure none
      | t =>
        hold t
        pure none
    expect fuel .later "do"
    let body ← list fuel .body []
    expect fuel .none "done"
    return .each line name words (body.getD [])

def eachWords : (fuel : Nat) → List Word → Reading (List Word)
  | 0, _ => complain "list too long"
  | fuel + 1, acc => do
    match ← token fuel .none with
    | .word w _ => eachWords fuel (w :: acc)
    | .newline => return acc.reverse
    | .mark ";" => return acc.reverse
    | t => unexpected t none

/-- The cases up to `esac`. -/
def choices : (fuel : Nat) → List (List Word × List Command) →
    Reading (List (List Word × List Command))
  | 0, _ => complain "list too long"
  | fuel + 1, acc => do
    match ← token fuel .reservedLater with
    | .mark "esac" => return acc.reverse
    | .mark "(" =>
      let patterns ← casePatterns fuel (← token fuel .none) []
      choiceBody fuel acc patterns
    | t =>
      let patterns ← casePatterns fuel t []
      choiceBody fuel acc patterns

def choiceBody : (fuel : Nat) → List (List Word × List Command) → List Word →
    Reading (List (List Word × List Command))
  | 0, _, _ => complain "list too long"
  | fuel + 1, acc, patterns => do
    let body ← list fuel .any []
    let acc := (patterns, body.getD []) :: acc
    match ← token fuel .reservedLater with
    | .mark "esac" => return acc.reverse
    | .mark ";;" => choices fuel acc
    | t => unexpected t (some ";;")

/-- Reads the patterns of a case, the first of which is given, and the bracket after them. -/
def casePatterns : (fuel : Nat) → Token → List Word → Reading (List Word)
  | 0, _, _ => complain "list too long"
  | fuel + 1, t, acc => do
    let pattern : Word ← match t with
      | .word w _ => pure w
      | .mark s =>
        if reservedWords.contains s then pure [.text false s] else unexpected t (some ")")
      | t => unexpected t (some ")")
    match ← token fuel .none with
    | .mark "|" => casePatterns fuel (← token fuel .none) (pattern :: acc)
    | .mark ")" => return (pattern :: acc).reverse
    | t => unexpected t (some ")")

def target : (fuel : Nat) → Option Nat → String → Reading Redirect
  | 0, _, _ => complain "list too long"
  | fuel + 1, descriptor, operator => do
    match ← token fuel .none with
    | .word w quoted =>
      let input := descriptor.getD 0
      let output := descriptor.getD 1
      match operator with
      | "<" => return .file input .read w
      | ">" => return .file output .write w
      | ">|" => return .file output .overwrite w
      | ">>" => return .file output .append w
      | "<>" => return .file input .readWrite w
      | "<&" => return .copy input w
      | ">&" => return .copy output w
      | "<<<" => return .word input w
      | "&>" => return .both .write w
      | "&>>" => return .both .append w
      | _ =>
        let s ← get
        let a : Announced :=
          { key := s.nextKey, ending := delimiterText w, stripped := operator = "<<-", quoted }
        set { s with nextKey := s.nextKey + 1, announced := s.announced ++ [a] }
        return .document input s.nextKey
    | t => unexpected t none

/-- The redirections after a compound command. -/
def trailing : (fuel : Nat) → Nat → Command → List Redirect → Reading Command
  | 0, _, _, _ => complain "list too long"
  | fuel + 1, line, c, acc => do
    match ← token fuel .start with
    | .redirect descriptor operator =>
      let r ← target fuel descriptor operator
      trailing fuel line c (r :: acc)
    | t =>
      hold t
      let dialect := (← get).dialect
      return if acc.isEmpty then c else withRedirects dialect line c acc.reverse

def simple : (fuel : Nat) → Nat → List (String × Bool × Word) → List Word → List Redirect →
    Reading Command
  | 0, _, _, _, _ => complain "list too long"
  | fuel + 1, line, assignments, words, redirects => do
    match ← token fuel { Keys.none with aliases := words.isEmpty } with
    | .word w _ =>
      match assignment? (← get).dialect w with
      | some a =>
        if words.isEmpty then simple fuel line (a :: assignments) words redirects
        else simple fuel line assignments (w :: words) redirects
      | none => simple fuel line assignments (w :: words) redirects
    | .redirect descriptor operator =>
      let r ← target fuel descriptor operator
      simple fuel line assignments words (r :: redirects)
    | .mark "(" =>
      match words, assignments, redirects with
      | [w], [], [] =>
        expect fuel .none ")"
        let name := (plainText? w).getD ""
        let s ← get
        let allowed := if s.dialect = Dialect.extended then decide (name ≠ "")
          else isName name && !specialBuiltins.contains name
        if !allowed then complain "Bad function name"
        else
          let line := (← get).line
          let body ← command fuel .later
          return .define line name body
      | _, _, _ =>
        hold (.mark "(")
        return .simple line assignments.reverse words.reverse redirects.reverse
    | t =>
      hold t
      return .simple line assignments.reverse words.reverse redirects.reverse

end

/-- Reads the next line of commands; none at the end of the text.  Gives the source after it, also
    after a complaint. -/
def nextLine (s : Source) : Except Complaint (Option (List Command)) × Source :=
  match (list s.fuel .line []).run { s with held := none, announced := [] } with
  | .ok cs s => (.ok cs, s)
  | .error e s => (.error e, s)

def Source.ofText (text : String) (dialect : Dialect) : Source :=
  { rest := text.toList, line := 1, held := none, announced := [], documents := [], nextKey := 0,
    aliases := [], unfolding := [], dialect }

end Concolic.Shell
