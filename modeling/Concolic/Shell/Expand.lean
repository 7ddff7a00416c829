import Concolic.Machine
import Concolic.Shell.State

/-
  Putting values into words.

  For a command, values are split at the separators and what is not quoted is matched with file
  names, so that one word may become any number of fields; elsewhere a word becomes one text.
-/

namespace Concolic.Shell

/-- Text that stands in the script, quoted text, or a value. -/
inductive Chunk where
  | literal (s : String)
  | quoted (s : String)
  | value (s : String)
  /-- The boundary between two arguments. -/
  | gap
  deriving DecidableEq, Repr

/-- Runs a script inside a word and gives what it printed. -/
abbrev Capture := List Command → State → String × State

def chunkText (cs : List Chunk) : String :=
  String.join (cs.map fun
    | .literal s => s
    | .quoted s => s
    | .value s => s
    | .gap => " ")

/-- Chunks as characters that may be quoted. -/
def chunkGlyphs (cs : List Chunk) : List Glyph :=
  cs.flatMap fun
    | .literal s => glyphs false s
    | .quoted s => glyphs true s
    | .value s => glyphs false s
    | .gap => [⟨' ', false⟩]

/-! ## Splitting -/

/-- What stands before the next character. -/
inductive Edge where
  | inside
  /-- A field was ended by a blank. -/
  | blank
  /-- A field was ended by another separator. -/
  | hard
  deriving DecidableEq

/-- A word that is being split: the fields so far, last one first, and the one being read. -/
structure Splitting where
  fields : List (List Glyph)
  current : Option (List Glyph)
  edge : Edge

/-- A separator of which many count as one. -/
def isBlankSeparator (c : Char) : Bool := c = ' ' || c = '\t' || c = '\n'

def Splitting.finish (p : Splitting) (edge : Edge) : Splitting :=
  match p.current with
  | some f => ⟨f.reverse :: p.fields, none, edge⟩
  | none => { p with edge }

/-- Takes one character of a value. -/
def Splitting.step (separators : List Char) (p : Splitting) (c : Char) : Splitting :=
  if !separators.contains c then ⟨p.fields, some (⟨c, false⟩ :: p.current.getD []), .inside⟩
  else if isBlankSeparator c then
    if p.current.isSome then p.finish .blank else p
  else if p.current.isSome then p.finish .hard
  else if p.edge = .blank then { p with edge := .hard }
  else ⟨[] :: p.fields, none, .hard⟩

def Splitting.take (separators : List Char) (p : Splitting) : Chunk → Splitting
  | .literal s =>
    if s = "" then p
    else ⟨p.fields, some (s.toList.foldl (fun f c => ⟨c, false⟩ :: f) (p.current.getD [])), .inside⟩
  | .quoted s =>
    ⟨p.fields, some (s.toList.foldl (fun f c => ⟨c, true⟩ :: f) (p.current.getD [])), .inside⟩
  | .value s => s.toList.foldl (Splitting.step separators) p
  | .gap => p.finish .inside

/-- The fields of a word. -/
def splitFields (separators : String) (cs : List Chunk) : List (List Glyph) :=
  ((cs.foldl (Splitting.take separators.toList) ⟨[], none, .inside⟩).finish .inside).fields.reverse

/-! ## Values -/

/-- A home at the start of a text: that of the user, or of somebody who is named. -/
def tildeText (s : State) (text : String) : String :=
  match text.toList with
  | '~' :: rest =>
    let name := String.ofList (rest.takeWhile (· ≠ '/'))
    let home := if name = "" then s.value? "HOME" else Machine.homes.lookup name
    match home with
    | some home => home ++ String.ofList (rest.drop name.length)
    | none => text
  | _ => text

def expandTilde (s : State) : Word → Word
  | .text false t :: rest =>
    match t.toList with
    | '~' :: more =>
      if rest.isEmpty || more.contains '/' then
        let expanded := tildeText s t
        if expanded = t then .text false t :: rest else .text true expanded :: rest
      else .text false t :: rest
    | _ => .text false t :: rest
  | w => w

/-- What stands between arguments that are joined. -/
def joiner (s : State) : String := String.ofList (s.separators.toList.take 1)

def argumentChunks (s : State) (quoted split : Bool) (name : String) : List Chunk :=
  let args := s.shell.args
  if name = "*" && (quoted || !split) then
    let joined := (joiner s).intercalate args
    if quoted then [.quoted joined] else [.value joined]
  else if !split then
    let joined := " ".intercalate args
    if quoted then [.quoted joined] else [.value joined]
  else
    (args.map fun a => if quoted then Chunk.quoted a else .value a).intersperse .gap

/-- The text for a parameter without a value. -/
def unsetComplaint (name : String) (orNull : Bool) : String :=
  name ++ ": parameter not set" ++ if orNull then " or null" else ""

/-- The part of a text from a place on; a negative place counts from the end. -/
def sliceText (text : String) (start : Int) (length : Option Int) : String :=
  let cs := text.toList
  let size : Int := cs.length
  let first := if start < 0 then size + start else start
  if first < 0 || first > size then ""
  else
    let rest := cs.drop first.toNat
    match length with
    | none => String.ofList rest
    | some n =>
      if n < 0 then String.ofList (rest.take (size + n - first).toNat)
      else String.ofList (rest.take n.toNat)

/-- Replaces the first match, or every one. -/
def replaceMatches (p : Pattern) (new : List Char) (every : Bool) :
    (fuel : Nat) → List Char → List Char
  | 0, cs => cs
  | _ + 1, [] => []
  | fuel + 1, c :: rest =>
    match matchLength p (c :: rest) with
    | some 0 => c :: replaceMatches p new every fuel rest
    | some n =>
      let after := (c :: rest).drop n
      new ++ if every then replaceMatches p new every fuel after else after
    | none => c :: replaceMatches p new every fuel rest

/-- A text with a replacement for matches of a pattern, anywhere or at one end. -/
def substituteText (p : Pattern) (new : List Char) (every : Bool) (anchor : Option Char)
    (text : String) : String :=
  let cs := text.toList
  match anchor with
  | some '#' => match matchLength p cs with
    | some n => String.ofList (new ++ cs.drop n)
    | none => text
  | some _ =>
    match (List.range (cs.length + 1)).find? fun n => p.matches (cs.drop n) with
    | some n => String.ofList (cs.take n ++ new)
    | none => text
  | none => String.ofList (replaceMatches p new every (cs.length + 1) cs)

def changeLetters (upper every : Bool) (text : String) : String :=
  let change := if upper then Text.toUpper else Text.toLower
  match text.toList with
  | [] => ""
  | c :: rest => String.ofList (change c :: if every then rest.map change else rest)

/-! ## Pieces -/

def valueChunk (quoted : Bool) (s : String) : Chunk := if quoted then .quoted s else .value s

/-- The chunks of a word that stands for a value: its own text is split like one. -/
def asValues (quoted : Bool) (cs : List Chunk) : List Chunk :=
  if quoted then cs
  else cs.map fun
    | .literal s => .value s
    | c => c

def assignAll (s : State) : List (String × Int64) → Except String State
  | [] => .ok s
  | (name, v) :: rest =>
    match s.assign? name (showValue v) with
    | some s => assignAll s rest
    | none => .error (name ++ ": is read only")

/-- The value of an arithmetic expression. -/
def arithmeticValue (s : State) (source : String) : Except String (Int64 × State) :=
  match evaluate s.shell.dialect (fun name => s.parameter? name) source with
  | .error e => .error e
  | .ok (v, assigned) =>
    match assignAll s assigned with
    | .error e => .error e
    | .ok s => .ok (v, s)

def dropLineEnds (text : String) : String :=
  match text.toList.getLast? with
  | some '\n' => String.ofList (text.toList.reverse.dropWhile (· = '\n')).reverse
  | _ => text

def dropNul (text : String) : String :=
  if text.toList.contains '\x00' then String.ofList (text.toList.filter (· ≠ '\x00')) else text

mutual

/-- The chunks of a word.  `split` says that they are going to be split into fields. -/
def expandWord (capture : Capture) : (fuel : Nat) → (split : Bool) → Word → State →
    List Chunk × State
  | 0, _, _, s => ([], s)
  | _ + 1, _, [], s => ([], s)
  | fuel + 1, split, piece :: rest, s =>
    if !s.isNormal then ([], s)
    else
      let (first, s) := expandPiece capture fuel split piece s
      let (others, s) := expandWord capture fuel split rest s
      (first ++ others, s)

/-- The chunks of a piece. -/
def expandPiece (capture : Capture) : (fuel : Nat) → (split : Bool) → Piece → State →
    List Chunk × State
  | 0, _, _, s => ([], s)
  | fuel + 1, split, piece, s =>
    match piece with
    | .text true t => ([.quoted t], s)
    | .text false t => ([.literal t], s)
    | .output quoted script =>
      let (text, s) := capture script s
      ([valueChunk quoted (dropLineEnds (dropNul text))], s)
    | .number quoted expression =>
      let (chunks, s) := expandWord capture fuel false expression s
      if !s.isNormal then ([], s)
      else match arithmeticValue s (chunkText chunks) with
        | .ok (v, s) => ([valueChunk quoted (showValue v)], s)
        | .error e => ([], s.abort e)
    | .parameter quoted name use words => expandParameter capture fuel split quoted name use words s

/-- The chunks of a parameter in one of its uses. -/
def expandParameter (capture : Capture) : (fuel : Nat) → (split quoted : Bool) → String → Use →
    List Word → State → List Chunk × State
  | 0, _, _, _, _, _, s => ([], s)
  | fuel + 1, split, quoted, name, use, words, s =>
    let isAll := name = "@" || name = "*"
    let word := words.headD []
    let value := if isAll then
        (if s.shell.args.isEmpty && s.shell.dialect = .extended then none
          else some (chunkText (argumentChunks s true false name)))
      else s.parameter? name
    -- between quotes there is always a text, even if it is empty
    let settled := fun (cs : List Chunk) =>
      if quoted && cs.isEmpty then [Chunk.quoted ""] else asValues quoted cs
    let chunks := fun (s : State) =>
      if isAll then argumentChunks s quoted split name
      else match value with
        | some v => [valueChunk quoted v]
        | none => [valueChunk quoted ""]
    let missing := fun (empty : Bool) => match value with
      | none => true
      | some v => empty && v = ""
    let complainUnset := fun (s : State) => s.abort (unsetComplaint name false)
    match use with
    | .value =>
      if value.isNone && !isAll && s.has 'u' then ([], complainUnset s)
      else (chunks s, s)
    | .size =>
      if isAll && s.shell.dialect = .extended then
        ([valueChunk quoted (Nat.repr s.shell.args.length)], s)
      else if value.isNone && !isAll && s.has 'u' then ([], complainUnset s)
      else ([valueChunk quoted (Nat.repr (value.getD "").length)], s)
    | .fallback empty =>
      if missing empty then
        let (cs, s) := expandWord capture fuel split (expandTilde s word) s
        (settled cs, s)
      else (settled (chunks s), s)
    | .instead empty =>
      if missing empty then (settled [], s)
      else
        let (cs, s) := expandWord capture fuel split (expandTilde s word) s
        (settled cs, s)
    | .assign empty =>
      if missing empty then
        let (cs, s) := expandWord capture fuel false (expandTilde s word) s
        if !s.isNormal then ([], s)
        else if !isName name then ([], s.abort (name ++ ": bad variable name"))
        else match s.assign? name (chunkText cs) with
          | some s => ([valueChunk quoted (chunkText cs)], s)
          | none => ([], s.abort (name ++ ": is read only"))
      else (chunks s, s)
    | .demand empty =>
      if missing empty then
        let (cs, s) := expandWord capture fuel false word s
        if !s.isNormal then ([], s)
        else if word.isEmpty then
          let orNull := empty
          if s.shell.dialect = .extended then
            ([], (s.warn (name ++ ": parameter null or not set")).exit 127)
          else ([], s.abort (unsetComplaint name orNull))
        else if s.shell.dialect = .extended then
          ([], (s.warn (name ++ ": " ++ chunkText cs)).exit 127)
        else ([], s.abort (name ++ ": " ++ chunkText cs))
      else (chunks s, s)
    | .dropFront longest =>
      if value.isNone && s.has 'u' then ([], complainUnset s)
      else
        let (cs, s) := expandWord capture fuel false (expandTilde s word) s
        let p := Pattern.ofGlyphs (s.shell.dialect = .extended) (chunkGlyphs cs)
        ([valueChunk quoted (String.ofList (dropFront p longest (value.getD "").toList))], s)
    | .dropBack longest =>
      if value.isNone && s.has 'u' then ([], complainUnset s)
      else
        let (cs, s) := expandWord capture fuel false (expandTilde s word) s
        let p := Pattern.ofGlyphs (s.shell.dialect = .extended) (chunkGlyphs cs)
        ([valueChunk quoted (String.ofList (dropBack p longest (value.getD "").toList))], s)
    | .slice =>
      let (first, s) := expandWord capture fuel false word s
      let (second, s) := expandWord capture fuel false ((words.drop 1).headD []) s
      match arithmeticValue s (chunkText first), arithmeticValue s (chunkText second) with
      | .ok (a, _), .ok (b, _) =>
        let length := if words.length < 2 then none else some b.toInt
        if isAll then
          let all := s.shell.name :: s.shell.args
          let picked := (all.drop a.toInt.toNat).take (length.getD all.length).toNat
          ((picked.map fun x => valueChunk quoted x).intersperse .gap, s)
        else ([valueChunk quoted (sliceText (value.getD "") a.toInt length)], s)
      | .error e, _ => ([], s.abort e)
      | _, .error e => ([], s.abort e)
    | .substitute every anchor =>
      let (old, s) := expandWord capture fuel false word s
      let (new, s) := expandWord capture fuel false ((words.drop 1).headD []) s
      let p := Pattern.ofGlyphs true (chunkGlyphs old)
      ([valueChunk quoted (substituteText p (chunkText new).toList every anchor (value.getD ""))],
        s)
    | .letters upper every => ([valueChunk quoted (changeLetters upper every (value.getD ""))], s)
    | .malformed => ([], s.abort "Bad substitution")

end

/-! ## Words -/

def nesting : Nat := 10000

def wordText (capture : Capture) (w : Word) (s : State) : String × State :=
  let (cs, s) := expandWord capture nesting false (expandTilde s w) s
  (chunkText cs, s)

def wordGlyphs (capture : Capture) (w : Word) (s : State) : List Glyph × State :=
  let (cs, s) := expandWord capture nesting false (expandTilde s w) s
  (chunkGlyphs cs, s)

/-- The word of an assignment with the user's home for tildes at its start and after colons. -/
def assignmentWord (s : State) (w : Word) : Word :=
  let expandAll := fun (t : String) =>
    ":".intercalate ((Text.splitOn ':' t.toList).map fun part => tildeText s (String.ofList part))
  match w with
  | [.text false t] =>
    let expanded := expandAll t
    if expanded = t then w else [.text true expanded]
  | _ => expandTilde s w

def wordFields (capture : Capture) (w : Word) (s : State) : List String × State :=
  match plainText? w with
  | some t =>
    if t ≠ "" && t.toList.all (fun c => isNameChar c || c = '-' || c = '/' || c = '.' || c = ':')
    then ([t], s)
    else general
  | none => general
where
  general : List String × State :=
    let (cs, s) := expandWord capture nesting true (expandTilde s w) s
    if !s.isNormal then ([], s)
    else
      let fields := splitFields s.separators cs
      let names := fields.flatMap fun f =>
        if s.has 'f' then [glyphText f]
        else match fileNames s.world.tree s.shell.cwd (s.shell.dialect = .extended) f with
          | [] => [glyphText f]
          | found => found
      (names, s)

def allFields (capture : Capture) : List Word → State → List String × State
  | [], s => ([], s)
  | w :: rest, s =>
    let (first, s) := wordFields capture w s
    if !s.isNormal then ([], s)
    else
      let (others, s) := allFields capture rest s
      (first ++ others, s)

end Concolic.Shell
