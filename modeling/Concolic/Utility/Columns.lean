import Concolic.Utility.Reading

/-
  Programs that work on the characters or the fields of lines.
-/

namespace Concolic.Utility

/-! ## Parts of lines -/

/-- A range of positions from one on; without an end it goes on for ever. -/
structure Span where
  first : Nat
  last : Option Nat

def inSpans (spans : List Span) (n : Nat) : Bool :=
  spans.any fun s => s.first ≤ n && s.last.all fun l => n ≤ l

/-- Spans between commas. -/
def readSpans (fields : Bool) (text : String) : Except String (List Span) :=
  let kind := if fields then "field value " else "byte/character position "
  let zero : String := if fields then "fields are numbered from 1"
    else "byte/character positions are numbered from 1"
  (Text.splitOn ',' (text.toList.map fun c => if c = ' ' || c = '\t' then ',' else c)).foldr
    (fun part acc => do
      let spans ← acc
      let left := part.takeWhile (· ≠ '-')
      let right := part.drop (left.length + 1)
      let isRange := part.contains '-'
      if !left.all Char.isDigit || !right.all Char.isDigit then
        throw ("invalid " ++ kind ++ quotedPlainly (String.ofList part))
      else if part.isEmpty then throw zero
      else if isRange && left.isEmpty && right.isEmpty then
        throw "invalid range with no endpoint: -"
      else
        let a := (Text.ofDigits? 10 left).getD 1
        let b := if isRange then Text.ofDigits? 10 right else some a
        if a = 0 || (b = some 0 && !isRange) then throw zero
        else if b.any fun b => b < a then throw "invalid decreasing range"
        else return ⟨a, b⟩ :: spans)
    (.ok [])

/-- The members of a list at positions for which the test holds, counted from one. -/
def selected {α : Type} (test : Nat → Bool) (xs : List α) : List α :=
  ((xs.zipIdx 1).filter fun x => test x.2).map (·.1)

def cut (c : Call) : Effect :=
  let options := Options.ofLetters "snz" "bcfd"
    [("bytes", 'b', .yes), ("characters", 'c', .yes), ("fields", 'f', .yes),
      ("delimiter", 'd', .yes),
     ("only-delimited", 's', .no), ("complement", 'C', .no), ("output-delimiter", 'O', .yes)]
  c.withOptions options fun given operands =>
    let lists := given.filter fun g => g.letter = 'b' || g.letter = 'c' || g.letter = 'f'
    match lists with
    | [] => c.misuse 1 "you must specify a list of bytes, characters, or fields"
    | _ :: _ :: _ => c.misuse 1 "only one list may be specified"
    | [g] =>
      let fields := g.letter = 'f'
      let delimiter := (valueOf? given 'd').getD "\t"
      if delimiter.length > 1 then c.misuse 1 "the delimiter must be a single character"
      else if has given 'd' && !fields then
        c.misuse 1 "an input delimiter may be specified only when operating on fields"
      else if has given 's' && !fields then
        c.misuse 1 "suppressing non-delimited lines makes sense\n\tonly when operating on fields"
      else match readSpans fields (g.value.getD "") with
        | .error e => c.misuse 1 e
        | .ok spans =>
          let sep := delimiter.toList.headD '\x00'
          let test := fun n => inSpans spans n != has given 'C'
          let joiner := ((valueOf? given 'O').getD (if fields then delimiter else "")).toList
          c.overTexts operands plainComplaint fun e _ text =>
            let (lines, _) := linesOf text
            let shown := lines.filterMap fun line =>
              if fields then
                if line.contains sep then
                  some (List.intercalate joiner (selected test (Text.splitOn sep line)))
                else if has given 's' then none
                else some line
              else some (selected test line)
            e.say (unlines shown)

/-- The characters between the columns, where a backslash starts a name for one or for none. -/
def delimiters : List Char → List (Option Char)
  | '\\' :: 'n' :: rest => some '\n' :: delimiters rest
  | '\\' :: 't' :: rest => some '\t' :: delimiters rest
  | '\\' :: '0' :: rest => none :: delimiters rest
  | '\\' :: c :: rest => some c :: delimiters rest
  | c :: rest => some c :: delimiters rest
  | [] => []

/-- One line of each file, joined. -/
def joinTurn (between : List (Option Char)) (texts : List (List Char)) : List Char :=
  match texts with
  | [] => []
  | first :: rest =>
    first ++ (rest.zipIdx.flatMap fun (t, i) =>
      (((between[i % between.length]?).getD none).toList) ++ t)

/-- Distributes the lines of the standard input among the operands that stand for it. -/
def dealLines (operands : Nat) (which : Nat) (lines : List (List Char)) : List (List Char) :=
  (lines.zipIdx.filter fun l => l.2 % operands = which).map (·.1)

def paste (c : Call) : Effect :=
  let options := Options.ofLetters "sz" "d" [("serial", 's', .no), ("delimiters", 'd', .yes)]
  c.withOptions options fun given operands =>
    let between := delimiters ((valueOf? given 'd').getD "\t").toList
    let between := if between.isEmpty then [none] else between
    let paths := orInput operands
    let shares := (paths.filter isStandardInput).length
    let numbered := (paths.foldl
      (fun (acc : List (String × Nat) × Nat) p =>
        if isStandardInput p then ((p, acc.2) :: acc.1, acc.2 + 1) else ((p, 0) :: acc.1, acc.2))
      ([], 0)).1.reverse
    let close := if has given 'z' then '\x00' else '\n'
    let read := numbered.map fun (p, i) =>
      (p, (c.readOperand p).map fun text =>
        let lines := (piecesOf close text).1
        if isStandardInput p && !has given 's' then dealLines shares i lines else lines)
    let failed := read.foldl
      (fun e (p, r) => match r with
        | .error f => e.complain 1 (c.name ++ ": " ++ plainComplaint p f)
        | .ok _ => e)
      c.idle
    let columns := read.filterMap fun (_, r) => match r with
      | .ok lines => some lines
      | .error f => if f = .isADirectory then some [] else none
    let print := fun (rows : List (List Char)) =>
      (failed.say (String.ofList (rows.flatMap fun row => row ++ [close]))).reading paths
    if has given 's' then print (columns.map (joinTurn between))
    else if columns.length < paths.length then failed.reading paths
    else
      let height := columns.foldl (fun n col => max n col.length) 0
      let arrays := columns.map List.toArray
      print ((List.range height).map fun i =>
        joinTurn between (arrays.map fun col => (col[i]?).getD []))

def columnAfter (bytes : Bool) (column : Nat) (c : Char) : Nat :=
  if bytes then column + 1
  else if c = '\x08' then column - 1
  else if c = '\r' then 0
  else if c = '\t' then column + 8 - column % 8
  else column + 1

/-- A line that is being put into pieces: the pieces, last first, and the last characters first. -/
structure Folding where
  pieces : List (List Char)
  piece : List Char
  column : Nat

/-- Goes on with a character.  A piece that would be too wide ends before it, or after the last
    blank if `spaces` holds and there is one. -/
def Folding.push (width : Nat) (bytes spaces : Bool) : (fuel : Nat) → Folding → Char → Folding
  | 0, f, c => { f with piece := c :: f.piece }
  | fuel + 1, f, c =>
    let column := columnAfter bytes f.column c
    let word := f.piece.takeWhile fun c => c ≠ ' ' && c ≠ '\t'
    if column ≤ width then { f with piece := c :: f.piece, column }
    else if spaces && word.length < f.piece.length then
      push width bytes spaces fuel
        { pieces := (f.piece.drop word.length) :: f.pieces, piece := word,
          column := word.reverse.foldl (columnAfter bytes) 0 } c
    else if f.piece.isEmpty then { f with piece := [c], column }
    else push width bytes spaces fuel ⟨f.piece :: f.pieces, [], 0⟩ c

def folded (width : Nat) (bytes spaces : Bool) (line : List Char) : List (List Char) :=
  let f := line.foldl (Folding.push width bytes spaces 4) ⟨[], [], 0⟩
  ((f.piece :: f.pieces).map List.reverse).reverse

def fold (c : Call) : Effect :=
  let args := c.args.map fun a => match numbered? '-' a with
    | some (digits, letters) => "-w" ++ digits ++ String.ofList letters
    | none => a
  let options := Options.ofLetters "bs" "w"
    [("bytes", 'b', .no), ("spaces", 's', .no), ("width", 'w', .yes)]
  let call : Call := { c with args }
  call.withOptions options fun given operands =>
    let width := given.foldl
      (fun acc g => do
        let width ← acc
        if g.letter ≠ 'w' then return width
        else
          let text := g.value.getD ""
          let wrong := "invalid number of columns: " ++ quotedPlainly text
          match Text.ofDigits? 10 text.toList with
          | none => throw wrong
          | some 0 => throw (wrong ++ ": Numerical result out of range")
          | some n =>
            if Text.limit64 ≤ n then throw (wrong ++ ": Value too large for defined data type")
            else return n)
      (.ok 80 : Except String Nat)
    match width with
    | .error e => c.fail 1 e
    | .ok width =>
      c.overTexts operands plainComplaint fun e _ text =>
        let (lines, ended) := linesOf text
        let shown := unlines (lines.flatMap (folded width (has given 'b') (has given 's')))
        e.say (if ended then shown else String.ofList shown.toList.dropLast)

/-- Where tabs lead to: every so many columns, or to given columns and then to the next one. -/
inductive TabStops where
  | every (width : Nat)
  | columns (stops : List Nat)

def TabStops.after (stops : TabStops) (column : Nat) : Nat :=
  match stops with
  | .every width => column + (width - column % width)
  | .columns stops => (stops.find? (column < ·)).getD (column + 1)

/-- Stops between commas. -/
def TabStops.read (text : String) : Except String TabStops :=
  let parts := (Text.splitOn ',' (text.toList.map fun c => if c = ' ' then ',' else c)).filter
    fun part => !part.isEmpty
  match parts.find? fun part => !part.all Char.isDigit with
  | some part =>
    .error ("tab size contains invalid character(s): " ++
      quotedPlainly (String.ofList (part.dropWhile Char.isDigit)))
  | none =>
    let sizes := parts.map fun part => (Text.ofDigits? 10 part).getD 0
    if sizes.contains 0 then .error "tab size cannot be 0"
    else if (sizes.zip (sizes.drop 1)).any fun p => p.2 ≤ p.1 then
      .error "tab sizes must be ascending"
    else match sizes with
      | [] => .ok (.every 8)
      | [width] => .ok (.every width)
      | _ => .ok (.columns sizes)

def expanded (stops : TabStops) (initial : Bool) (line : List Char) : List Char :=
  (line.foldl
    (fun (acc : List Char × Nat × Bool) c =>
      let (out, column, started) := acc
      if c = '\t' && !(initial && started) then
        let next := stops.after column
        (List.replicate (next - column) ' ' ++ out, next, started)
      else if c = '\x08' then (c :: out, column - 1, true)
      else (c :: out, column + 1, started || c ≠ ' '))
    ([], 0, false)).1.reverse

def expand (c : Call) : Effect :=
  let args := c.args.map fun a => match numbered? '-' a with
    | some (digits, more) => "-t" ++ digits ++ String.ofList more
    | none => a
  let call : Call := { c with args }
  call.withOptions
    (Options.ofLetters "i" "t" [("tabs", 't', .yes), ("initial", 'i', .no)])
    fun given operands =>
      let texts := (given.filter fun g => g.letter = 't').filterMap (·.value)
      match TabStops.read (",".intercalate texts) with
      | .error e => c.fail 1 e
      | .ok stops =>
        c.overTexts operands plainComplaint fun e _ text =>
          let (lines, ended) := linesOf text
          let shown := unlines (lines.map (expanded stops (has given 'i')))
          e.say (if ended then shown else String.ofList shown.toList.dropLast)

/-! ## Characters -/

/-- A part of an alphabet. -/
inductive Letters where
  | listed (cs : List Char)
  | named (name : String) (cs : List Char)
  /-- The characters that sort like one. -/
  | alike (c : Char)
  | times (c : Char) (n : Nat)
  /-- A character as often as it takes to reach a length. -/
  | filler (c : Char)

/-- The characters that are listed. -/
def Letters.chars : Letters → List Char
  | .listed cs => cs
  | .named _ cs => cs
  | .alike c => [c]
  | .times c n => List.replicate n c
  | .filler _ => []

/-- Characters in order. -/
abbrev Alphabet := List Letters

/-- A character of an alphabet, with backslash sequences, and what follows. -/
def alphabetChar : List Char → Option (Char × List Char)
  | '\\' :: 'n' :: rest => some ('\n', rest)
  | '\\' :: 't' :: rest => some ('\t', rest)
  | '\\' :: 'r' :: rest => some ('\r', rest)
  | '\\' :: 'a' :: rest => some ('\x07', rest)
  | '\\' :: 'b' :: rest => some ('\x08', rest)
  | '\\' :: 'f' :: rest => some ('\x0c', rest)
  | '\\' :: 'v' :: rest => some ('\x0b', rest)
  | '\\' :: '\\' :: rest => some ('\\', rest)
  | ['\\'] => some ('\\', [])
  | '\\' :: c :: rest =>
    let isOctal := fun (c : Char) => '0' ≤ c && c ≤ '7'
    if isOctal c then
      let digits := ((c :: rest).take 3).takeWhile isOctal
      let n := (Text.ofDigits? 8 digits).getD 0
      let digits := if n < 256 then digits else digits.take 2
      some (Char.ofNat ((Text.ofDigits? 8 digits).getD 0), (c :: rest).drop digits.length)
    else some (c, rest)
  | c :: rest => some (c, rest)
  | [] => none

def allBytes : List Char := (List.range 256).map Char.ofNat

/-- The text up to two characters. -/
def upToPair (a b : Char) (acc : List Char) : List Char → Option (List Char × List Char)
  | c :: d :: rest =>
    if c = a && d = b then some (acc.reverse, rest) else upToPair a b (c :: acc) (d :: rest)
  | _ => none

/-- What stands in brackets at the start of an alphabet: `[:class:]`, `[=c=]` or `[c*n]`. -/
def bracketed (cs : List Char) : Option (Except String Letters × List Char) :=
  let repeated := fun (rest : List Char) =>
    match alphabetChar rest with
    | some (c, '*' :: more) =>
      let count := more.takeWhile (· ≠ ']')
      match more.drop count.length with
      | ']' :: rest =>
        if count.isEmpty then some (.ok (.filler c), rest)
        else match Text.ofDigits? (if count.head? = some '0' then 8 else 10) count with
          | some 0 => some (.ok (.filler c), rest)
          | some n => some (.ok (.times c n), rest)
          | none =>
            some (.error ("invalid repeat count " ++ quotedPlainly (String.ofList count) ++
              " in [c*n] construct"), rest)
      | _ => none
    | _ => none
  match cs with
  | '[' :: ':' :: rest =>
    match upToPair ':' ']' [] rest with
    | some (name, rest) =>
      let name := String.ofList name
      match Text.classMember? name with
      | some test => some (.ok (.named name (allBytes.filter test)), rest)
      | none =>
        some (.error (if name = "" then "missing character class name '[::]'"
          else "invalid character class " ++ quotedPlainly name), rest)
    | none => repeated (':' :: rest)
  | '[' :: '=' :: rest =>
    match upToPair '=' ']' [] rest with
    | some ([], rest) => some (.error "missing equivalence class character '[==]'", rest)
    | some ([c], rest) => some (.ok (.alike c), rest)
    | some (cs, rest) =>
      some (.error (String.ofList cs ++ ": equivalence class operand must be a single character"),
        rest)
    | none => repeated ('=' :: rest)
  | '[' :: rest => repeated rest
  | _ => none

/-- Reads a list of characters. -/
def readAlphabet (acc : Alphabet) : (fuel : Nat) → List Char → Except String Alphabet
  | 0, _ => .ok acc.reverse
  | fuel + 1, cs =>
    match bracketed cs with
    | some (.error e, _) => .error e
    | some (.ok letters, rest) => readAlphabet (letters :: acc) fuel rest
    | none =>
      match alphabetChar cs with
      | none => .ok acc.reverse
      | some (a, '-' :: more) =>
        match alphabetChar more with
        | none => readAlphabet (.listed [a, '-'] :: acc) fuel []
        | some (b, rest) =>
          if b < a then
            .error ("range-endpoints of '" ++ String.ofList [a, '-', b] ++
              "' are in reverse collating sequence order")
          else
            let members := (List.range (b.toNat - a.toNat + 1)).map fun i =>
              Char.ofNat (a.toNat + i)
            readAlphabet (.listed members :: acc) fuel rest
      | some (a, rest) => readAlphabet (.listed [a] :: acc) fuel rest

namespace Alphabet

/-- The characters, each filler repeated. -/
def filledBy (a : Alphabet) (n : Nat) : List Char :=
  a.flatMap fun
    | .filler c => List.replicate n c
    | letters => letters.chars

def chars (a : Alphabet) : List Char := a.filledBy 0

/-- The characters, filled to a length. -/
def filled (a : Alphabet) (length : Nat) : List Char := a.filledBy (length - a.chars.length)

def fillers (a : Alphabet) : Nat :=
  a.countP fun
    | .filler _ => true
    | _ => false

/-- The classes with their positions. -/
def classes (a : Alphabet) : List (Nat × String) :=
  (a.foldl
    (fun (acc : List (Nat × String) × Nat) letters =>
      (match letters with
        | .named name _ => (acc.2, name) :: acc.1
        | _ => acc.1, acc.2 + letters.chars.length))
    ([], 0)).1.reverse

def isCase (name : String) : Bool := name = "upper" || name = "lower"

/-- What is wrong with two alphabets, the second of which the first is turned into. -/
def mismatch? (complement truncate : Bool) (set1 : List Char) (first second : Alphabet) :
    Option String :=
  let cases := first.classes.filter fun (_, name) => isCase name
  let length := (second.filled set1.length).length
  let endsInClass := match second.getLast? with
    | some (.named _ _) => true
    | _ => false
  if 1 < second.fillers then some "only one [c*] repeat construct may appear in string2"
  else if second.any fun
      | .alike _ => true
      | _ => false then
    some "[=c=] expressions may not appear in string2 when translating"
  else if second.classes.any fun (_, name) => !isCase name then
    some ("when translating, the only character classes that may appear in\n" ++
      "string2 are 'upper' and 'lower'")
  else if !complement && second.classes.any fun (i, _) =>
      i < set1.length && !cases.any fun (j, _) => i = j then
    some "misaligned [:upper:] and/or [:lower:] construct"
  else if length < set1.length && !truncate && length = 0 then
    some "when not truncating set1, string2 must be non-empty"
  else if length < set1.length && !truncate && endsInClass then
    some ("when translating with string1 longer than string2,\n" ++
      "the latter string must not end with a character class")
  else if complement && !first.classes.isEmpty &&
      ((second.filled set1.length).any fun c => some c ≠ (second.filled set1.length).head?) then
    some ("when translating with complemented character classes,\n" ++
      "string2 must map all characters in the domain to one")
  else none

end Alphabet

/-- Warns of a backslash at the end. -/
def backslashWarning (c : Call) (e : Effect) (text : String) : Effect :=
  if (text.toList.reverse.takeWhile (· = '\\')).length % 2 = 1 then
    e.complain e.status
      (c.name ++ ": warning: an unescaped backslash at end of string is not portable")
  else e

def squeezed (test : Char → Bool) (cs : List Char) : List Char :=
  (cs.foldl
    (fun acc c => match acc with
      | last :: _ => if last = c && test c then acc else c :: acc
      | [] => [c])
    []).reverse

def tr (c : Call) : Effect :=
  let options := Options.ofLetters "cCdst" ""
    [("complement", 'c', .no), ("delete", 'd', .no), ("squeeze-repeats", 's', .no),
     ("truncate-set1", 't', .no)]
  match readLeadingOptions options c.args with
  | .error e => c.misuse 1 e
  | .ok (given, operands) =>
    let delete := has given 'd'
    let squeeze := has given 's'
    let most := if delete && !squeeze then 1 else 2
    let least := if delete != squeeze then 1 else 2
    if operands.isEmpty then c.misuse 1 "missing operand"
    else if operands.length < least then
      c.misuse 1 ("missing operand after " ++ quotedPlainly (operands.getLastD "") ++
        (if squeeze then "\nTwo strings must be given when both deleting and squeezing repeats."
          else "\nTwo strings must be given when translating."))
    else if operands.length > most then
      c.misuse 1 ("extra operand " ++ quotedPlainly (operands.getD most "") ++
        (if most = 1 && operands.length = 2 then
          "\nOnly one string may be given when deleting without squeezing repeats." else ""))
    else
      let read := fun (s : String) => readAlphabet [] (s.length + 1) s.toList
      let e := operands.foldl (backslashWarning c) c.idle
      let fail := fun (text : String) => e.complain 1 (c.name ++ ": " ++ text)
      match read (operands.getD 0 ""), read (operands.getD 1 "") with
      | .error e, _ => fail e
      | _, .error e => fail e
      | .ok first, .ok second =>
        let complement := has given 'c' || has given 'C'
        let set1 := if complement then allBytes.filter fun b => !first.chars.contains b
          else first.chars
        let translating := !delete && operands.length = 2
        let wrong := if 0 < first.fillers then
            some "the [c*] repeat construct may not appear in string1"
          else if translating then Alphabet.mismatch? complement (has given 't') set1 first second
          else if 0 < second.fillers then
            some "the [c*] construct may appear in string2 only when translating"
          else none
        match wrong with
        | some text => fail text
        | none =>
          let set2 := second.filled set1.length
          let text := ((c.input.get.toOption).getD "").toList
          let table1 := (allBytes.map fun b => set1.contains b).toArray
          let in1 := fun (b : Char) => (table1[b.toNat]?).getD false
          let in2 := fun (b : Char) => set2.contains b
          let print := fun (cs : List Char) => { e.say (String.ofList cs) with taken := .all }
          if delete then
            let kept := text.filter fun b => !in1 b
            print (if squeeze then squeezed in2 kept else kept)
          else if !translating then print (squeezed in1 text)
          else
            let set1 := if has given 't' then set1.take set2.length else set1
            let set2 := set2 ++ List.replicate (set1.length - set2.length) (set2.getLastD '\x00')
            let pairs := (set1.zip set2).reverse
            let table := (allBytes.map fun b => (pairs.lookup b).getD b).toArray
            let changed := text.map fun b => (table[b.toNat]?).getD b
            print (if squeeze then squeezed in2 changed else changed)

end Concolic.Utility
