import Concolic.Utility.Reading

/-
  Programs that put lines in order or compare files.
-/

namespace Concolic.Utility

open Concolic.Text (decode ofOctets)

/-! ## Comparing lines -/

/-- Byte by byte. -/
def compareBytes : List Char → List Char → Ordering
  | [], [] => .eq
  | [], _ => .lt
  | _, [] => .gt
  | a :: as, b :: bs => if a < b then .lt else if b < a then .gt else compareBytes as bs

/-- The number at the start of a text, as digits before and after the point. -/
def leadingDecimal (cs : List Char) : Bool × Nat × List Char :=
  let cs := cs.dropWhile isSpace
  let (negative, cs) := match cs with
    | '-' :: rest => (true, rest)
    | _ => (false, cs)
  let whole := cs.takeWhile Char.isDigit
  let fraction := match cs.drop whole.length with
    | '.' :: rest => rest.takeWhile Char.isDigit
    | _ => []
  (negative, (Text.ofDigits? 10 whole).getD 0, (fraction.reverse.dropWhile (· = '0')).reverse)

/-- By the numbers at the start. -/
def compareNumbers (a b : List Char) : Ordering :=
  let (na, wa, fa) := leadingDecimal a
  let (nb, wb, fb) := leadingDecimal b
  let zero := fun (w : Nat) (f : List Char) => w = 0 && f.isEmpty
  let na := na && !zero wa fa
  let nb := nb && !zero wb fb
  let size := (compare wa wb).then (compareBytes fa fb)
  match na, nb with
  | false, false => size
  | true, true => size.swap
  | true, false => .lt
  | false, true => .gt

/-- The rank of the unit after a number. -/
def unitRank (cs : List Char) : Nat :=
  let cs := (cs.dropWhile isSpace).dropWhile fun c => c = '-' || c.isDigit || c = '.'
  match cs with
  | c :: _ => match "KMGTPEZY".toList.findIdx? (· = Text.toUpper c) with
    | some i => i + 1
    | none => 0
  | [] => 0

/-- The order of two version texts: runs of digits count as numbers. -/
def compareVersions : (fuel : Nat) → List Char → List Char → Ordering
  | 0, a, b => compareBytes a b
  | fuel + 1, a, b =>
    let wordA := a.takeWhile fun c => !c.isDigit
    let wordB := b.takeWhile fun c => !c.isDigit
    match compareBytes wordA wordB with
    | .eq =>
      let a := a.drop wordA.length
      let b := b.drop wordB.length
      let numA := a.takeWhile Char.isDigit
      let numB := b.takeWhile Char.isDigit
      match compare ((Text.ofDigits? 10 numA).getD 0) ((Text.ofDigits? 10 numB).getD 0) with
      | .eq =>
        if numA.isEmpty && numB.isEmpty then .eq
        else compareVersions fuel (a.drop numA.length) (b.drop numB.length)
      | o => o
    | o => o

/-! ## Sorting -/

/-- How keys are compared. -/
structure KeyOrder where
  numeric : Bool
  human : Bool
  version : Bool
  month : Bool
  foldCase : Bool
  blanks : Bool
  dictionary : Bool
  reverse : Bool

/-- The order that letters ask for. -/
def KeyOrder.ofLetters (cs : List Char) : KeyOrder :=
  { numeric := cs.contains 'n' || cs.contains 'g', human := cs.contains 'h',
    version := cs.contains 'V', month := cs.contains 'M', foldCase := cs.contains 'f',
    blanks := cs.contains 'b', dictionary := cs.contains 'd', reverse := cs.contains 'r' }

def monthRank (cs : List Char) : Nat :=
  let word := String.ofList (((cs.dropWhile isSpace).take 3).map Text.toUpper)
  match ["JAN", "FEB", "MAR", "APR", "MAY", "JUN", "JUL", "AUG", "SEP", "OCT",
    "NOV", "DEC"].findIdx?
      (· = word) with
  | some i => i + 1
  | none => 0

def KeyOrder.compare (o : KeyOrder) (a b : List Char) : Ordering :=
  let result :=
    if o.human then (Ord.compare (unitRank a) (unitRank b)).then (compareNumbers a b)
    else if o.numeric then compareNumbers a b
    else if o.month then Ord.compare (monthRank a) (monthRank b)
    else
      let prepare := fun (cs : List Char) =>
        let cs := if o.dictionary then cs.filter fun c => c.isAlphanum || c = ' ' ||
          c = '\t' else cs
        if o.foldCase then cs.map Text.toUpper else cs
      if o.version then compareVersions (a.length + 1) (prepare a) (prepare b)
      else compareBytes (prepare a) (prepare b)
  if o.reverse then result.swap else result

/-- A key: where it starts and ends in a line, and how it is compared. -/
structure SortKey where
  startField : Nat
  startChar : Nat
  endField : Option Nat
  endChar : Nat
  letters : List Char
  order : Option KeyOrder
  startBlanks : Bool
  endBlanks : Bool

/-- Where the field of a number starts, counted from zero, and the rest of the line from there. -/
def dropFields (separator : Option Char) : (n : Nat) → List Char → List Char
  | 0, cs => cs
  | n + 1, cs =>
    match separator with
    | some sep =>
      match cs.dropWhile (· ≠ sep) with
      | [] => []
      | _ :: rest => dropFields separator n rest
    | none =>
      let isGap := fun (c : Char) => c = ' ' || c = '\t' || c = '\n'
      dropFields separator n ((cs.dropWhile isGap).dropWhile fun c => !isGap c)

/-- The part of a line that a key is about. -/
def SortKey.part (k : SortKey) (separator : Option Char) (line : List Char) : List Char :=
  let isGap := fun (c : Char) => c = ' ' || c = '\t'
  let fromField := dropFields separator (k.startField - 1) line
  let fromField := if k.startBlanks then fromField.dropWhile isGap else fromField
  let start := fromField.drop (k.startChar - 1)
  match k.endField with
  | none => start
  | some field =>
    let after :=
      if k.endChar = 0 then
        let rest := dropFields separator field line
        match separator with
        | some _ => if rest.isEmpty && (dropFields separator (field - 1) line).all
            (· ≠ separator.getD ' ')
          then 0 else rest.length + 1
        | none => rest.length
      else
        let rest := dropFields separator (field - 1) line
        let rest := if k.endBlanks then rest.dropWhile isGap else rest
        (rest.drop k.endChar).length
    start.take (start.length - after)

/-- A number at the start of a text and what follows it; a text without one is refused. -/
def keyNumber (what : String) (cs : List Char) : Except String (Nat × List Char) :=
  let digits := cs.takeWhile Char.isDigit
  match Text.ofDigits? 10 digits with
  | some n => .ok (n, cs.drop digits.length)
  | none => .error (what ++ ": invalid count at start of " ++ quotedPlainly (String.ofList cs))

/-- A position such as `2.3nr` in the definition of a key: field, character, letters, and what
    follows. -/
def readPosition (whole : String) (isStart : Bool) (cs : List Char) :
    Except String (Nat × Nat × List Char × List Char) := do
  let wrong := fun (what : String) => what ++ ": invalid field specification " ++
    quotedPlainly whole
  let (field, rest) ← keyNumber
    (if isStart then "invalid number at field start" else "invalid number after ','") cs
  if field = 0 then throw (wrong "field number is zero")
  let (char, rest) ← match rest with
    | '.' :: more =>
      match keyNumber "invalid number after '.'" more with
      | .ok (0, rest) =>
          if isStart then throw (wrong "character offset is zero") else pure (0, rest)
      | r => r
    | _ => pure (0, rest)
  let letters := rest.takeWhile fun c => "bdfghiMnRrV".toList.contains c
  return (field, char, letters, rest.drop letters.length)

def readKey (text : String) : Except String SortKey := do
  let stray := "stray character in field spec: invalid field specification " ++ quotedPlainly text
  let (f, c, letters, rest) ← readPosition text true text.toList
  let (hasEnd, f', c', letters') ← match rest with
    | [] => pure (false, 0, 0, [])
    | ',' :: more =>
      match readPosition text false more with
      | .ok (f', c', letters', []) => pure (true, f', c', letters')
      | .ok _ => throw stray
      | .error e => throw e
    | _ => throw stray
  let all := letters ++ letters'
  return { startField := f, startChar := max 1 c, endField := if hasEnd then some f' else none,
           endChar := c', letters := all,
           order := if all.isEmpty then none else some (KeyOrder.ofLetters all),
           startBlanks := letters.contains 'b', endBlanks := letters'.contains 'b' }

/-- Letters that ask for two ways to compare at once, as a complaint shows them. -/
def clash? (letters : List Char) : Option String :=
  let has := fun (c : Char) => letters.contains c
  let ways := ("nghM".toList.filter has).length +
    (if has 'V' || has 'R' || has 'd' || has 'i' then 1 else 0)
  if 1 < ways then some (String.ofList ("dfghiMnRV".toList.filter has)) else none

/-- The order of two lines by keys, then as a whole unless that is not wanted. -/
def lineOrder (keys : List SortKey) (separator : Option Char) (whole : KeyOrder) (lastResort : Bool)
    (a b : List Char) : Ordering :=
  let byKeys := if keys.isEmpty then whole.compare a b
    else keys.foldl
      (fun acc k => match acc with
        | .eq =>
          let order := k.order.getD whole
          let k := if whole.blanks && k.order.isNone then { k with startBlanks := true } else k
          order.compare (k.part separator a) (k.part separator b)
        | o => o)
      .eq
  match byKeys with
  | .eq =>
    if lastResort then
      if whole.reverse then (compareBytes a b).swap else compareBytes a b
    else .eq
  | o => o

def distinct (order : List Char → List Char → Ordering) (lines : List (List Char)) :
    List (List Char) :=
  (lines.foldl
    (fun acc line => match acc with
      | last :: _ => if order last line = .eq then acc else line :: acc
      | [] => [line])
    []).reverse

/-- The first line that is not in order. -/
def disorder (order : List Char → List Char → Ordering) (strict : Bool) :
    (n : Nat) → List (List Char) → Option (Nat × List Char)
  | n, a :: b :: rest =>
    match order a b with
    | .gt => some (n + 1, b)
    | .eq => if strict then some (n + 1, b) else disorder order strict (n + 1) (b :: rest)
    | .lt => disorder order strict (n + 1) (b :: rest)
  | _, _ => none

def sort (c : Call) : Effect :=
  let options := Options.ofLetters "bdfghiMnRrVcCmsuz" "kotST"
    [("reverse", 'r', .no), ("numeric-sort", 'n', .no), ("unique", 'u', .no), ("key", 'k', .yes),
     ("field-separator", 't', .yes), ("output", 'o', .yes), ("ignore-case", 'f', .no),
     ("ignore-leading-blanks", 'b', .no), ("stable", 's', .no), ("check", 'c', .attached),
     ("human-numeric-sort", 'h', .no), ("version-sort", 'V', .no), ("merge", 'm', .no),
     ("dictionary-order", 'd', .no), ("month-sort", 'M', .no), ("general-numeric-sort", 'g', .no)]
  match readOptions options c.args with
  | .error e => c.misuse 2 e
  | .ok (given, operands) =>
    let keyTexts := (given.filter fun g => g.letter = 'k').filterMap (·.value)
    match keyTexts.mapM readKey with
    | .error e => c.fail 2 e
    | .ok keys =>
      let separators := (given.filter fun g => g.letter = 't').filterMap (·.value)
      let letters := given.map (·.letter)
      let keyLetters := if keys.isEmpty then [letters]
        else keys.map fun k => if k.letters.isEmpty then letters else k.letters
      let close := if has given 'z' then '\x00' else '\n'
      let incompatible := fun (options : String) =>
        c.fail 2 ("options '-" ++ options ++ "' are incompatible")
      match separators.find? fun t => t.length > 1 && t ≠ "\\0" with
      | some t => c.fail 2 ("multi-character tab " ++ quotedPlainly t)
      | none =>
        let checking := has given 'c' || has given 'C'
        if separators.contains "" then c.fail 2 "empty tab"
        else if separators.any fun t => some t ≠ separators.head? then c.fail 2 "incompatible tabs"
        else match keyLetters.findSome? clash? with
          | some options => incompatible options
          | none =>
            if has given 'c' && has given 'C' then incompatible "cC"
            else if checking && has given 'o' then
              incompatible (if has given 'c' then "co" else "Co")
            else if checking && 1 < operands.length then
              c.fail 2 ("extra operand " ++ quotedPlainly (operands.getD 1 "") ++
                " not allowed with -" ++ (if has given 'c' then "c" else "C"))
            else run given operands letters keys
              (separators.head?.bind fun t => t.toList.head?) close
where
  /-- Sorts or checks the lines of the operands. -/
  run (given : List Given) (operands : List String) (letters : List Char) (keys : List SortKey)
      (separator : Option Char) (close : Char) : Effect :=
    let whole := KeyOrder.ofLetters letters
    let unique := has given 'u'
    let order := lineOrder keys separator whole (!unique && !has given 's')
    let operands := orInput operands
    let bad := operands.findSome? fun p => match c.readOperand p with
      | .error f => some (p, f)
      | .ok _ => none
    match bad with
    | some (p, f) =>
      (if f = .isADirectory then c.fail 2 ("read failed: " ++ shown p ++ ": " ++ reason f)
        else c.fail 2 ("cannot read: " ++ shown p ++ ": " ++ reason f)).reading operands
    | none =>
      let lines := (c.texts operands).flatMap fun (_, read) =>
        match read with
        | .ok text => (piecesOf close text).1
        | .error _ => []
      if has given 'c' || has given 'C' then
        match disorder order unique 1 lines with
        | some (n, line) =>
          let e := if has given 'C' then { c.idle with status := 1 }
            else c.fail 1 (operands.headD "-" ++ ":" ++ Nat.repr n ++ ": disorder: " ++
              String.ofList line)
          e.reading operands
        | none => c.idle.reading operands
      else
        let sorted := lines.mergeSort fun a b => order a b != .gt
        let chosen := if unique then distinct order sorted else sorted
        let result := String.ofList (chosen.flatMap fun line => line ++ [close])
        match valueOf? given 'o' with
        | none => (c.print result).reading operands
        | some path =>
          match c.tree.write c.cwd (decode path) (ofOctets result) with
          | .ok t => (c.idle.onTree t).reading operands
          | .error f =>
              (c.fail 2 ("open failed: " ++ shown path ++ ": " ++ reason f)).reading operands

/-- The part of a line that is compared. -/
def neighbourKey (given : List Given) (line : List Char) : List Char :=
  let number := fun (letter : Char) =>
    (valueOf? given letter).bind fun v => Text.ofDigits? 10 v.toList
  let rec skipFields : Nat → List Char → List Char
    | 0, cs => cs
    | n + 1, cs =>
      let isGap := fun (c : Char) => c = ' ' || c = '\t'
      skipFields n ((cs.dropWhile isGap).dropWhile fun c => !isGap c)
  let rest := (skipFields ((number 'f').getD 0) line).drop ((number 's').getD 0)
  let rest := match number 'w' with
    | some n => rest.take n
    | none => rest
  if has given 'i' then rest.map Text.toLower else rest

/-- Groups of equal neighbours. -/
def runsOf (key : List Char → List Char) (lines : List (List Char)) : List (List (List Char)) :=
  ((lines.foldl
    (fun (acc : List (List (List Char))) line => match acc with
      | (last :: run) :: rest =>
        if key last = key line then (line :: last :: run) :: rest else [line] :: acc
      | _ => [line] :: acc)
    []).map List.reverse).reverse

def uniq (c : Call) : Effect :=
  let options := Options.ofLetters "cdDuiz" "fsw"
    [("count", 'c', .no), ("repeated", 'd', .no), ("unique", 'u', .no), ("ignore-case", 'i', .no),
     ("skip-fields", 'f', .yes), ("skip-chars", 's', .yes), ("check-chars", 'w', .yes)]
  c.withOptions options fun given operands =>
    let wrong := given.findSome? fun (g : Given) =>
      let text := g.value.getD ""
      if (Text.ofDigits? 10 text.toList).isSome then none
      else match g.letter with
        | 'f' => some (text ++ ": invalid number of fields to skip")
        | 's' => some (text ++ ": invalid number of bytes to skip")
        | 'w' => some (text ++ ": invalid number of bytes to compare")
        | _ => none
    match wrong, operands with
    | some e, _ => c.fail 1 e
    | none, _ :: _ :: extra :: _ => c.misuse 1 ("extra operand " ++ quotedPlainly extra)
    | none, _ =>
      if has given 'D' && has given 'c' then
        c.misuse 1 "printing all duplicated lines and repeat counts is meaningless"
      else
        let path := operands.headD "-"
        match c.readOperand path with
        | .error f =>
          if f = .isADirectory then c.fail 1 ("error reading " ++ quoted path ++ ": " ++ reason f)
          else c.fail 1 (plainComplaint path f)
        | .ok text =>
          let runs := runsOf (neighbourKey given) (linesOf text).1
          let runs := runs.filter fun r =>
            (!(has given 'd' || has given 'D') || r.length > 1) && (!has given 'u' || r.length = 1)
          let shown := runs.flatMap fun r =>
            if has given 'D' then r
            else match r with
              | first :: _ =>
                [if has given 'c' then (rightAligned 7 r.length ++ " ").toList ++ first else first]
              | [] => []
          let e := match operands with
            | [_, out] =>
              match c.tree.write c.cwd (decode out) (ofOctets (unlines shown)) with
              | .ok t => c.idle.onTree t
              | .error f => c.fail 1 (plainComplaint out f)
            | _ => c.print (unlines shown)
          e.reading [path]

/-! ## Comparing files -/

/-- The columns of lines in the first file only, the second only, and both. -/
def merged : (fuel : Nat) → List (List Char) → List (List Char) → List (Nat × List Char)
  | 0, _, _ => []
  | _ + 1, [], bs => bs.map fun b => (2, b)
  | _ + 1, as, [] => as.map fun a => (1, a)
  | fuel + 1, a :: as, b :: bs =>
    match compareBytes a b with
    | .lt => (1, a) :: merged fuel as (b :: bs)
    | .gt => (2, b) :: merged fuel (a :: as) bs
    | .eq => (3, a) :: merged fuel as bs

def comm (c : Call) : Effect :=
  let options := Options.ofLetters "123z" ""
    [("check-order", 'k', .no), ("nocheck-order", 'n', .no), ("output-delimiter", 'O', .yes)]
  c.withOptions options fun given operands =>
    match operands with
    | [] => c.misuse 1 "missing operand"
    | [one] => c.misuse 1 ("missing operand after " ++ quotedPlainly one)
    | [a, b] =>
      match c.readOperand a, c.readOperand b with
      | .error f, _ => c.fail 1 (plainComplaint a f)
      | _, .error f => c.fail 1 (plainComplaint b f)
      | .ok ta, .ok tb =>
        let la := (linesOf ta).1
        let lb := (linesOf tb).1
        let sep := (valueOf? given 'O').getD "\t"
        let rows := merged (la.length + lb.length + 1) la lb
        let text := rows.map fun (col, line) =>
          let letter := Char.ofNat (48 + col)
          if has given letter then ""
          else
            let before := ((if 1 < col && !has given '1' then [sep] else []) ++
              (if 2 < col && !has given '2' then [sep] else []))
            String.join before ++ String.ofList line ++ "\n"
        let unsorted := fun (lines : List (List Char)) =>
          (disorder compareBytes false 1 lines).isSome
        let e := c.print (String.join text)
        let e := if unsorted la && !has given 'n' then
            e.complain 1 (c.name ++ ": file 1 is not in sorted order")
          else e
        let e := if unsorted lb && !has given 'n' then
            e.complain 1 (c.name ++ ": file 2 is not in sorted order")
          else e
        let e := if e.status = 1 then
            e.complain 1 (c.name ++ ": input is not in sorted order")
          else e
        e.reading operands
    | _ :: _ :: extra :: _ => c.misuse 1 ("extra operand " ++ quotedPlainly extra)

/-- Where two texts differ first. -/
def firstDifference : (byte line : Nat) → List Char → List Char → Option (Nat × Nat)
  | n, line, a :: as, b :: bs =>
    if a = b then firstDifference (n + 1) (if a = '\n' then line + 1 else line) as bs
    else some (n, line)
  | _, _, _, _ => none

def octal (n : Nat) : String := String.ofList (Nat.toDigits 8 n)

/-- A byte to base eight, in three columns. -/
def octalAligned (c : Char) : String :=
  let digits := octal c.toNat
  String.ofList (List.replicate (3 - digits.length) ' ') ++ digits

/-- How much of each file is skipped. -/
def readOffsets (text : String) : Option (Nat × Nat) :=
  match Text.splitOn ':' text.toList with
  | [both] => (sizeOf? (String.ofList both)).map fun n => (n, n)
  | [a, b] => do return (← sizeOf? (String.ofList a), ← sizeOf? (String.ofList b))
  | _ => none

/-- A byte for people. -/
def shownByte (c : Char) : String :=
  if c = '\n' then "^J" else String.ofList (visible true c)

def cmp (c : Call) : Effect :=
  let options := Options.ofLetters "slb" "in"
    [("silent", 's', .no), ("quiet", 's', .no), ("verbose", 'l', .no), ("print-bytes", 'b', .no),
     ("ignore-initial", 'i', .yes), ("bytes", 'n', .yes)]
  let misuse := fun (text : String) =>
    c.fail 2 (text ++ "\n" ++ c.name ++ ": Try '" ++ c.name ++ " --help' for more information.")
  match readOptions options c.args with
  | .error e => misuse e
  | .ok (given, operands) =>
    let a := operands.headD ""
    let b := operands.getD 1 "-"
    let skips := ((given.filter fun g => g.letter = 'i').filterMap (·.value)) ++
      (operands.drop 2).take 2
    let counts := (given.filter fun g => g.letter = 'n').filterMap (·.value)
    let silent := has given 's'
    match skips.find? fun t => (readOffsets t).isNone, counts.find? fun t => (sizeOf? t).isNone with
    | some t, _ => misuse ("invalid --ignore-initial value " ++ quotedPlainly t)
    | none, some t => misuse ("invalid --bytes value " ++ quotedPlainly t)
    | none, none =>
      if has given 'l' && silent then misuse "options -l and -s are incompatible"
      else if operands.isEmpty then misuse ("missing operand after " ++ quotedPlainly c.name)
      else if 4 < operands.length then
        misuse ("extra operand " ++ quotedPlainly (operands.getD 4 ""))
      else if isSame a b then c.idle
      else
        let fail := fun (path : String) (f : Fault) =>
          if silent then { c.idle with status := 2 } else c.fail 2 (plainComplaint path f)
        match c.readOperand a, c.readOperand b with
        | .error f, _ => fail a f
        | _, .error f => fail b f
        | .ok ta, .ok tb =>
          let both := ((valueOf? given 'i').bind readOffsets).getD (0, 0)
          let offset := fun (i usual : Nat) => match operands[i]? with
            | some t => (sizeOf? t).getD usual
            | none => usual
          let limit := fun (cs : List Char) => match counts.getLast?.bind sizeOf? with
            | some n => cs.take n
            | none => cs
          let ca := limit (ta.toList.drop (offset 2 both.1))
          let cb := limit (tb.toList.drop (offset 3 both.2))
          (compared given a b ca cb).reading [a, b]
where
  isSame (a b : String) : Bool :=
    match c.locate c.tree true a, c.locate c.tree true b with
    | .ok x, .ok y => x = y || c.tree.sameFile x y
    | _, _ => false
  /-- Compares two texts and says where they differ. -/
  compared (given : List Given) (a b : String) (ca cb : List Char) : Effect :=
    let difference := firstDifference 1 1 ca cb
    if has given 's' then { c.idle with status := if ca = cb then 0 else 1 }
    else
      let verbose := has given 'l'
      let bytes := has given 'b'
      let e := match difference with
        | none => c.idle
        | some (byte, line) =>
          let printed := if verbose then
              let width := (Nat.repr (min ca.length cb.length)).length
              String.join (((ca.zip cb).zipIdx 1).filterMap fun (p : (Char × Char) × Nat) =>
                let (x, y) := p.1
                if x = y then none
                else some (rightAligned width p.2 ++ " " ++ octalAligned x ++ " " ++
                  (if bytes then
                    let text := shownByte x
                    text ++ String.ofList (List.replicate (4 - text.length) ' ') ++ " "
                  else "") ++ octalAligned y ++ (if bytes then " " ++ shownByte y else "") ++ "\n"))
            else
              let x := ca.getD (byte - 1) ' '
              let y := cb.getD (byte - 1) ' '
              a ++ " " ++ b ++ " differ: " ++ (if bytes then "byte " else "char ") ++
                Nat.repr byte ++ ", line " ++ Nat.repr line ++
                (if bytes then " is " ++ octalAligned x ++ " " ++ shownByte x ++ " " ++
                  octalAligned y ++ " " ++ shownByte y else "") ++ "\n"
          { c.print printed with status := 1 }
      if ca.length = cb.length || (difference.isSome && !verbose) then e
      else
        let (short, text) := if ca.length < cb.length then (a, ca) else (b, cb)
        let ends := countEnds text
        e.complain 1 (c.name ++ ": EOF on " ++ shown short ++
          (if text.isEmpty then " which is empty"
          else " after byte " ++ Nat.repr text.length ++
            (if verbose then ""
            else if text.getLast? = some '\n' then ", line " ++ Nat.repr ends
            else ", in line " ++ Nat.repr (ends + 1))))

end Concolic.Utility
