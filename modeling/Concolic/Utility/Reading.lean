import Concolic.Text.Fraction
import Concolic.Utility.Files

/-
  Programs that print files, or parts of them, or counts about them.
-/

namespace Concolic.Utility

open Concolic.Text (decode ofOctets)

/-! ## Whole files -/

/-- A character for people. -/
def visible (tabs : Bool) (c : Char) : List Char :=
  let n := c.toNat
  if c = '\n' || (c = '\t' && !tabs) then [c]
  else
    let low := fun (n : Nat) =>
      if n < 32 then ['^', Char.ofNat (n + 64)]
      else if n = 127 then ['^', '?']
      else [Char.ofNat n]
    if n < 128 then low n else 'M' :: '-' :: low (n - 128)

/-- How `cat` changes what it prints. -/
structure Numbering where
  number : Bool
  /-- Lines that are not empty only. -/
  full : Bool
  squeeze : Bool
  ends : Bool
  tabs : Bool
  hidden : Bool

/-- What is carried from file to file: the number of the next line, whether the last line was left
    open, and how many empty lines came last. -/
structure Carried where
  next : Nat
  isOpen : Bool
  blanks : Nat

def lineNumber (n : Nat) : String :=
  let digits := Nat.repr n
  String.ofList (List.replicate (6 - digits.length) ' ') ++ digits ++ "\t"

/-- Lines with what was asked for. -/
def catLines (how : Numbering) : List (List Char) → (lastOpen : Bool) → Carried → List String →
    List String × Carried
  | [], _, k, acc => (acc, k)
  | line :: rest, lastOpen, k, acc =>
    let isLast := rest.isEmpty && lastOpen
    let isBlank := line.isEmpty && !k.isOpen
    if isBlank && how.squeeze && 0 < k.blanks then catLines how rest lastOpen k acc
    else
      let numbered := !k.isOpen && (if how.full then !line.isEmpty else how.number)
      let head := if numbered then lineNumber k.next else ""
      let shown := if how.hidden || how.tabs then
          line.flatMap fun c =>
            if how.hidden then visible how.tabs c
            else if c = '\t' && how.tabs then ['^', 'I'] else [c]
        else line
      let ending := if isLast then "" else if how.ends then "$\n" else "\n"
      catLines how rest lastOpen
        { next := if numbered then k.next + 1 else k.next
          isOpen := isLast
          blanks := if isBlank then k.blanks + 1 else 0 }
        (ending :: String.ofList shown :: head :: acc)

def cat (c : Call) : Effect :=
  let options := Options.ofLetters "nbsETvAetu" ""
    [("number", 'n', .no), ("number-nonblank", 'b', .no), ("squeeze-blank", 's', .no),
     ("show-ends", 'E', .no), ("show-tabs", 'T', .no), ("show-nonprinting", 'v', .no),
     ("show-all", 'A', .no)]
  c.withOptions options fun given operands =>
    let all := has given 'A'
    let how : Numbering :=
      { number := has given 'n', full := has given 'b', squeeze := has given 's',
        ends := has given 'E' || all || has given 'e',
        tabs := has given 'T' || all || has given 't',
        hidden := has given 'v' || all || has given 'e' || has given 't' }
    let plain := !(how.number || how.full || how.squeeze || how.ends || how.tabs || how.hidden)
    let operands := orInput operands
    let result := (c.texts operands).foldl
      (fun (acc : Effect × Carried) (path, read) =>
        let (e, k) := acc
        match read with
        | .error f => (e.complain 1 (c.name ++ ": " ++ plainComplaint path f), k)
        | .ok text =>
          let isOutput := !isStandardInput path && text ≠ "" && c.outputFile.any fun out =>
            match c.locate c.tree true path with
            | .ok loc => loc = out || c.tree.sameFile loc out
            | .error _ => false
          if isOutput then
            (e.complain 1 (c.name ++ ": " ++ shown path ++ ": input file is output file"), k)
          else if plain then (e.say text, k)
          else
            let (lines, ended) := linesOf text
            let (texts, k) := catLines how lines (!ended) k []
            (e.say (String.join texts.reverse), k))
      (c.idle, ⟨1, false, 0⟩)
    result.1.reading operands

def tee (c : Call) : Effect :=
  let options := Options.ofLetters "aip" "" [("append", 'a', .no), ("ignore-interrupts", 'i', .no)]
  c.withOptions options fun given operands =>
    let text := (c.input.get.toOption).getD ""
    let start := operands.foldl
      (fun e path =>
        let written := if has given 'a' then e.tree.append c.cwd (decode path) (ofOctets text)
          else e.tree.write c.cwd (decode path) (ofOctets text)
        match written with
        | .ok t => e.onTree t
        | .error f =>
          e.complain 1 (c.name ++ ": " ++ plainComplaint path f))
      c.idle
    { start.say text with taken := .all }

def tac (c : Call) : Effect :=
  c.withOptions (Options.ofLetters "br" "s" [("separator", 's', .yes)]) fun given operands =>
    let separator := ((valueOf? given 's').bind fun s => s.toList.head?).getD '\n'
    c.overTexts operands
      (fun path f =>
        if f = .isADirectory then shown path ++ ": read error: " ++ reason .invalidArgument
        else "failed to open " ++ quoted path ++ " for reading: " ++ reason f)
      fun e _ text =>
        let pieces := Text.splitOn separator text.toList
        let (pieces, ended) := match pieces.getLast? with
          | some [] => (pieces.dropLast, true)
          | _ => (pieces, false)
        let parts := match pieces.reverse with
          | [] => []
          | last :: rest => (if ended then last ++ [separator] else last) ::
            rest.map fun p => p ++ [separator]
        e.say (String.ofList parts.flatten)

def rev (c : Call) : Effect :=
  c.withOptions (Options.ofLetters "" "" []) fun _ operands =>
    let operands := operands.map fun path => if path = "-" then "./-" else path
    c.overTexts operands (fun path f => "cannot open " ++ (if path = "./-" then "-" else path) ++
      ": " ++ reason f) fun e _ text =>
      let (lines, ended) := linesOf text
      let shown := unlines (lines.map List.reverse)
      e.say (if ended || lines.isEmpty then shown else String.ofList shown.toList.dropLast)

/-! ## The start and the end -/

/-- A number with a sign that tells where to count from. -/
def amount? (text : String) : Option (Option Char × Nat) :=
  match text.toList with
  | '+' :: cs => (sizeOf? (String.ofList cs)).map fun n => (some '+', n)
  | '-' :: cs => (sizeOf? (String.ofList cs)).map fun n => (some '-', n)
  | _ => (sizeOf? text).map fun n => (none, n)

/-- The digits after a sign at the start of an argument, and what follows them. -/
def numbered? (sign : Char) (arg : String) : Option (String × List Char) :=
  match arg.toList with
  | c :: cs =>
    let digits := cs.takeWhile Char.isDigit
    if c = sign && !digits.isEmpty then some (String.ofList digits, cs.drop digits.length) else none
  | [] => none

def firstLines : (n : Nat) → List Char → List Char → List Char
  | 0, acc, _ => acc.reverse
  | _, acc, [] => acc.reverse
  | n + 1, acc, c :: cs =>
      if c = '\n' then firstLines n (c :: acc) cs else firstLines (n + 1) (c :: acc) cs

def afterLines : (n : Nat) → List Char → List Char
  | 0, cs => cs
  | _, [] => []
  | n + 1, c :: cs => if c = '\n' then afterLines n cs else afterLines (n + 1) cs

def countEnds (cs : List Char) : Nat := cs.foldl (fun n c => if c = '\n' then n + 1 else n) 0

def countLines (cs : List Char) : Nat :=
  countEnds cs + (match cs.getLast? with
    | some '\n' => 0
    | none => 0
    | _ => 1)

/-- Prints the parts of files, each with its name above it if there are several. -/
def printParts (c : Call) (given : List Given) (operands : List String)
    (part : List Char → List Char) : Effect :=
  let operands := orInput operands
  let titled := has given 'v' || (operands.length > 1 && !has given 'q')
  let result := (c.texts operands).foldl
    (fun (acc : Effect × Bool) (path, read) =>
      let (e, first) := acc
      let title := if isStandardInput path then "standard input" else path
      let heading :=
        if titled then (if first then "" else "\n") ++ "==> " ++ title ++ " <==\n" else ""
      match read with
      | .ok text => (e.say (heading ++ String.ofList (part text.toList)), false)
      | .error f =>
        if f = .isADirectory then
          ((e.say heading).complain 1 (c.name ++ ": error reading " ++ quoted title ++
            ": " ++ reason f), false)
        else
          (e.complain 1 (c.name ++ ": cannot open " ++ quoted title ++
            " for reading: " ++ reason f), first))
    (c.idle, true)
  result.1.reading operands

/-- The options of `head` and `tail`.  Digits are among them, to be refused. -/
def partOptions (plain : String) : Options :=
  Options.ofLetters (plain ++ "0123456789") "nc"
    [("lines", 'n', .yes), ("bytes", 'c', .yes), ("quiet", 'q', .no), ("silent", 'q', .no),
     ("verbose", 'v', .no), ("follow", 'f', .attached), ("pid", 'P', .yes),
     ("sleep-interval", 's', .yes), ("retry", 'R', .no)]

/-- Which part of a file is printed. -/
structure Portion where
  inBytes : Bool
  sign : Option Char
  count : Nat

/-- The portion that an option asks for; an amount that cannot be read is shown without the sign
    unless the sign is kept. -/
def readPortion (inBytes : Bool) (text : String) (kept : Option Char) : Except String Portion :=
  let bare := match text.toList with
    | c :: cs => if (c = '-' || c = '+') && kept ≠ some c then String.ofList cs else text
    | [] => text
  let fail := fun (more : String) =>
    .error ("invalid number of " ++ (if inBytes then "bytes" else "lines") ++ ": " ++
      quotedPlainly bare ++ more)
  match amount? text with
  | none => fail ""
  | some (sign, count) =>
    if Text.limit64 ≤ count then fail ": Value too large for defined data type"
    else .ok ⟨inBytes, sign, count⟩

/-- The portion that the options choose: the last one counts, and each has to be right. -/
def chosenPortion (given : List Given) (kept : Option Char) : Except String Portion :=
  given.foldl
    (fun acc g => do
      let portion ← acc
      if g.letter = 'n' || g.letter = 'c' then readPortion (g.letter = 'c') (g.value.getD "") kept
      else return portion)
    (.ok ⟨false, none, 10⟩)

/-- The program `head`.  The amount may also be the first argument, as in `-3`, with letters after
    it. -/
def head (c : Call) : Effect :=
  let (args, wrong) : List String × Option Char := match c.args with
    | first :: rest =>
      match numbered? '-' first with
      | some (digits, letters) =>
        let unit := letters.reverse.find? fun l => "bckml".toList.contains l
        let amount := match unit with
          | some 'b' => ["-c", digits ++ "b"]
          | some 'c' => ["-c", digits]
          | some 'k' => ["-c", digits ++ "K"]
          | some 'm' => ["-c", digits ++ "M"]
          | _ => ["-n", digits]
        let flags := (letters.filter fun l => "qvz".toList.contains l).map fun l =>
          String.ofList ['-', l]
        (amount ++ flags ++ rest, letters.find? fun l => !"bckmlqvz".toList.contains l)
      | none => (c.args, none)
    | [] => ([], none)
  let refused := fun (letter : Char) =>
    c.misuse 1 ("invalid trailing option -- " ++ String.singleton letter)
  match wrong with
  | some letter => refused letter
  | none =>
    { c with args }.withOptions (partOptions "qvz") fun given operands =>
      match given.find? fun (g : Given) => g.letter.isDigit with
      | some g => refused g.letter
      | none =>
        match chosenPortion given none with
        | .error e => c.fail 1 e
        | .ok portion =>
          let n := portion.count
          let part := fun (cs : List Char) =>
            match portion.inBytes, portion.sign with
            | true, some '-' => cs.take (cs.length - n)
            | true, _ => cs.take n
            | false, some '-' => firstLines (countLines cs - n) [] cs
            | false, _ => firstLines n [] cs
          let e : Effect := printParts c given operands part
          if e.taken = Taken.all && portion.sign ≠ some '-' then
            let all := (c.input.get.toOption).getD ""
            let used := (part all.toList).length
            let satisfied := if portion.inBytes then n ≤ used else n ≤ countEnds (part all.toList)
            { e with taken := if satisfied then Taken.some used else Taken.all }
          else e

/-- The amount of a lone first argument such as `-3` or `+2c`, as options. -/
def loneAmount? (args : List String) : Option (List String) :=
  match args with
  | first :: rest =>
    let alone := match rest with
      | [] => true
      | [file] => !file.startsWith "-" || file = "-" || file = "--"
      | ["--", _] => true
      | _ => false
    let found := match numbered? '-' first with
      | some (digits, letters) => some (digits, letters)
      | none => (numbered? '+' first).map fun (digits, letters) => ("+" ++ digits, letters)
    match found with
    | none => none
    | some (amount, letters) =>
      let letters := if letters.getLast? = some 'f' then letters.dropLast else letters
      if !alone then none
      else match letters with
        | [] => some ("-n" :: amount :: rest)
        | ['l'] => some ("-n" :: amount :: rest)
        | ['c'] => some ("-c" :: amount :: rest)
        | ['b'] => some ("-c" :: (amount ++ "b") :: rest)
        | _ => none
  | [] => none

/-- The program `tail`.  The amount may also be the first argument, as in `-3` or `+2`, if at most
    one file follows. -/
def tail (c : Call) : Effect :=
  { c with args := (loneAmount? c.args).getD c.args }.withOptions (partOptions "qvzfF")
    fun given operands =>
      match given.find? fun (g : Given) => g.letter.isDigit with
      | some g => c.fail 1 ("option used in invalid context -- " ++ String.singleton g.letter)
      | none =>
        match chosenPortion given (some '+') with
        | .error e => c.fail 1 e
        | .ok portion =>
          let n := portion.count
          printParts c given operands fun cs =>
            match portion.inBytes, portion.sign with
            | true, some '+' => cs.drop (n - 1)
            | true, _ => cs.drop (cs.length - n)
            | false, some '+' => afterLines (n - 1) cs
            | false, _ => afterLines (countLines cs - n) cs

/-! ## Counting -/

/-- What is counted in a file. -/
structure Counts where
  lines : Nat
  words : Nat
  bytes : Nat
  longest : Nat

def isSpace (c : Char) : Bool := c = ' ' || ('\t' ≤ c && c ≤ '\r')

def countsOf (cs : List Char) : Counts :=
  let step := fun (acc : Counts × Bool × Nat) (c : Char) =>
    let (k, inWord, column) := acc
    let column' := if c = '\n' || c = '\r' || c = '\x0c' then 0
      else if c = '\t' then column + 8 - column % 8
      else if isPrintable c then column + 1
      else column
    let space := isSpace c
    ({ lines := if c = '\n' then k.lines + 1 else k.lines
       words := if !space && !inWord then k.words + 1 else k.words
       bytes := k.bytes + 1
       longest := max k.longest column' }, !space, column')
  (cs.foldl step (⟨0, 0, 0, 0⟩, false, 0)).1

def rightAligned (width n : Nat) : String :=
  let digits := Nat.repr n
  String.ofList (List.replicate (width - digits.length) ' ') ++ digits

def wc (c : Call) : Effect :=
  let options := Options.ofLetters "lwcmL" ""
    [("lines", 'l', .no), ("words", 'w', .no), ("bytes", 'c', .no), ("chars", 'm', .no),
     ("max-line-length", 'L', .no), ("total", 'T', .yes)]
  c.withOptions options fun given operands =>
    let any := "lwcmL".toList.any fun l => has given l
    let wanted := fun (k : Counts) =>
      (if has given 'l' || !any then [k.lines] else []) ++
      (if has given 'w' || !any then [k.words] else []) ++
      (if has given 'm' then [k.bytes] else []) ++
      (if has given 'c' || !any then [k.bytes] else []) ++
      (if has given 'L' then [k.longest] else [])
    let paths := orInput operands
    let texts := c.texts paths
    let isRegular := fun (p : String) =>
      if isStandardInput p then c.seekable
      else match c.locate c.tree true p with
        | .ok loc => (c.tree.blob? loc).isSome
        | .error _ => true
    let sizes := texts.map fun (_, r) => match r with
      | .ok text => text.length
      | .error _ => 0
    let total := (paths.zip sizes).foldl (fun n (p, size) => if isRegular p then n + size else n) 0
    let irregular := texts.any fun (p, r) => !isRegular p && (match r with
      | .ok _ => true
      | .error f => f = .isADirectory)
    let single := paths.length = 1 && (wanted ⟨0, 0, 0, 0⟩).length = 1
    let width := if single then 1
      else max (Nat.repr total).length (if irregular then 7 else 1)
    let line := fun (k : Counts) (name : String) =>
      " ".intercalate ((wanted k).map (rightAligned width)) ++
        (if name = "" then "" else " " ++ name) ++ "\n"
    let (e, sum) := texts.foldl
      (fun (acc : Effect × Counts) (path, r) =>
        let (e, sum) := acc
        let name := if operands.isEmpty then "" else path
        match r with
        | .ok text =>
          let k := countsOf text.toList
          (e.say (line k name), ⟨sum.lines + k.lines, sum.words + k.words, sum.bytes + k.bytes,
            max sum.longest k.longest⟩)
        | .error f =>
          let e := e.complain 1 (c.name ++ ": " ++ plainComplaint path f)
          (if f = .isADirectory then e.say (line ⟨0, 0, 0, 0⟩ name) else e, sum))
      (c.idle, ⟨0, 0, 0, 0⟩)
    (if paths.length > 1 then e.say (line sum "total") else e).reading paths

def nl (c : Call) : Effect :=
  let options := Options.ofLetters "p" "bdfhilnsvw"
    [("body-numbering", 'b', .yes), ("number-width", 'w', .yes), ("number-separator", 's', .yes),
     ("starting-line-number", 'v', .yes), ("line-increment", 'i', .yes),
     ("number-format", 'n', .yes)]
  c.withOptions options fun given operands =>
    let number := fun (letter : Char) (usual : Nat) =>
      ((valueOf? given letter).bind fun v => Text.ofDigits? 10 v.toList).getD usual
    let width := number 'w' 6
    let separator := (valueOf? given 's').getD "\t"
    let style := (valueOf? given 'b').getD "t"
    let step := number 'i' 1
    let operands := orInput operands
    let shownNumber := fun (n : Nat) =>
      let digits := Nat.repr n
      let fill := width - digits.length
      match (valueOf? given 'n').getD "rn" with
      | "ln" => digits ++ String.ofList (List.replicate fill ' ')
      | "rz" => String.ofList (List.replicate fill '0') ++ digits
      | _ => String.ofList (List.replicate fill ' ') ++ digits
    let result := (c.texts operands).foldl
      (fun (acc : Effect × Nat) (path, read) =>
        let (e, n) := acc
        match read with
        | .error f => (e.complain 1 (c.name ++ ": " ++ plainComplaint path f), n)
        | .ok text =>
          let (lines, _) := linesOf text
          let (texts, n) := lines.foldl
            (fun (acc : List String × Nat) line =>
              let (texts, n) := acc
              if style = "a" || (style = "t" && !line.isEmpty) then
                ((shownNumber n ++ separator ++ String.ofList line ++ "\n") :: texts, n + step)
              else
                ((String.ofList (List.replicate (width + separator.length) ' ') ++
                  String.ofList line ++ "\n") :: texts, n))
            ([], n)
          (e.say (String.join texts.reverse), n))
      (c.idle, number 'v' 1)
    result.1.reading operands

end Concolic.Utility
