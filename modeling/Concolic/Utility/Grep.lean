import Concolic.Text.Regex
import Concolic.Utility.Reading

/-
  The program that prints the lines in which an expression matches.
-/

namespace Concolic.Utility

open Concolic.Text (Regex)
open Concolic.Text.Regex (Matcher)

/-- What is searched for and how it is shown. -/
structure Search where
  matchers : List Matcher
  inverted : Bool
  count : Bool
  names : Bool
  namesWithout : Bool
  numbers : Bool
  onlyMatches : Bool
  quiet : Bool
  withName : Bool
  most : Option Nat
  before : Nat
  after : Nat

/-- An expression for a text as it is. -/
def literalRegex (cs : List Char) : Regex :=
  match cs with
  | [] => .empty
  | c :: rest => rest.foldl (fun r d => .cat r (.char d)) (.char c)

/-- An expression for whole words or lines. -/
def bounded (word line : Bool) (r : Regex) : Regex :=
  if line then .cat (.place .start) (.cat r (.place .finish))
  else if word then .cat (.place .afterGap) (.cat r (.place .beforeGap))
  else r

/-- The earliest match of several expressions, the longest of those, that is not empty. -/
def earliest (ms : List Matcher) (chars : Array Char) : (tries from_ : Nat) → Option (Nat × Nat)
  | 0, _ => none
  | tries + 1, i =>
    let found := ms.filterMap fun m => (m.find? chars i).map fun f => (f.start, f.finish)
    let best := found.foldl
      (fun (acc : Option (Nat × Nat)) f => match acc with
        | none => some f
        | some g => if f.1 < g.1 || (f.1 = g.1 && g.2 < f.2) then some f else acc)
      none
    match best with
    | none => none
    | some (a, b) => if a = b then earliest ms chars tries (a + 1) else some (a, b)

/-- The parts of a line that match. -/
def matchParts (ms : List Matcher) (chars : Array Char) : (tries from_ : Nat) → List (List Char)
  | 0, _ => []
  | tries + 1, i =>
    match earliest ms chars (chars.size + 2 - i) i with
    | none => []
    | some (a, b) => (chars.extract a b).toList :: matchParts ms chars tries b

/-- How far a file was searched. -/
structure Progress where
  /-- The lines before this one that were not shown, last one first. -/
  held : List (Nat × List Char)
  /-- How many more lines are shown because of a match before. -/
  trailing : Nat
  selected : Nat
  /-- The number of the last line that was shown. -/
  lastShown : Option Nat
  output : List String

/-- Searches the lines of a text: how many were selected, and what is shown.  `started` says that
    lines of another text were shown before. -/
def searchLines (s : Search) (started : Bool) (name : String) (lines : List (List Char)) :
    Nat × String :=
  let silent := s.quiet || s.count || s.names || s.namesWithout
  let head := fun (mark : String) (n : Nat) =>
    (if s.withName then name ++ mark else "") ++ (if s.numbers then Nat.repr n ++ mark else "")
  let context := 0 < s.before || 0 < s.after
  let result := lines.zipIdx.foldl
    (fun (p : Progress) (entry : List Char × Nat) =>
      let (line, i) := entry
      let n := i + 1
      let full := s.most.any fun m => m ≤ p.selected
      let selected := !full &&
        (s.matchers.any fun m => m.test line.toArray) != s.inverted
      if selected then
        if silent then { p with selected := p.selected + 1 }
        else
          let held := p.held.take s.before
          let first := (held.getLast?.map (·.1)).getD n
          let gap := context && (match p.lastShown with
            | some l => l + 1 < first
            | none => started)
          let before := held.reverse.map fun (k, l) => head "-" k ++ String.ofList l ++ "\n"
          let here := if s.onlyMatches then
              if s.inverted then []
              else (matchParts s.matchers line.toArray (line.length + 1) 0).map fun part =>
                head ":" n ++ String.ofList part ++ "\n"
            else [head ":" n ++ String.ofList line ++ "\n"]
          { held := [], trailing := s.after, selected := p.selected + 1, lastShown := some n
            output := here.reverse ++ before.reverse ++ (if gap then ["--\n"] else []) ++ p.output }
      else if 0 < p.trailing && !silent then
        { p with trailing := p.trailing - 1, lastShown := some n,
                 output := (head "-" n ++ String.ofList line ++ "\n") :: p.output }
      else { p with held := (n, line) :: p.held.take (s.before + 1) })
    ⟨[], 0, 0, none, []⟩
  (result.selected, String.join result.output.reverse)

/-- The text up to the end of the line that is the last one to be selected. -/
def linesUpTo (s : Search) (most : Nat) (cs : List Char) : List Char :=
  let lines := (linesOf (String.ofList cs)).1
  let (_, size) := lines.foldl
    (fun (acc : Nat × Nat) line =>
      let (n, size) := acc
      if most ≤ n then acc
      else
        let hit := (s.matchers.any fun m => m.test line.toArray) != s.inverted
        (if hit then n + 1 else n, size + line.length + 1))
    (0, 0)
  cs.take size

/-- The files that operands stand for, with the names under which they are shown. -/
def searchedFiles (c : Call) (deep : Bool) (include_ : Option String) (operands : List String) :
    List (String × String) :=
  let wanted := fun (name : String) => include_.all fun pattern =>
    simplePattern pattern.toList name.toList
  operands.flatMap fun p =>
    if deep && !isStandardInput p then
      match c.locate c.tree true p with
      | .ok loc =>
        if c.tree.isFolderAt loc then
          ((below c.tree 1000 p loc).filter fun e =>
            !c.tree.isFolderAt e.2 && wanted (baseName e.1)).map fun e => (e.1, e.1)
        else [(p, p)]
      | .error _ => [(p, p)]
    else [(p, p)]
where
  /-- A name matches a pattern with stars and question marks. -/
  simplePattern : List Char → List Char → Bool
    | [], [] => true
    | '*' :: ps, [] => simplePattern ps []
    | '*' :: ps, c :: cs => simplePattern ps (c :: cs) || simplePattern ('*' :: ps) cs
    | '?' :: ps, _ :: cs => simplePattern ps cs
    | p :: ps, c :: cs => p = c && simplePattern ps cs
    | _, _ => false
  termination_by ps cs => ps.length + cs.length

def grepUsage (c : Call) : String :=
  "Usage: " ++ c.name ++ " [OPTION]... PATTERNS [FILE]...\nTry '" ++ c.name ++
    " --help' for more information."

/-- An expression for each pattern. -/
def readPatterns (given : List Given) (extended fixed : Bool) (patterns : List String) :
    Except String (List Matcher) :=
  let ignoreCase := has given 'i' || has given 'y'
  patterns.mapM fun p =>
    let cs := p.toList
    if fixed then
      .ok { regex := bounded (has given 'w') (has given 'x') (literalRegex cs)
            groups := 0, ignoreCase, multiline := false, refersBack := false }
    else if cs.take 2 = ['[', ':'] && cs.reverse.take 2 = [']', ':'] then
      .error "character class syntax is [[:space:]], not [:space:]"
    else do
      let m ← Regex.matcher ⟨extended, false, true⟩ ignoreCase false cs
      return { m with regex := bounded (has given 'w') (has given 'x') m.regex }

/-- The warning about an operator with nothing before it in an extended expression. -/
def leadingWarning (start : Bool) : List Char → Option String
  | [] => none
  | c :: rest =>
    if start && (c = '*' || c = '+' || c = '?') then
      some ("warning: " ++ String.singleton c ++ " at start of expression")
    else if start && c = '\x7b' && (Regex.bounds ['\x7d'] rest).isSome then
      some "warning: \x7b...\x7d at start of expression"
    else leadingWarning (c = '(' || c = '|') (if c = '\\' then rest.drop 1 else rest)
  termination_by cs => cs.length
  decreasing_by
    simp only [List.length_cons]
    split
    · rw [List.length_drop]; omega
    · omega

/-- The program `grep`, with the kind of expressions that it takes without being told. -/
def grep (extended fixed : Bool) (c : Call) : Effect :=
  let options := Options.ofLetters "EFGPivclLnqsowxhHrRzaIUbyTu" "efmABCdD"
    [("extended-regexp", 'E', .no), ("fixed-strings", 'F', .no), ("basic-regexp", 'G', .no),
     ("ignore-case", 'i', .no), ("invert-match", 'v', .no), ("count", 'c', .no),
     ("files-with-matches", 'l', .no), ("files-without-match", 'L', .no), ("line-number", 'n', .no),
     ("quiet", 'q', .no), ("silent", 'q', .no), ("no-messages", 's', .no),
     ("only-matching", 'o', .no), ("word-regexp", 'w', .no), ("line-regexp", 'x', .no),
     ("no-filename", 'h', .no), ("with-filename", 'H', .no), ("recursive", 'r', .no),
     ("dereference-recursive", 'R', .no), ("regexp", 'e', .yes), ("file", 'f', .yes),
     ("max-count", 'm', .yes), ("after-context", 'A', .yes), ("before-context", 'B', .yes),
     ("context", 'C', .yes), ("color", 'K', .attached), ("colour", 'K', .attached),
     ("include", 'N', .yes), ("exclude", 'X', .yes), ("text", 'a', .no),
     ("line-buffered", 'u', .no)]
  let args := c.args.map fun a => match a.toList with
    | '-' :: d :: ds => if (d :: ds).all Char.isDigit then "-C" ++ String.ofList (d :: ds) else a
    | _ => a
  match readOptions options args with
  | .error e => c.idle.complain 2 (c.name ++ ": " ++ e ++ "\n" ++ grepUsage c)
  | .ok (given, operands) =>
    let kind := (given.reverse.find? fun g =>
      g.letter = 'E' || g.letter = 'F' || g.letter = 'G').map
      (·.letter)
    let extended := kind = some 'E' || (kind = none && extended)
    let fixed := kind = some 'F' || (kind = none && fixed)
    let listed := given.filter fun g => g.letter = 'e' || g.letter = 'f'
    let texts : List String := listed.flatMap fun g =>
      let v := g.value.getD ""
      if g.letter = 'e' then (Text.splitOn '\n' v.toList).map String.ofList
      else match c.readOperand v with
        | .ok text => (linesOf text).1.map String.ofList
        | .error _ => []
    let badFile := listed.findSome? fun g =>
      let v := g.value.getD ""
      if g.letter = 'f' then
        match c.readOperand v with
        | .error f => some (v, f)
        | .ok _ => none
      else none
    match badFile, listed, operands with
    | some (v, f), _, _ => c.fail 2 (plainComplaint v f)
    | none, [], [] => c.idle.complain 2 (grepUsage c)
    | none, _, _ =>
      let (texts, operands) := if listed.isEmpty then
          ((Text.splitOn '\n' (operands.headD "").toList).map String.ofList, operands.tail)
        else (texts, operands)
      let number := fun (letter : Char) => (valueOf? given letter).map fun v =>
        (v, Text.ofDigits? 10 v.toList)
      let badContext := ['A', 'B', 'C'].findSome? fun l => (number l).bind fun (v, n) =>
        if n.isNone then some v else none
      match badContext, number 'm', readPatterns given extended fixed texts with
      | some v, _, _ => c.fail 2 (v ++ ": invalid context length argument")
      | none, some (_, none), _ => c.fail 2 "invalid max count"
      | none, _, .error e => c.fail 2 e
      | none, most, .ok matchers =>
        let deep := has given 'r' || has given 'R'
        let paths := if operands.isEmpty then if deep then ["."] else ["-"] else operands
        let files := searchedFiles c deep (valueOf? given 'N') paths
        let files := if operands.isEmpty && deep then
            files.map fun (p, n) => (p, String.ofList (n.toList.drop 2))
          else files
        let manyNames := paths.length > 1 ||
          (deep && paths.any fun p => c.isFolder c.tree p)
        let around := fun (letter : Char) =>
          (((number letter).bind (·.2)).orElse fun _ => (number 'C').bind (·.2)).getD 0
        let s : Search :=
          { matchers, inverted := has given 'v', count := has given 'c', names := has given 'l',
            namesWithout := has given 'L', numbers := has given 'n',
            onlyMatches := has given 'o', quiet := has given 'q',
            withName := has given 'H' || (manyNames && !has given 'h'),
            most := most.bind (·.2), before := around 'B', after := around 'A' }
        let start := if extended then
            texts.foldl (fun e p => match leadingWarning true p.toList with
              | some w => { e.complain 0 (c.name ++ ": " ++ w) with status := 0 }
              | none => e) c.idle
          else c.idle
        let (e, found, failed) := files.foldl
          (fun (acc : Effect × Bool × Bool) (path, name) =>
            let (e, found, failed) := acc
            if found && s.quiet then acc
            else
              let shownName := if isStandardInput path then "(standard input)" else name
              match c.readOperand path with
              | .error f =>
                let e := if has given 's' then e
                  else e.complain 2 (c.name ++ ": " ++ name ++ ": " ++ reason f)
                let e := if f = .isADirectory && s.count && !s.quiet && !s.names &&
                  !s.namesWithout then
                    e.say ((if s.withName then shownName ++ ":" else "") ++ "0\n")
                  else e
                (e, found, true)
              | .ok text =>
                let started := e.printed.any fun p => !p.1 && p.2 ≠ ""
                let (n, out) := searchLines s started shownName (linesOf text).1
                let isBinary := text.toList.contains '\x00' && !has given 'a'
                let hit := 0 < n
                let e := if s.quiet then e
                  else if s.names then if hit then e.say (shownName ++ "\n") else e
                  else if s.namesWithout then if hit then e else e.say (shownName ++ "\n")
                  else if s.count then
                    e.say ((if s.withName then shownName ++ ":" else "") ++ Nat.repr n ++ "\n")
                  else if isBinary && hit then
                    e.complain 0 (c.name ++ ": " ++ shownName ++ ": binary file matches")
                  else e.say out
                let counts := if s.namesWithout then !hit else hit
                (e, found || counts, failed))
          (start, false, false)
        let status := if found && s.quiet then 0 else if failed then 2 else if found then 0 else 1
        let e := { e with status }.reading paths
        -- a search that has found enough does not wait for more
        let enough := found && (s.quiet || s.names || s.most.isSome)
        if e.taken = Taken.all && enough then
          let input := (c.input.get.toOption).getD ""
          let used := match s.most, s.quiet || s.names with
            | some n, false => (linesUpTo s n input.toList).length
            | _, _ => if c.seekable then input.length else (linesUpTo s 1 input.toList).length
          { e with taken := Taken.some used }
        else e

end Concolic.Utility
