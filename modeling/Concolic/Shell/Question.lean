import Concolic.Shell.Expand
import Concolic.Text.Regex
import Concolic.Utility.Test

/-
  Questions between double brackets, in the extended language.

  Their words are neither split nor matched against file names.
-/

namespace Concolic.Shell

open Concolic.Text (Regex)

/-- A question. -/
inductive Inquiry where
  /-- The text is not empty. -/
  | text (w : Word)
  | one (op : String) (w : Word)
  | two (op : String) (a b : Word)
  | not (q : Inquiry)
  | both (p q : Inquiry)
  | either (p q : Inquiry)

namespace Inquiry

def unary : List String :=
  ["-r", "-w", "-x", "-e", "-f", "-d", "-c", "-b", "-p", "-u", "-g", "-k", "-s", "-t",
    "-z", "-n", "-h", "-O", "-G", "-L", "-S", "-a", "-v", "-o"]

def binary : List String :=
  ["=", "==", "!=", "=~", "<", ">", "-eq", "-ne", "-ge", "-gt", "-le", "-lt", "-nt", "-ot", "-ef"]

def readSingle (w : Word) (rest : List Word) : Option (Inquiry × List Word) :=
  match plainText? w, rest with
  | some o, a :: rest' => if unary.contains o then some (.one o a, rest') else some (.text w, rest)
  | _, _ => some (.text w, rest)

mutual

/-- Questions of which one has to be true. -/
def readEither : (fuel : Nat) → List Word → Option (Inquiry × List Word)
  | 0, _ => none
  | fuel + 1, ws => do
    let (p, rest) ← readBoth fuel ws
    match rest with
    | w :: rest' =>
      if plainText? w = some "||" then
        let (q, rest) ← readEither fuel rest'
        return (.either p q, rest)
      else return (p, rest)
    | [] => return (p, [])

/-- Questions that all have to be true. -/
def readBoth : (fuel : Nat) → List Word → Option (Inquiry × List Word)
  | 0, _ => none
  | fuel + 1, ws => do
    let (p, rest) ← readOne fuel ws
    match rest with
    | w :: rest' =>
      if plainText? w = some "&&" then
        let (q, rest) ← readBoth fuel rest'
        return (.both p q, rest)
      else return (p, rest)
    | [] => return (p, [])

/-- A question, a negation or a group. -/
def readOne : (fuel : Nat) → List Word → Option (Inquiry × List Word)
  | 0, _ => none
  | fuel + 1, ws =>
    match ws with
    | [] => none
    | w :: rest =>
      match plainText? w, rest with
      | some "!", _ => (readOne fuel rest).map fun (q, rest) => (.not q, rest)
      | some "(", _ => do
        let (q, rest) ← readEither fuel rest
        match rest with
        | close :: rest => if plainText? close = some ")" then return (q, rest) else none
        | [] => none
      | _, op :: b :: rest' =>
        match plainText? op with
        | some o =>
          if binary.contains o then some (.two o w b, rest')
          else readSingle w rest
        | none => readSingle w rest
      | _, _ => readSingle w rest

end

def read (ws : List Word) : Option Inquiry :=
  match readEither (3 * ws.length + 3) ws with
  | some (q, []) => some q
  | _ => none

/-- The expression for the right side of a match: what was quoted stands for itself. -/
def regexText (gs : List Glyph) : List Char :=
  gs.flatMap fun g =>
    if g.quoted && !(g.char.isAlphanum || g.char = '_' || g.char = ' ') then
      ['\\', g.char] else [g.char]

/-- The answer about two words; the right side of a comparison of texts is a pattern. -/
def answerTwo (capture : Capture) (op : String) (a b : Word) (s : State) : Option Bool × State :=
  let (left, s) := wordText capture a s
  let (gs, s) := wordGlyphs capture b s
  let right := glyphText gs
  let pattern := fun (_ : Unit) => (Pattern.ofGlyphs true gs).matches left.toList
  if !s.isNormal then (none, s)
  else if op = "=" || op = "==" then (some (pattern ()), s)
  else if op = "!=" then (some (!pattern ()), s)
  else if op = "=~" then
    match Regex.matcher ⟨true, false, false⟩ false false (regexText gs) with
    | .ok m => (some (m.test left.toList.toArray), s)
    | .error _ => (none, s)
  else if ["-eq", "-ne", "-ge", "-gt", "-le", "-lt"].contains op then
    match arithmeticValue s left with
    | .error e => (some false, s.warn e)
    | .ok (x, s) =>
      match arithmeticValue s right with
      | .error e => (some false, s.warn e)
      | .ok (y, s) =>
        let order := compare x.toInt y.toInt
        (some (match op with
          | "-eq" => order = .eq
          | "-ne" => order != .eq
          | "-lt" => order = .lt
          | "-le" => order != .gt
          | "-gt" => order = .gt
          | _ => order != .lt), s)
  else
    let q : Utility.Question := ⟨s.world.tree, s.shell.cwd, .extended, fun x => (s.value? x).isSome⟩
    ((q.two left op right).toOption, s)

def answerOne (capture : Capture) (op : String) (w : Word) (s : State) : Option Bool × State :=
  let (operand, s) := wordText capture w s
  if !s.isNormal then (none, s)
  else if op = "-t" then (some false, s)
  else
    let q : Utility.Question := ⟨s.world.tree, s.shell.cwd, .extended, fun x => (s.value? x).isSome⟩
    (some (q.one op operand), s)

/-- Of two questions that are joined the second one is only asked if it decides. -/
def answer (capture : Capture) : Inquiry → State → Option Bool × State
  | .text w, s =>
    let (operand, s) := wordText capture w s
    (some (operand ≠ ""), s)
  | .one op w, s => answerOne capture op w s
  | .two op a b, s => answerTwo capture op a b s
  | .not q, s =>
    let (a, s) := answer capture q s
    (a.map (!·), s)
  | .both p q, s =>
    match answer capture p s with
    | (some true, s) => answer capture q s
    | other => other
  | .either p q, s =>
    match answer capture p s with
    | (some false, s) => answer capture q s
    | other => other

def ask (capture : Capture) (ws : List Word) (s : State) : State :=
  match read ws with
  | none => s.abort "syntax error in conditional expression"
  | some q =>
    let (a, s) := answer capture q s
    if !s.isNormal then s
    else s.withStatus (match a with
      | some true => 0
      | some false => 1
      | none => 2)

end Inquiry

end Concolic.Shell
