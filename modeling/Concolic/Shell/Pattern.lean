import Concolic.Text.Charset
import Concolic.Text.Octet
import Concolic.Tree.Operations

/-
  Patterns for texts and file names.

  `*` stands for any text, `?` for any character, and a set between square brackets for one of its
  characters; a quoted character stands for itself.
-/

namespace Concolic.Shell

/-- A character, and whether it is quoted. -/
structure Glyph where
  char : Char
  quoted : Bool
  deriving DecidableEq, Repr

/-- A part of a pattern. -/
inductive Atom where
  | char (c : Char)
  | any
  | many
  | set (s : Text.Charset)
  deriving DecidableEq, Repr

/-- Parts in order. -/
abbrev Pattern := List Atom

def glyphText (gs : List Glyph) : String := String.ofList (gs.map (·.char))

/-- A text that is quoted or not. -/
def glyphs (quoted : Bool) (s : String) : List Glyph := s.toList.map fun c => ⟨c, quoted⟩

/-! ## Reading patterns -/

/-- The name of a class that starts here, after `[:`, and what follows `:]`. -/
def className (acc : List Char) : List Glyph → Option (String × List Glyph)
  | ⟨':', _⟩ :: ⟨']', _⟩ :: rest => some (String.ofList acc.reverse, rest)
  | ⟨c, _⟩ :: rest => if c.isAlpha then className (c :: acc) rest else none
  | [] => none

/-- The members of a set up to its closing bracket, and what follows it.  `first` holds at the
    start, where a closing bracket stands for itself. -/
def setMembers (acc : List Text.Member) : (fuel : Nat) → (first : Bool) → List Glyph →
    Option (List Text.Member × List Glyph)
  | 0, _, _ => none
  | _ + 1, _, [] => none
  | fuel + 1, first, ⟨c, quoted⟩ :: rest =>
    if c = ']' && !quoted && !first then some (acc, rest)
    else
      let single := fun (c : Char) (rest : List Glyph) =>
        match rest with
        | ⟨'-', false⟩ :: ⟨']', false⟩ :: _ => setMembers (.range c c :: acc) fuel false rest
        | ⟨'-', false⟩ :: ⟨'\\', false⟩ :: ⟨d, _⟩ :: more =>
          setMembers (.range c d :: acc) fuel false more
        | ⟨'-', false⟩ :: ⟨d, _⟩ :: more => setMembers (.range c d :: acc) fuel false more
        | _ => setMembers (.range c c :: acc) fuel false rest
      match c, quoted, rest with
      | '[', false, ⟨':', false⟩ :: more =>
        match className [] more with
        | some (name, after) =>
          if (Text.classMember? name).isSome then setMembers (.named name :: acc) fuel false after
          else single c rest
        | none => single c rest
      | '\\', false, ⟨d, _⟩ :: more => single d more
      | _, _, _ => single c rest

/-- The pattern that glyphs describe.  `caret` says that `^` negates a set as `!` does. -/
def patternOf (caret : Bool) : (fuel : Nat) → List Glyph → Pattern
  | 0, _ => []
  | _ + 1, [] => []
  | fuel + 1, ⟨c, true⟩ :: rest => .char c :: patternOf caret fuel rest
  | fuel + 1, ⟨'*', false⟩ :: rest => .many :: patternOf caret fuel rest
  | fuel + 1, ⟨'?', false⟩ :: rest => .any :: patternOf caret fuel rest
  | fuel + 1, ⟨'\\', false⟩ :: ⟨c, _⟩ :: rest => .char c :: patternOf caret fuel rest
  | fuel + 1, ⟨'[', false⟩ :: rest =>
    let (negated, members) := match rest with
      | ⟨'!', false⟩ :: more => (true, more)
      | ⟨'^', false⟩ :: more => if caret then (true, more) else (false, rest)
      | _ => (false, rest)
    match setMembers [] (members.length + 1) true members with
    | some (ms, after) => .set ⟨negated, ms⟩ :: patternOf caret fuel after
    | none => .char '[' :: patternOf caret fuel rest
  | fuel + 1, ⟨c, false⟩ :: rest => .char c :: patternOf caret fuel rest

/-- The pattern that characters make up. -/
def Pattern.ofGlyphs (caret : Bool) (gs : List Glyph) : Pattern :=
  patternOf caret (gs.length + 1) gs

/-! ## Matching -/

/-- Whether a pattern describes a whole text. -/
def Pattern.matches : Pattern → List Char → Bool
  | [], [] => true
  | [], _ :: _ => false
  | .many :: p, [] => Pattern.matches p []
  | .many :: p, c :: cs => Pattern.matches p (c :: cs) || Pattern.matches (.many :: p) cs
  | .char d :: p, c :: cs => c = d && Pattern.matches p cs
  | .any :: p, _ :: cs => Pattern.matches p cs
  | .set s :: p, c :: cs => s.contains c && Pattern.matches p cs
  | .char _ :: _, [] => false
  | .any :: _, [] => false
  | .set _ :: _, [] => false
termination_by p cs => p.length + cs.length

/-- A text without its shortest or longest start that matches. -/
def dropFront (p : Pattern) (longest : Bool) (cs : List Char) : List Char :=
  let lengths := List.range (cs.length + 1)
  let lengths := if longest then lengths.reverse else lengths
  match lengths.find? fun n => p.matches (cs.take n) with
  | some n => cs.drop n
  | none => cs

/-- A text without its shortest or longest end that matches. -/
def dropBack (p : Pattern) (longest : Bool) (cs : List Char) : List Char :=
  let starts := List.range (cs.length + 1)
  let starts := if longest then starts else starts.reverse
  match starts.find? fun n => p.matches (cs.drop n) with
  | some n => cs.take n
  | none => cs

/-- The text with the longest match at its start replaced, or none if nothing at its
    start matches. -/
def matchLength (p : Pattern) (cs : List Char) : Option Nat :=
  (List.range (cs.length + 1)).reverse.find? fun n => p.matches (cs.take n)

/-! ## File names -/

/-- Whether a character makes a text a pattern. -/
def Glyph.isWild (g : Glyph) : Bool := !g.quoted && (g.char = '*' || g.char = '?' || g.char = '[')

def splitGlyphs : List Glyph → List (List Glyph)
  | [] => [[]]
  | g :: rest =>
    match splitGlyphs rest with
    | part :: parts => if g.char = '/' then [] :: part :: parts else (g :: part) :: parts
    | [] => [[g]]

/-- The names in a directory that a part of a path pattern describes.  A point at the start of a
    name has to stand in the pattern. -/
def matchingNames (t : Tree) (dir : Loc) (caret : Bool) (part : List Glyph) : List String :=
  let p := Pattern.ofGlyphs caret part
  let hidden := (part.head?.map (·.char)) = some '.'
  ((if hidden then ["..", "."] else []) ++ (t.names dir).map Text.encode).filter fun name =>
    (hidden || name.toList.head? ≠ some '.') && p.matches name.toList

/-- The texts without the backslashes that protect characters of a pattern. -/
def unprotected : List Glyph → List Char
  | ⟨'\\', false⟩ :: g :: rest => g.char :: unprotected rest
  | g :: rest => g.char :: unprotected rest
  | [] => []

/-- The paths of a tree that patterns describe, directory by directory. -/
def matchingPaths (t : Tree) (cwd : Loc) (caret : Bool) : List (List Glyph) → String → List String
  | [], before => [before]
  | [last], before =>
    if last.any Glyph.isWild then
      match t.lookup cwd true (Text.decode (if before = "" then "." else before)) with
      | .ok dir =>
        if t.isFolderAt dir then (matchingNames t dir caret last).map (before ++ ·) else []
      | .error _ => []
    else
      let path := before ++ String.ofList (unprotected last)
      match t.lookup cwd false (Text.decode path) with
      | .ok _ => [path]
      | .error _ => []
  | part :: rest, before =>
    if part.any Glyph.isWild then
      match t.lookup cwd true (Text.decode (if before = "" then "." else before)) with
      | .ok dir =>
        if t.isFolderAt dir then
          ((matchingNames t dir caret part).filter fun name =>
            t.isFolder cwd (Text.decode (before ++ name))).flatMap fun name =>
              matchingPaths t cwd caret rest (before ++ name ++ "/")
        else []
      | .error _ => []
    else matchingPaths t cwd caret rest (before ++ String.ofList (unprotected part) ++ "/")

/-- The paths that a pattern describes, in order; none if it is no pattern. -/
def fileNames (t : Tree) (cwd : Loc) (caret : Bool) (gs : List Glyph) : List String :=
  if gs.any Glyph.isWild then
    (matchingPaths t cwd caret (splitGlyphs gs) "").mergeSort fun a b => a ≤ b
  else []

end Concolic.Shell
