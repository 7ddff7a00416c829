import Concolic.Text.Split

/-
  Path texts.

  A path text is an optional anchor (`/`, or a leading `.`) and a body of segments between slashes.
  Empty segments and `.` segments of the body name nothing.

  A `Route` is the same text as the steps of a walk through directories: every non-empty segment,
  `.` and `..` included, and whether a slash ends the text.
-/

namespace Concolic.Path

/-- The path starts at the root directory. -/
def isAbsolute (p : String) : Bool := p.toList.head? = some '/'

/-- `p` seen from `base`: a slash is put between them unless `base` is empty or ends in one. -/
def join (base p : String) : String :=
  if isAbsolute p then p
  else if base = "" ∨ base.toList.getLast? = some '/' then base ++ p
  else base ++ "/" ++ p

/-- The anchor of a path text and the body after it. -/
def anchor : List Char → List Char × List Char
  | '/' :: rest => (['/'], rest)
  | ['.'] => (['.'], [])
  | '.' :: '/' :: rest => (['.'], '/' :: rest)
  | cs => ([], cs)

/-- A segment that names nothing. -/
def isIdle (segment : List Char) : Bool := segment = [] || segment = ['.']

/-- Segments without the idle ones at their end. -/
def trimmed (segments : List (List Char)) : List (List Char) :=
  (segments.reverse.dropWhile isIdle).reverse

/-- The anchor and the segments of a path text, idle ones at the end dropped. -/
def parts (p : String) : List Char × List (List Char) :=
  let (head, body) := anchor p.toList
  (head, trimmed (Text.splitOn '/' body))

/-- The last component, unless the path ends in `..` or names the root or current directory. -/
def fileName? (p : String) : Option String :=
  match (parts p).2.getLast? with
  | some segment => if segment = ['.', '.'] then none else some (String.ofList segment)
  | none => none

/-- The path without its last component; the root directory and the empty path have no parent. -/
def parent? (p : String) : Option String :=
  let (head, segments) := parts p
  if segments = [] then
    if head = ['.'] then some "" else none
  else
    some (String.ofList (head ++ Text.joinWith '/' (trimmed segments.dropLast)))

/-- The path with its last component replaced, or with one added where it has none. -/
def withFileName (p name : String) : String :=
  match fileName? p, parent? p with
  | some _, some dir => join dir name
  | _, _ => join p name

/-- A path as the steps of a walk. -/
structure Route where
  /-- The walk starts at the root directory. -/
  absolute : Bool
  /-- The segments to go through, `.` and `..` among them. -/
  steps : List String
  /-- The text ends in a slash, so that the last step has to be a directory. -/
  slash : Bool
  deriving DecidableEq, Repr

/-- The walk that a path text describes. -/
def route (p : String) : Route :=
  { absolute := isAbsolute p
    steps := ((Text.splitOn '/' p.toList).filter (· ≠ [])).map String.ofList
    slash := p.toList.getLast? = some '/' }

end Concolic.Path
