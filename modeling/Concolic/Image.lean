import Concolic.Machine
import Concolic.Text.Octet

/-
  What is run for a file: a native program itself; for a script the interpreter that its first line
  names, which may be a script itself, up to a depth.  Only the first bytes of a file are looked at.
-/

namespace Concolic

/-- A native program with the name that it is called by and its arguments. -/
structure Image where
  program : String
  name : String
  args : List String
  deriving DecidableEq, Repr

namespace Image

/-- How many bytes of a file are looked at. -/
def headSize : Nat := 256

/-- How many scripts may stand before a native program. -/
def maxScripts : Nat := 5

/-- The first bytes of a file, filled up with NUL. -/
def head (bytes : ByteArray) : List Char :=
  let cs := (Text.octets (bytes.extract 0 headSize)).toList
  cs ++ List.replicate (headSize - cs.length) '\x00'

/-- A blank between two words. -/
def isGap (c : Char) : Bool := c = ' ' || c = '\t'

/-- What ends the name of the interpreter. -/
def isEnd (c : Char) : Bool := isGap c || c = '\x00'

/-- The text before the first NUL. -/
def upToNul (cs : List Char) : String := String.ofList (cs.takeWhile (· ≠ '\x00'))

/-- The interpreter and its argument in a line that has been cut to size. -/
def nameAndArgument (line : List Char) : Option (String × Option String) :=
  let line := line.dropWhile isGap
  if line.isEmpty then none
  else
    let name := line.takeWhile fun c => !isEnd c
    match line.drop name.length with
    | [] => some (String.ofList name, none)
    | c :: rest =>
      let arg := (c :: rest).dropWhile isGap
      if c = '\x00' || arg.isEmpty then some (String.ofList name, none)
      else some (String.ofList name, some (upToNul arg))

/-- The interpreter that a file names, and its argument. -/
def interpreter? (bytes : ByteArray) : Option (String × Option String) :=
  match head bytes with
  | '#' :: '!' :: rest =>
    let line := rest.takeWhile fun c => c ≠ '\n' && c ≠ '\x00'
    if (rest.drop line.length).head? = some '\n' then
      nameAndArgument (line.reverse.dropWhile isGap).reverse
    else
      let cut := rest.dropLast
      let body := cut.dropWhile isGap
      if body.isEmpty || !(rest.dropWhile isGap).any isEnd then none
      else nameAndArgument (cut.reverse.dropWhile isGap).reverse
  | _ => none

/-- What is run for the file at `path`, which is called by `name`.  `scripts` more scripts may stand
    before a native program. -/
def ofFile (t : Tree) (cwd : Loc) : (scripts : Nat) → (path name : String) → (args : List String) →
    Except Fault Image
  | scripts, path, name, args =>
    match t.lookup cwd true (Text.decode path) with
    | .error f => .error f
    | .ok loc =>
      match t.blob? loc with
      | none => .error .accessDenied
      | some blob =>
        if !blob.runnable then .error .accessDenied
        else match Machine.nativeName? blob.bytes with
          | some program => .ok ⟨program, name, args⟩
          | none =>
            match interpreter? blob.bytes, scripts with
            | none, _ => .error .execFormat
            | some _, 0 => .error .linkLoop
            | some (interpreter, arg), scripts + 1 =>
              ofFile t cwd scripts interpreter interpreter (arg.toList ++ path :: args)

/-- The parts of a search path; an empty one is the current directory. -/
def searchFolders (path : String) : List String :=
  (Text.splitOn ':' path.toList).map fun cs => if cs.isEmpty then "." else String.ofList cs

/-- The candidates for a program: its path, or its name in every directory of the search path. -/
def candidates (path program : String) : List String :=
  if program.toList.contains '/' then [program]
  else if program = "" then []
  else (searchFolders path).map fun dir => dir ++ "/" ++ program

/-- What is run for the first candidate that can be run.  One that may not be executed is passed
    over but remembered as the reason. -/
def firstOf (t : Tree) (cwd : Loc) (name : String) (args : List String) (denied : Bool) :
    List String → Except Fault Image
  | [] => .error (if denied then .accessDenied else .notFound)
  | path :: rest =>
    match ofFile t cwd maxScripts path name args with
    | .ok image => .ok image
    | .error f =>
      if f = .accessDenied then firstOf t cwd name args true rest
      else if f = .notFound || f = .notADirectory then firstOf t cwd name args denied rest
      else .error f

/-- What is run for a program that is given by its path, or by its name and a search path. -/
def find (t : Tree) (cwd : Loc) (searchPath program : String) (args : List String) :
    Except Fault Image :=
  if program.toList.contains '/' then ofFile t cwd maxScripts program program args
  else firstOf t cwd program args false (candidates searchPath program)

end Image

end Concolic
