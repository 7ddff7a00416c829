import Concolic.Json.Token

/-
  Writing flat JSON objects, on one line or one member a line.
-/

namespace Concolic.Json

/-- A quote, a backslash and the control characters are escaped, and nothing else. -/
def escape (c : Char) : List Char :=
  match c with
  | '"' => ['\\', '"']
  | '\\' => ['\\', '\\']
  | '\x08' => ['\\', 'b']
  | '\x0c' => ['\\', 'f']
  | '\n' => ['\\', 'n']
  | '\r' => ['\\', 'r']
  | '\t' => ['\\', 't']
  | _ =>
    if c < ' ' then
      ['\\', 'u', '0', '0', Text.hexDigit (c.toNat / 16), Text.hexDigit (c.toNat % 16)]
    else [c]

/-- A text between quotes. -/
def quoted (s : String) : List Char := '"' :: (s.toList.flatMap escape ++ ['"'])

/-- A value that can be written. -/
inductive Scalar where
  | null
  | bool (b : Bool)
  | int (i : Int)
  | text (s : String)
  deriving DecidableEq, Repr

/-- The text of a value. -/
def Scalar.print : Scalar → List Char
  | null => ['n', 'u', 'l', 'l']
  | bool true => ['t', 'r', 'u', 'e']
  | bool false => ['f', 'a', 'l', 's', 'e']
  | int i => (Text.ofInt i).toList
  | text s => quoted s

/-- Texts with a separator between them. -/
def between (separator : List Char) : List (List Char) → List Char
  | [] => []
  | [p] => p
  | p :: ps => p ++ separator ++ between separator ps

/-- The members of an object on one line. -/
def compact (fields : List (String × Scalar)) : String :=
  String.ofList ('\x7b' ::
    (between [','] (fields.map fun f => quoted f.1 ++ ':' :: f.2.print) ++ ['\x7d']))

/-- The members of an object, each on a line of its own. -/
def pretty (fields : List (String × Scalar)) : String :=
  String.ofList (['\x7b', '\n', ' ', ' '] ++
    (between [',', '\n', ' ', ' '] (fields.map fun f => quoted f.1 ++ ':' :: ' ' :: f.2.print)
      ++ ['\n', '\x7d']))

end Concolic.Json
