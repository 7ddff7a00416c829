/-
  Sets of characters, as patterns, regular expressions and lists of characters share them.
-/

namespace Concolic.Text

/-- The members of a class of characters; none if there is no class of that name. -/
def classMember? (name : String) : Option (Char → Bool) :=
  let lower := fun c : Char => 'a' ≤ c && c ≤ 'z'
  let upper := fun c : Char => 'A' ≤ c && c ≤ 'Z'
  let digit := fun c : Char => '0' ≤ c && c ≤ '9'
  let graph := fun c : Char => '!' ≤ c && c ≤ '~'
  match name with
  | "lower" => some lower
  | "upper" => some upper
  | "digit" => some digit
  | "alpha" => some fun c => lower c || upper c
  | "alnum" => some fun c => lower c || upper c || digit c
  | "xdigit" => some fun c => digit c || ('a' ≤ c && c ≤ 'f') || ('A' ≤ c && c ≤ 'F')
  | "blank" => some fun c => c = ' ' || c = '\t'
  | "space" => some fun c => c = ' ' || ('\t' ≤ c && c ≤ '\r')
  | "cntrl" => some fun c => c < ' ' || c = '\x7f'
  | "graph" => some graph
  | "print" => some fun c => graph c || c = ' '
  | "punct" => some fun c => graph c && !(lower c || upper c || digit c)
  | _ => none

/-- A range of characters, or a class with a name such as `alpha`. -/
inductive Member where
  /-- All characters from the first to the last. -/
  | range (first last : Char)
  | named (name : String)
  deriving DecidableEq, Repr

/-- Whether a character belongs to a member. -/
def Member.holds (c : Char) : Member → Bool
  | .range first last => first ≤ c && c ≤ last
  | .named name => ((classMember? name).map fun test => test c).getD false

/-- A set of characters: those of its members, or all others. -/
structure Charset where
  negated : Bool
  members : List Member
  deriving DecidableEq, Repr

/-- Whether a character belongs to a set. -/
def Charset.contains (s : Charset) (c : Char) : Bool :=
  s.members.any (Member.holds c) != s.negated

/-- The small letter for a capital; other characters stay. -/
def toLower (c : Char) : Char := if 'A' ≤ c && c ≤ 'Z' then Char.ofNat (c.toNat + 32) else c

/-- The capital of a letter. -/
def toUpper (c : Char) : Char := if 'a' ≤ c && c ≤ 'z' then Char.ofNat (c.toNat - 32) else c

end Concolic.Text
