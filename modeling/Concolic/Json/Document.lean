import Concolic.Json.Token

/-
  JSON documents, one level deep.
-/

namespace Concolic.Json

/-- A document: the outermost value with what is directly in it. -/
inductive Document where
  | object (fields : List (String × Value))
  | array (items : List Value)
  | single (v : Value)
  deriving DecidableEq, Repr

/-- What may come next. -/
inductive Phase where
  | value
  /-- A value, or the end of an array that was just opened. -/
  | firstItem
  | name
  /-- The name of a member, or the end of an object that was just opened. -/
  | firstName
  | colon
  /-- What follows a value: a comma, or the end of what is open. -/
  | next
  deriving DecidableEq, Repr

/-- The state of reading: the open brackets, innermost first, and what was found directly in the
    outermost one, last first. -/
structure Reading where
  stack : List Container
  phase : Phase
  name : String
  found : List (String × Value)
  root : Option Container
  deriving DecidableEq, Repr

namespace Reading

/-- Nothing read yet. -/
def start : Reading := { stack := [], phase := .value, name := "", found := [], root := none }

/-- Reading stands directly in the document, not in a bracket inside it. -/
def isOuter (r : Reading) : Bool := r.stack.tail.isEmpty

/-- After a whole value, which counts if it stands directly in the document. -/
def close (r : Reading) (v : Value) : Reading :=
  if r.isOuter then { r with phase := .next, found := (r.name, v) :: r.found }
  else { r with phase := .next }

/-- The name of a member; only names directly in the document have to denote characters. -/
def named (r : Reading) : Value → Option Reading
  | .text s => some { r with phase := .colon, name := if r.isOuter then s else r.name }
  | .brokenText => if r.isOuter then none else some { r with phase := .colon }
  | _ => none

/-- A bracket opens where a value may come. -/
def push (r : Reading) (c : Container) : Reading :=
  { r with
    stack := c :: r.stack
    phase := match c with
      | .array => .firstItem
      | .object => .firstName
    root := if r.stack.isEmpty then some c else r.root }

/-- Leaves the innermost bracket. -/
def pop (r : Reading) (rest : List Container) : Reading :=
  if rest.isEmpty then { r with stack := [], phase := .next }
  else { r with stack := rest }.close .nested

/-- Reads one token. -/
def step (r : Reading) (token : Token) : Option Reading :=
  match token, r.phase with
  | .value v, .value => some (r.close v)
  | .value v, .firstItem => some (r.close v)
  | .value v, .name => r.named v
  | .value v, .firstName => r.named v
  | .opening c, .value => some (r.push c)
  | .opening c, .firstItem => some (r.push c)
  | .colon, .colon => some { r with phase := .value }
  | .comma, .next =>
    match r.stack with
    | .array :: _ => some { r with phase := .value }
    | .object :: _ => some { r with phase := .name }
    | [] => none
  | .closing .array, .firstItem => closeWith .array
  | .closing .array, .next => closeWith .array
  | .closing .object, .firstName => closeWith .object
  | .closing .object, .next => closeWith .object
  | _, _ => none
where
  closeWith (c : Container) : Option Reading :=
    match r.stack with
    | top :: rest => if top = c then some (r.pop rest) else none
    | [] => none

/-- Reads tokens one after the other. -/
def steps : Reading → List Token → Option Reading
  | r, [] => some r
  | r, token :: rest =>
    match r.step token with
    | some r' => steps r' rest
    | none => none

/-- The document, once all that was opened is closed. -/
def document? (r : Reading) : Option Document :=
  if r.stack = [] ∧ r.phase = .next then
    match r.root with
    | some .object => some (.object r.found.reverse)
    | some .array => some (.array (r.found.reverse.map (·.2)))
    | none =>
      match r.found with
      | [(_, v)] => some (.single v)
      | _ => none
  else none

end Reading

/-- Checks the grammar with a stack of open brackets, and keeps what stands directly in the
    outermost one. -/
def Document.ofTokens? (ts : List Token) : Option Document :=
  match Reading.start.steps ts with
  | some r => r.document?
  | none => none

/-- The document of a text. -/
def Document.ofText? (text : String) : Option Document :=
  match tokens? text.toList with
  | some ts => Document.ofTokens? ts
  | none => none

/-! ## Values of known types -/

namespace Value

/-- The text, if it is one. -/
def text? : Value → Option String
  | text s => some s
  | _ => none

/-- The flag, if it is one. -/
def bool? : Value → Option Bool
  | bool b => some b
  | _ => none

/-- A whole number without sign, below `limit`. -/
def nat? (limit : Nat) : Value → Option Nat
  | number literal =>
    match Text.ofDigits? 10 literal with
    | some n => if n < limit then some n else none
    | none => none
  | _ => none

/-- A whole number of 32 bits without sign. -/
def uint32? (v : Value) : Option UInt32 := (v.nat? Text.limit32).map UInt32.ofNat

def uint64? (v : Value) : Option UInt64 := (v.nat? Text.limit64).map UInt64.ofNat

/-- A whole number of 32 bits; zero has no sign. -/
def int32? : Value → Option Int32
  | number ('-' :: digits) =>
    match Text.ofDigits? 10 digits with
    | some n => if 0 < n ∧ n ≤ 2147483648 then some (Int32.ofInt (-(n : Int))) else none
    | none => none
  | v => (v.nat? 2147483648).map fun n => Int32.ofInt n

/-- A number of 32 bits with sign, or `null`. -/
def optionalInt32? : Value → Option (Option Int32)
  | null => some none
  | v => v.int32?.map some

end Value

/-- The value of the only member of a given name. -/
def onlyField? (fields : List (String × Value)) (name : String) : Option Value :=
  match fields.filter (·.1 = name) with
  | [(_, v)] => some v
  | _ => none

/-- The value of the only member of a given name, or null if there is none. -/
def optionalField? (fields : List (String × Value)) (name : String) : Option Value :=
  match fields.filter (·.1 = name) with
  | [] => some .null
  | [(_, v)] => some v
  | _ => none

end Concolic.Json
