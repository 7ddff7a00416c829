import Concolic.Text.Decimal

/-
  Identifiers of sessions: sixteen random bytes, of which six bits are fixed to mark them as random,
  written as hexadecimal digits in five groups.
-/

namespace Concolic.Identifier

/-- A byte as two hexadecimal digits. -/
def byteText (b : UInt8) : List Char :=
  [Text.hexDigit (b.toNat / 16), Text.hexDigit (b.toNat % 16)]

/-- The byte at a place of the identifier, with the fixed bits set. -/
def marked (index : Nat) (b : UInt8) : UInt8 :=
  if index = 6 then b &&& 0x0F ||| 0x40
  else if index = 8 then b &&& 0x3F ||| 0x80
  else b

/-- A dash stands before the bytes that start a group. -/
def startsGroup (index : Nat) : Bool := index = 4 || index = 6 || index = 8 || index = 10

/-- Sixteen bytes as an identifier. -/
def ofBytes (bytes : List UInt8) : String :=
  String.ofList (bytes.zipIdx.flatMap fun (b, index) =>
    (if startsGroup index then ['-'] else []) ++ byteText (marked index b))

end Concolic.Identifier
