import Concolic.Text.Lossy

/-
  Texts of bytes.

  Programs pass bytes to one another, and what they do with them is said byte by byte.  Such bytes
  are kept as a text in which the character with number `n < 256` stands for the byte `n`.
-/

namespace Concolic.Text

/-- The character that stands for a byte. -/
def octet (b : UInt8) : Char := Char.ofNat b.toNat

/-- The text whose characters are the given bytes. -/
def octets (bytes : ByteArray) : String :=
  bytes.foldl (fun s b => s.push (octet b)) ""

/-- The bytes that the characters of a text stand for. -/
def ofOctets (s : String) : ByteArray :=
  s.foldl (fun b c => b.push (UInt8.ofNat c.toNat)) ByteArray.empty

/-- Every character is ASCII, so that the text is its own UTF-8 form. -/
def isAscii (s : String) : Bool := s.foldl (fun ok c => ok && c.toNat < 128) true

/-- The UTF-8 form of a text, as a text of bytes. -/
def encode (s : String) : String := if isAscii s then s else octets s.toUTF8

/-- The text whose UTF-8 form is given; what is no UTF-8 is replaced. -/
def decode (s : String) : String := if isAscii s then s else lossy (ofOctets s)

/-- So many zero bytes as anybody asks for. -/
def zeros : String := String.ofList (List.replicate (Nat.pow 2 20) '\x00')

end Concolic.Text
