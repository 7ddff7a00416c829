/-
  Reading bytes as text when they may not be text.

  Bytes that are no UTF-8 are replaced by U+FFFD, one for every longest start of a character that
  could not be completed, and one for every byte that cannot start a character.
-/

namespace Concolic.Text

/-- The character that stands for bytes that are no text. -/
def replacement : Char := '�'

/-- For a byte that starts a character of several bytes: how many follow it, the range of the
    first of them, and the bits that it contributes. -/
def leadInfo (b : Nat) : Option (Nat × Nat × Nat × Nat) :=
  if 0xC2 ≤ b ∧ b ≤ 0xDF then some (1, 0x80, 0xBF, b - 0xC0)
  else if b = 0xE0 then some (2, 0xA0, 0xBF, 0)
  else if b = 0xED then some (2, 0x80, 0x9F, 0xD)
  else if 0xE1 ≤ b ∧ b ≤ 0xEF then some (2, 0x80, 0xBF, b - 0xE0)
  else if b = 0xF0 then some (3, 0x90, 0xBF, 0)
  else if 0xF1 ≤ b ∧ b ≤ 0xF3 then some (3, 0x80, 0xBF, b - 0xF0)
  else if b = 0xF4 then some (3, 0x80, 0x8F, 4)
  else none

/-- A character that is being read: how many bytes are missing, the range of the next one, and
    the bits so far. -/
structure Unfinished where
  missing : Nat
  low : Nat
  high : Nat
  bits : Nat

/-- Text read so far, last character first, and a character that is not complete. -/
structure Decoding where
  done : List Char
  rest : Option Unfinished

/-- Takes a byte that starts a character. -/
def Decoding.start (done : List Char) (b : Nat) : Decoding :=
  if b < 0x80 then ⟨Char.ofNat b :: done, none⟩
  else match leadInfo b with
    | some (missing, low, high, bits) => ⟨done, some ⟨missing, low, high, bits⟩⟩
    | none => ⟨replacement :: done, none⟩

/-- Takes one byte. -/
def Decoding.next (d : Decoding) (byte : UInt8) : Decoding :=
  let b := byte.toNat
  match d.rest with
  | none => Decoding.start d.done b
  | some u =>
    if u.low ≤ b ∧ b ≤ u.high then
      let bits := u.bits * 64 + (b - 0x80)
      if u.missing ≤ 1 then ⟨Char.ofNat bits :: d.done, none⟩
      else ⟨d.done, some ⟨u.missing - 1, 0x80, 0xBF, bits⟩⟩
    else Decoding.start (replacement :: d.done) b

/-- The bytes decoded one after the other, whether or not they are text. -/
def decoded (bytes : List UInt8) : List Char :=
  let d := bytes.foldl Decoding.next ⟨[], none⟩
  (match d.rest with
    | some _ => replacement :: d.done
    | none => d.done).reverse

/-- The bytes as text, with replacements where they are none. -/
def lossy (bytes : ByteArray) : String :=
  match String.fromUTF8? bytes with
  | some s => s
  | none => String.ofList (decoded bytes.toList)

end Concolic.Text
