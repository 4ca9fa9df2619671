import SolidityBuild.Text.Utf8

/-!
Percent encoding: a byte that must not stand for itself is written as a percent
sign and two upper-case hexadecimal digits. Percent signs in the text are left
alone when it is encoded.
-/

namespace SolidityBuild.Text.Percent

def digit (n : Nat) : Char :=
  if n < 10 then Char.ofNat ('0'.toNat + n) else Char.ofNat ('A'.toNat + (n - 10))

/-- A byte in percent form. -/
def ofByte (b : UInt8) : List Char :=
  ['%', digit (b.toNat / 16), digit (b.toNat % 16)]

/-- Whether a character is encoded in every part of a URL: controls, and all
that is not ASCII. -/
def isControl (c : Char) : Bool := c.toNat < 0x20 || 0x7E < c.toNat

/-- Encode the controls, what is not ASCII, and the characters of a set. -/
def encode (set : List Char) (cs : List Char) : List Char :=
  cs.flatMap fun c =>
    if isControl c || set.contains c then (Utf8.encode c.toString).flatMap ofByte else [c]

/-- The number that a hexadecimal digit denotes. -/
def value? (b : UInt8) : Option Nat :=
  if 0x30 ≤ b ∧ b ≤ 0x39 then some (b.toNat - 0x30)
  else if 0x41 ≤ b ∧ b ≤ 0x46 then some (b.toNat - 0x41 + 10)
  else if 0x61 ≤ b ∧ b ≤ 0x66 then some (b.toNat - 0x61 + 10)
  else none

/-- Decode percent forms; a percent sign without two digits stands for itself. -/
def decode : List UInt8 → List UInt8
  | [] => []
  | [b] => [b]
  | [b, c] => [b, c]
  | b :: c :: d :: bs =>
    if b = 0x25 then
      match value? c, value? d with
      | some high, some low => UInt8.ofNat (high * 16 + low) :: decode bs
      | _, _ => b :: decode (c :: d :: bs)
    else b :: decode (c :: d :: bs)

end SolidityBuild.Text.Percent
