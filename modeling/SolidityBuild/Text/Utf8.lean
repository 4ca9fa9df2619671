/-!
UTF-8. Bytes are decoded into characters and flaws: a flaw is a maximal run of
bytes that begins a well-formed sequence and is not continued by one. Decoding
is strict if a flaw refuses the text, and lenient if each flaw is read as the
replacement character.
-/

namespace SolidityBuild.Text.Utf8

/-- One item of decoded text: a character, or `none` for a flaw. -/
abbrev Item := Option Char

/-- The bytes that may follow a leading byte. -/
structure Follow where
  low : UInt8
  high : UInt8
  /-- How many continuation bytes come after the second byte. -/
  more : Nat

/-- What may stand behind a byte that begins a sequence of more than one byte.
The bounds on the second byte keep out overlong forms, surrogates and numbers
beyond the last code point. -/
def follow? (lead : UInt8) : Option Follow :=
  if lead < 0xC2 then none
  else if lead < 0xE0 then some ⟨0x80, 0xBF, 0⟩
  else if lead = 0xE0 then some ⟨0xA0, 0xBF, 1⟩
  else if lead = 0xED then some ⟨0x80, 0x9F, 1⟩
  else if lead < 0xF0 then some ⟨0x80, 0xBF, 1⟩
  else if lead = 0xF0 then some ⟨0x90, 0xBF, 2⟩
  else if lead < 0xF4 then some ⟨0x80, 0xBF, 2⟩
  else if lead = 0xF4 then some ⟨0x80, 0x8F, 2⟩
  else none

/-- The state between two bytes: how many continuation bytes are missing, the
bounds on the next of them, and the value of the bits so far. -/
structure Pending where
  missing : Nat
  low : UInt8
  high : UInt8
  bits : Nat

/-- The bits of the code point that a leading byte carries. -/
def leadBits (lead : UInt8) : Nat :=
  if lead < 0xE0 then lead.toNat % 0x20
  else if lead < 0xF0 then lead.toNat % 0x10
  else lead.toNat % 0x08

/-- Begin a sequence: the items complete with this byte, and what is pending. -/
def start (b : UInt8) : List Item × Option Pending :=
  if b < 0x80 then ([some (Char.ofNat b.toNat)], none)
  else
    match follow? b with
    | none => ([none], none)
    | some f => ([], some ⟨f.more + 1, f.low, f.high, leadBits b⟩)

/-- Decode bytes behind a pending sequence. A byte that does not continue the
sequence makes a flaw of it and is looked at afresh. -/
def decodeFrom : Option Pending → List UInt8 → List Item
  | none, [] => []
  | some _, [] => [none]
  | none, b :: bs =>
    let (items, pending) := start b
    items ++ decodeFrom pending bs
  | some p, b :: bs =>
    if p.low ≤ b ∧ b ≤ p.high then
      let bits := p.bits * 0x40 + b.toNat % 0x40
      match p.missing with
      | 0 | 1 => some (Char.ofNat bits) :: decodeFrom none bs
      | m + 2 => decodeFrom (some ⟨m + 1, 0x80, 0xBF, bits⟩) bs
    else
      let (items, pending) := start b
      none :: (items ++ decodeFrom pending bs)

/-- The characters and flaws of a byte sequence. -/
def items (bytes : List UInt8) : List Item := decodeFrom none bytes

/-- The character that stands for a flaw. -/
def replacement : Char := Char.ofNat 0xFFFD

/-- Decode, reading each flaw as the replacement character. -/
def decodeLossy (bytes : List UInt8) : List Char :=
  (items bytes).map (·.getD replacement)

/-- Decode text without flaws. -/
def decode? (bytes : List UInt8) : Option (List Char) :=
  (items bytes).mapM id

/-- The bytes of a text. -/
def encode (text : String) : List UInt8 := text.toUTF8.toList

end SolidityBuild.Text.Utf8
