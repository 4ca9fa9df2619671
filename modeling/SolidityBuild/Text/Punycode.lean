/-!
Punycode: a text with characters beyond ASCII written in ASCII. Its ASCII
characters come first, with a hyphen behind them. Then one number for each
other character, in the order of their code points, tells how far to go to the
next one: a step goes one place on in the text so far, and at its end to the
next code point. A number is written with its lowest digit first, in base 36
with thresholds: a digit below the threshold of its place ends the number. The
thresholds adapt to the size of the numbers before.
-/

namespace SolidityBuild.Text.Punycode

def isAscii (c : Char) : Bool := c.toNat < 0x80

/-- The value of a digit: letters come before decimal digits. -/
def digit? (c : Char) : Option Nat :=
  if 'a' ≤ c ∧ c ≤ 'z' then some (c.toNat - 'a'.toNat)
  else if 'A' ≤ c ∧ c ≤ 'Z' then some (c.toNat - 'A'.toNat)
  else if c.isDigit then some (c.toNat - '0'.toNat + 26)
  else none

def digitOf (n : Nat) : Char :=
  Char.ofNat (if n < 26 then 'a'.toNat + n else '0'.toNat + (n - 26))

/-- The threshold of a place, which is a multiple of the base. -/
def threshold (bias place : Nat) : Nat :=
  if place ≤ bias then 1 else if bias + 26 ≤ place then 26 else place - bias

theorem threshold_pos (bias place : Nat) : 0 < threshold bias place := by
  unfold threshold; split <;> (try split) <;> omega

/-- How often a number can be divided by 35 until it is at most 455, and what is
left of it. -/
def scale (times n : Nat) : Nat × Nat :=
  if 455 < n then scale (times + 1) (n / 35) else (times, n)
termination_by n
decreasing_by exact Nat.div_lt_self (by omega) (by omega)

/-- The bias behind a number, in a text of some length; the first number is
damped more than the others. -/
def adapt (n length : Nat) (isFirst : Bool) : Nat :=
  let damped := n / (if isFirst then 700 else 2)
  let (times, rest) := scale 0 (damped + damped / length)
  36 * times + 36 * rest / (rest + 38)

/-! ## Decoding -/

/-- The number that is being read: its value so far, and the place and weight
of the next digit. -/
structure Pending where
  value : Nat
  place : Nat
  weight : Nat

/-- Between two digits: the text so far, the next place in it and the code point
that have been reached, and the bias. -/
structure Decoding where
  text : List Char
  position : Nat
  codePoint : Nat
  bias : Nat
  pending : Option Pending

def isScalar (n : Nat) : Bool := n < 0xD800 || (0xDFFF < n && n < 0x110000)

/-- Go as many steps on as a number tells, and put in the character that is
reached. -/
def Decoding.goOn? (s : Decoding) (n : Nat) : Option Decoding :=
  let length := s.text.length + 1
  let codePoint := s.codePoint + (s.position + n) / length
  let position := (s.position + n) % length
  if isScalar codePoint then
    some ⟨s.text.insertIdx position (Char.ofNat codePoint), position + 1, codePoint,
      adapt n length (s.position = 0), none⟩
  else none

/-- Read a digit. -/
def Decoding.next? (s : Decoding) (c : Char) : Option Decoding := do
  let d ← digit? c
  let p := s.pending.getD ⟨0, 36, 1⟩
  let value := p.value + d * p.weight
  let t := threshold s.bias p.place
  if d < t then s.goOn? value
  else return { s with pending := some ⟨value, p.place + 36, p.weight * (36 - t)⟩ }

/-- The text in front of the last hyphen, and what stands behind it. A hyphen at
the beginning does not count. -/
def cutBasic (cs : List Char) : List Char × List Char :=
  let reversed := cs.reverse
  match reversed.dropWhile (· ≠ '-') with
  | '-' :: front =>
    if front.isEmpty then ([], cs) else (front.reverse, (reversed.takeWhile (· ≠ '-')).reverse)
  | _ => ([], cs)

/-- The text that is written in Punycode. -/
def decode? (cs : List Char) : Option (List Char) := do
  let (basic, digits) := cutBasic cs
  let s ← digits.foldlM Decoding.next? ⟨basic, 0, 0x80, 72, none⟩
  if basic.all isAscii ∧ s.pending.isNone then return s.text else none

/-! ## Encoding -/

/-- The digits of a number, from a place on. -/
def digits (bias place n : Nat) : List Char :=
  let t := threshold bias place
  if n < t then [digitOf n]
  else digitOf (t + (n - t) % (36 - t)) :: digits bias (place + 36) ((n - t) / (36 - t))
termination_by n
decreasing_by
  have := threshold_pos bias place
  exact Nat.lt_of_le_of_lt (Nat.div_le_self _ _) (by omega)

/-- Between two characters: the digits so far, the steps that the next number
has to count, how many characters have been written, and the bias. -/
structure Encoding where
  written : List Char
  steps : Nat
  count : Nat
  bias : Nat

/-- Pass a character of the text on the way to a code point. -/
def Encoding.pass (basicCount codePoint : Nat) (s : Encoding) (c : Char) : Encoding :=
  if c.toNat < codePoint then { s with steps := s.steps + 1 }
  else if c.toNat = codePoint then
    ⟨s.written ++ digits s.bias 36 s.steps, 0, s.count + 1,
      adapt s.steps (s.count + 1) (s.count = basicCount)⟩
  else s

/-- Write the characters with these code points, which ascend, from the code
point on that has been reached. -/
def encodeFrom (text : List Char) (basicCount : Nat) (s : Encoding) (reached : Nat) :
    List Nat → List Char
  | [] => s.written
  | n :: ns =>
    let s := { s with steps := s.steps + (n - reached) * (s.count + 1) }
    let s := text.foldl (Encoding.pass basicCount n) s
    encodeFrom text basicCount { s with steps := s.steps + 1 } (n + 1) ns

/-- A text in Punycode. -/
def encode (text : List Char) : List Char :=
  let basic := text.filter isAscii
  let others := (text.filter (¬ isAscii ·)).map Char.toNat
  let ascending := (others.mergeSort).eraseDups
  basic ++ (if basic.isEmpty then [] else ['-']) ++
    encodeFrom text basic.length ⟨[], 0, basic.length, 72⟩ 0x80 ascending

end SolidityBuild.Text.Punycode
