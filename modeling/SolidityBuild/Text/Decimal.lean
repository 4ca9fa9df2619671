/-!
Natural numbers in decimal, as they stand in type names and array sizes: ASCII
digits, leading zeros allowed, with at most one plus sign in front, and no
larger than the word that has to hold them.
-/

namespace SolidityBuild.Text.Decimal

/-- The value of an ASCII digit. -/
def digit? (c : Char) : Option Nat :=
  if c.isDigit then some (c.toNat - '0'.toNat) else none

/-- Read digits behind a number that has been read so far. -/
def readDigits? (soFar : Nat) : List Char → Option Nat
  | [] => some soFar
  | c :: cs => (digit? c).bind fun d => readDigits? (soFar * 10 + d) cs

/-- Read one or more digits. -/
def readNat? : List Char → Option Nat
  | [] => none
  | c :: cs => readDigits? 0 (c :: cs)

/-- Read a number of at most `limit`, with or without a plus sign. -/
def read? (limit : Nat) (cs : List Char) : Option Nat :=
  let digits := match cs with
    | '+' :: rest => rest
    | _ => cs
  (readNat? digits).filter (· ≤ limit)

/-- The digits of a number, without leading zeros. -/
def print (n : Nat) : String := toString n

end SolidityBuild.Text.Decimal
