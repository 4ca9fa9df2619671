/-!
Natural numbers in a base of at most 16. Letters stand for the digits from ten
on, in either case.
-/

namespace SolidityBuild.Text.Radix

/-- The value of a digit in a base. -/
def digit? (base : Nat) (c : Char) : Option Nat :=
  let value? :=
    if c.isDigit then some (c.toNat - '0'.toNat)
    else if 'a' ≤ c ∧ c ≤ 'f' then some (c.toNat - 'a'.toNat + 10)
    else if 'A' ≤ c ∧ c ≤ 'F' then some (c.toNat - 'A'.toNat + 10)
    else none
  value?.filter (· < base)

/-- Read digits; no digits denote zero. -/
def read? (base : Nat) (cs : List Char) : Option Nat :=
  (cs.mapM (digit? base)).map fun digits => digits.foldl (fun n d => n * base + d) 0

end SolidityBuild.Text.Radix
