/-!
Tabs and line breaks in URLs. They do not count: a text is read as if they were
not there. Only a drive letter is told from one with a break behind it.
-/

namespace SolidityBuild.Url

def isBreak (c : Char) : Bool := c = '\t' || c = '\n' || c = '\r'

/-- The characters that count. -/
def visible (cs : List Char) : List Char := cs.filter (¬ isBreak ·)

/-- What stands behind the first `n` characters that count. -/
def dropVisible : Nat → List Char → List Char
  | 0, cs => cs
  | _ + 1, [] => []
  | n + 1, c :: cs => dropVisible (if isBreak c then n + 1 else n) cs

/-- Drop the spaces and controls at both ends. -/
def trimSpaces (cs : List Char) : List Char :=
  let isSpace (c : Char) : Bool := c.toNat ≤ 0x20
  ((cs.dropWhile isSpace).reverse.dropWhile isSpace).reverse

end SolidityBuild.Url
