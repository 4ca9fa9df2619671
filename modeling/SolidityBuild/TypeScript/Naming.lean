import SolidityBuild.Text.Decimal

/-!
Names that do not clash. A name that is taken gets the least number behind it
that makes it free.
-/

namespace SolidityBuild.TypeScript.Naming

open Text

/-- The first free one among `base` with the numbers from `counter` on. -/
def freeFrom (base : String) (used : List String) : (fuel counter : Nat) → String
  | 0, counter => base ++ Decimal.print counter
  | fuel + 1, counter =>
    let name := base ++ Decimal.print counter
    if name ∈ used then freeFrom base used fuel (counter + 1) else name

/-- `base`, or `base` with the least number that is free. Among as many numbers
as there are used names and one more, one is free. -/
def unique (base : String) (used : List String) : String :=
  if base ∈ used then freeFrom base used used.length 0 else base

/-- Free names for some names in turn, and all names used in the end. -/
def uniqueAll (used : List String) : List String → List String × List String
  | [] => ([], used)
  | base :: bases =>
    let name := unique base used
    let (names, used) := uniqueAll (name :: used) bases
    (name :: names, used)

end SolidityBuild.TypeScript.Naming
