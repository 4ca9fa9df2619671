/-!
Finite double-precision numbers, held exactly as a sign, a mantissa and a
power of two. Rounding, the product and the quotient are computed in natural
numbers. `shortest` gives the fewest decimal digits that read back as the
number, and of those the nearest.
-/

namespace SolidityBuild.Json

/-- The number `± mantissa · 2 ^ exponent`. The mantissa is below `2 ^ 53`; it
is at least `2 ^ 52` unless the exponent is the least one, `-1074`. -/
structure Binary64 where
  negative : Bool
  mantissa : Nat
  exponent : Int
deriving DecidableEq

namespace Binary64

/-- The size of a double, without its sign. -/
structure Magnitude where
  mantissa : Nat
  exponent : Int
deriving DecidableEq

namespace Magnitude

def leastExponent : Int := -1074

def zero : Magnitude := ⟨0, leastExponent⟩

/-- The fraction `mantissa · 2 ^ exponent`. -/
def toFraction (x : Magnitude) : Nat × Nat :=
  if x.exponent < 0 then (x.mantissa, Nat.pow 2 (-x.exponent).toNat)
  else (x.mantissa * Nat.pow 2 x.exponent.toNat, 1)

/-- The fraction `num / den`, counted in units of `2 ^ exponent`. -/
def inUnits (num den : Nat) (exponent : Int) : Nat × Nat :=
  if exponent < 0 then (num * Nat.pow 2 (-exponent).toNat, den)
  else (num, den * Nat.pow 2 exponent.toNat)

/-- The integer nearest to `num / den`, an even one on a tie. -/
def roundDiv (num den : Nat) : Nat :=
  let quotient := num / den
  let twice := 2 * (num % den)
  if twice < den then quotient
  else if den < twice then quotient + 1
  else quotient + quotient % 2

/-- The exponent at which `num / den` has a mantissa of 53 bits, but not less
than the least exponent. -/
def exponentOf (num den : Nat) : Int :=
  let low : Int := Nat.log2 num - Nat.log2 den - 53
  let (n, d) := inUnits num den low
  max leastExponent (if n / d < Nat.pow 2 53 then low else low + 1)

/-- The double nearest to `num / den`, ties to the even mantissa; `none` if it
is beyond the largest double. -/
def round? (num den : Nat) : Option Magnitude :=
  if num = 0 then some zero
  else
    let exponent := exponentOf num den
    let (n, d) := inUnits num den exponent
    let mantissa := roundDiv n d
    let rounded : Magnitude :=
      if mantissa = Nat.pow 2 53 then ⟨Nat.pow 2 52, exponent + 1⟩ else ⟨mantissa, exponent⟩
    if 971 < rounded.exponent then none else some rounded

def ofNat? (n : Nat) : Option Magnitude := round? n 1

def mul? (x y : Magnitude) : Option Magnitude :=
  let (a, b) := x.toFraction
  let (c, d) := y.toFraction
  round? (a * c) (b * d)

def div? (x y : Magnitude) : Option Magnitude :=
  let (a, b) := x.toFraction
  let (c, d) := y.toFraction
  round? (a * d) (b * c)

/-- Powers of ten are rounded to doubles before they are used. -/
def tenTo? (n : Nat) : Option Magnitude := ofNat? (Nat.pow 10 n)

/-- Divide by a power of ten, in steps of at most `10 ^ 308`. -/
def shrink? (x : Magnitude) (places : Nat) : Option Magnitude :=
  if x.mantissa = 0 then some x
  else if places ≤ 308 then do x.div? (← tenTo? places)
  else do
    let smaller ← x.div? (← tenTo? 308)
    shrink? smaller (places - 308)
termination_by places

/-- Multiply by a power of ten. -/
def grow? (x : Magnitude) (places : Nat) : Option Magnitude :=
  if x.mantissa = 0 then some x
  else if 308 < places then none
  else do x.mul? (← tenTo? places)

/-- The double that stands for `significand · 10 ^ exponent`: both factors are
rounded, then their product or quotient. -/
def ofDecimal? (significand : Nat) (exponent : Int) : Option Magnitude := do
  let x ← ofNat? significand
  if exponent < 0 then x.shrink? (-exponent).toNat else x.grow? exponent.toNat

/-- Whether `num / den` lies among the reals that round to `x`. The bounds are
half way to the neighbours and belong to `x` if its mantissa is even; below a
power of two the neighbour is half as far. -/
def admits (x : Magnitude) (num den : Nat) : Bool :=
  let (n, d) := inUnits num den (x.exponent - 2)
  let four := 4 * x.mantissa
  let below :=
    if x.mantissa = Nat.pow 2 52 ∧ leastExponent < x.exponent then four - 1 else four - 2
  let above := four + 2
  if x.mantissa % 2 = 0 then below * d ≤ n && n ≤ above * d
  else below * d < n && n < above * d

/-- The least `places` from `soFar` on at which `num · 10 ^ places` reaches
`den`. -/
def placesToOne (num den : Nat) : Nat → Nat → Nat
  | 0, soFar => soFar
  | fuel + 1, soFar =>
    if den ≤ num * Nat.pow 10 soFar then soFar else placesToOne num den fuel (soFar + 1)

/-- The exponent of the first decimal digit of `num / den`. -/
def leadingPower (num den : Nat) : Int :=
  if den ≤ num then (toString (num / den)).length - 1
  else -(placesToOne num den 400 1 : Nat)

/-- The fraction with the numerator `digits` and the unit `10 ^ power`. -/
def decimal (digits : Nat) (power : Int) : Nat × Nat :=
  if power < 0 then (digits, Nat.pow 10 (-power).toNat) else (digits * Nat.pow 10 power.toNat, 1)

/-- The neighbour of `x` on the grid of multiples of `10 ^ power` that reads
back as `x`; of two, the nearer one, and on a tie the even one. -/
def onGrid? (x : Magnitude) (power : Int) : Option Nat :=
  let (num, den) := x.toFraction
  let (unit, per) := decimal 1 power
  let n := num * per
  let d := den * unit
  let under := n / d
  let admitted (digits : Nat) : Bool :=
    let (a, b) := decimal digits power
    x.admits a b
  let nearest := roundDiv n d
  if admitted nearest then some nearest
  else if admitted under then some under
  else if admitted (under + 1) then some (under + 1)
  else none

/-- The first grid with a hit, from the coarsest on. -/
def firstHit (x : Magnitude) : Nat → Int → Nat × Int
  | 0, power => ((x.onGrid? power).getD 0, power)
  | fuel + 1, power =>
    match x.onGrid? power with
    | some digits => (digits, power)
    | none => firstHit x fuel (power - 1)

/-- The shortest decimal that reads back as `x`: its digits as a number, and
the power of ten of the last digit. Seventeen digits always suffice. -/
def shortest (x : Magnitude) : Nat × Int :=
  let (num, den) := x.toFraction
  firstHit x 17 (leadingPower num den)

end Magnitude

/-- The size of the number. -/
def magnitude (x : Binary64) : Magnitude := ⟨x.mantissa, x.exponent⟩

def ofMagnitude (negative : Bool) (x : Magnitude) : Binary64 :=
  ⟨negative, x.mantissa, x.exponent⟩

def zeros (n : Nat) : String := String.ofList (List.replicate n '0')

/-- Digits without their trailing zeros. -/
def significant (digits : String) : String :=
  String.ofList (digits.toList.reverse.dropWhile (· = '0')).reverse

/-- Write digits with a decimal point. The first digit stands for a multiple of
`10 ^ power`. Numbers from `1e-5` on and below `1e16` are written positionally
and keep a fractional digit; others have a signed exponent. -/
def layout (digits : String) (power : Int) : String :=
  let count : Int := digits.length
  if -5 ≤ power ∧ power ≤ 15 then
    if power < 0 then "0." ++ zeros (-power - 1).toNat ++ digits
    else if count - 1 ≤ power then digits ++ zeros (power - count + 1).toNat ++ ".0"
    else
      let whole := (power + 1).toNat
      String.ofList (digits.toList.take whole) ++ "." ++ String.ofList (digits.toList.drop whole)
  else
    let mantissa :=
      match digits.toList with
      | first :: second :: rest => String.ofList [first] ++ "." ++ String.ofList (second :: rest)
      | _ => digits
    let sign := if power < 0 then "-" else "+"
    mantissa ++ "e" ++ sign ++ toString power.natAbs

/-- The text of a number. -/
def print (x : Binary64) : String :=
  let sign := if x.negative then "-" else ""
  if x.mantissa = 0 then sign ++ "0.0"
  else
    let (digits, power) := x.magnitude.shortest
    let text := toString digits
    sign ++ layout (significant text) (power + text.length - 1)

end Binary64

end SolidityBuild.Json
