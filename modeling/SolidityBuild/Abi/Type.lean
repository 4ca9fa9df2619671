import SolidityBuild.Text.Decimal
import SolidityBuild.Text.Pieces

/-!
Type strings of parameters: the name of a base type with any number of array
dimensions behind it, such as `uint8[2][]`. Dimensions are taken off from the
right, since only there a bracket can be told from one inside the base name.
-/

namespace SolidityBuild.Abi

/-- One array dimension. -/
inductive Dim where
  | dynamic
  | fixed (size : UInt64)
deriving DecidableEq

/-- Why a parameter has no type. -/
inductive TypeFlaw where
  | unbalancedBrackets
  | badArraySize
  | missingBaseType
  | tupleWithoutComponents
  | strayComponents
deriving DecidableEq

/-- A type string that is refused, and why. -/
structure InvalidType where
  type : String
  flaw : TypeFlaw
deriving DecidableEq

def TypeFlaw.text : TypeFlaw → String
  | unbalancedBrackets => "unbalanced brackets"
  | badArraySize => "bad array size"
  | missingBaseType => "missing base type"
  | tupleWithoutComponents => "tuple without components"
  | strayComponents => "components on a non-tuple type"

def InvalidType.message (e : InvalidType) : String :=
  "Invalid ABI type '" ++ e.type ++ "': " ++ e.flaw.text

namespace Dim

open Text

def text : Dim → String
  | dynamic => "[]"
  | fixed size => "[" ++ Decimal.print size.toNat ++ "]"

/-- The dimension with the given text between its brackets: nothing, or a size
that fits into 64 bits. -/
def ofSize? (size : List Char) : Option Dim :=
  if size.isEmpty then some dynamic
  else (Decimal.read? (UInt64.size - 1) size).map fun n => fixed (UInt64.ofNat n)

/-- The text of dimensions, from left to right. -/
def texts (dims : List Dim) : String := String.join (dims.map text)

/-- Take dimensions off the end of a text, which is given in reverse. The text
between two brackets is collected in `inside`. -/
def takeOff (inside : Option (List Char)) (dims : List Dim) :
    List Char → Except TypeFlaw (List Char × List Dim)
  | [] =>
    match inside with
    | none => .ok ([], dims)
    | some _ => .error .unbalancedBrackets
  | c :: reversed =>
    match inside with
    | none =>
      if c = ']' then takeOff (some []) dims reversed
      else .ok ((c :: reversed).reverse, dims)
    | some size =>
      if c = '[' then
        match ofSize? size with
        | some dim => takeOff none (dim :: dims) reversed
        | none => .error .badArraySize
      else takeOff (some (c :: size)) dims reversed

end Dim

/-- The base name and the dimensions of a type string. Blanks around it do not
count. -/
def splitType (type : String) : Except TypeFlaw (String × List Dim) :=
  match Dim.takeOff none [] (Text.trim type.toList).reverse with
  | .error flaw => .error flaw
  | .ok (base, dims) =>
    if base.isEmpty then .error .missingBaseType else .ok (String.ofList base, dims)

end SolidityBuild.Abi
