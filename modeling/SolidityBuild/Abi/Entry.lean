import SolidityBuild.Abi.Field

/-!
Contract interfaces: functions, the constructor, events, errors, and the
functions that answer what no other function does.
-/

namespace SolidityBuild

namespace Abi

/-- What a function does to the state. -/
inductive Mutability where
  | pure
  | view
  | nonpayable
  | payable
deriving DecidableEq

namespace Mutability

def text : Mutability → String
  | pure => "pure"
  | view => "view"
  | nonpayable => "nonpayable"
  | payable => "payable"

def all : List Mutability := [pure, view, nonpayable, payable]

/-- Whether calls are answered without a transaction. -/
def isReadOnly : Mutability → Bool
  | pure | view => true
  | nonpayable | payable => false

/-- The mutability of an entry: the declared one, or what the older flags
say. -/
def of (declared : Option Mutability) (constant payable : Option Bool) : Mutability :=
  match declared with
  | some mutability => mutability
  | none =>
    if constant = some true then view
    else if payable = some true then .payable
    else nonpayable

end Mutability

structure Function where
  name : String
  inputs : List Field
  outputs : List Field
  stateMutability : Option Mutability
  constant : Option Bool
  payable : Option Bool

namespace Function

def mutability (f : Function) : Mutability :=
  .of f.stateMutability f.constant f.payable

/-- The name with the types of the parameters. -/
def signature (f : Function) : String :=
  f.name ++ "(" ++ String.intercalate "," (Field.canonicalTypes f.inputs) ++ ")"

end Function

structure Constructor where
  inputs : List Field
  stateMutability : Option Mutability
  payable : Option Bool

structure Event where
  name : String
  inputs : List Field
  anonymous : Bool

structure ErrorCase where
  name : String
  inputs : List Field

/-- A function without a name. -/
structure Special where
  stateMutability : Option Mutability
deriving DecidableEq

inductive Entry where
  | constructor (c : Constructor)
  | function (f : Function)
  | event (e : Event)
  | error (e : ErrorCase)
  | fallback (s : Special)
  | receive (s : Special)

end Abi

/-- The interface of a contract, entry by entry. -/
abbrev Abi := List Abi.Entry

namespace Abi

/-- The functions, in order. -/
def functions (abi : Abi) : List Function :=
  abi.filterMap fun
  | .function f => some f
  | _ => none

/-- The first constructor. -/
def constructor? (abi : Abi) : Option Constructor :=
  abi.findSome? fun
  | .constructor c => some c
  | _ => none

end Abi

end SolidityBuild
