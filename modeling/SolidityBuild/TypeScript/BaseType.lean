import SolidityBuild.Text.Decimal
import SolidityBuild.Text.Pieces

/-!
The base types of contract parameters. Integers have a width of 8 to 256 bits
in steps of 8, byte strings of fixed length have 1 to 32 bytes; both are held
so that no other width can be written down.
-/

namespace SolidityBuild.TypeScript

inductive BaseType where
  | address
  /-- An unsigned integer of `8 * (step + 1)` bits. -/
  | uint (step : Fin 32)
  /-- A signed integer of `8 * (step + 1)` bits. -/
  | int (step : Fin 32)
  | string
  | bool
  | bytes
  /-- `step + 1` bytes. -/
  | fixedBytes (step : Fin 32)
deriving DecidableEq

namespace BaseType

open Text

/-- Every base type, in order. -/
def all : List BaseType :=
  [address] ++ (List.finRange 32).map uint ++ (List.finRange 32).map int ++
    [string, bool, bytes] ++ (List.finRange 32).map fixedBytes

theorem mem_all (b : BaseType) : b ∈ all := by
  cases b <;> simp [all]

def width (step : Fin 32) : Nat := 8 * (step.val + 1)

/-- The width of an integer. -/
def bits? : BaseType → Option Nat
  | uint step | int step => some (width step)
  | _ => none

def isInteger (b : BaseType) : Bool := b.bits?.isSome

/-- The name of the type. -/
def name : BaseType → String
  | address => "address"
  | uint step => "uint" ++ Decimal.print (width step)
  | int step => "int" ++ Decimal.print (width step)
  | string => "string"
  | bool => "bool"
  | bytes => "bytes"
  | fixedBytes step => "bytes" ++ Decimal.print (step.val + 1)

/-- The integer width that a text denotes, as a step. The number has to fit
into 16 bits. -/
def stepOfBits? (text : List Char) : Option (Fin 32) := do
  let bits ← Decimal.read? (UInt16.size - 1) text
  if h : 8 ≤ bits ∧ bits ≤ 256 ∧ bits % 8 = 0 then some ⟨bits / 8 - 1, by omega⟩ else none

/-- The length of a byte string that a text denotes, as a step. The number has
to fit into 8 bits. -/
def stepOfLength? (text : List Char) : Option (Fin 32) := do
  let length ← Decimal.read? (UInt8.size - 1) text
  if h : 1 ≤ length ∧ length ≤ 32 then some ⟨length - 1, by omega⟩ else none

/-- Read a name: a word, or a word with a number behind it. -/
def ofName? (name : String) : Option BaseType :=
  if name = "address" then some address
  else if name = "string" then some string
  else if name = "bool" then some bool
  else if name = "bytes" then some bytes
  else
    match ['b', 'y', 't', 'e', 's'].isPrefixOf? name.toList with
    | some number => (stepOfLength? number).map fixedBytes
    | none =>
      match ['u', 'i', 'n', 't'].isPrefixOf? name.toList with
      | some number => (stepOfBits? number).map uint
      | none =>
        match ['i', 'n', 't'].isPrefixOf? name.toList with
        | some number => (stepOfBits? number).map int
        | none => none

/-- Names that stand for other names. -/
def aliases : List (String × String) :=
  [("byte", "uint8"), ("account", "address"), ("uint", "uint256"), ("int", "int256")]

/-- The name that a name stands for. -/
def normalize (name : String) : String := (aliases.lookup name).getD name

/-- The base type of a name or an alias. -/
def named? (name : String) : Option BaseType := ofName? (normalize name)

end BaseType

end SolidityBuild.TypeScript
