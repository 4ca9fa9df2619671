import SolidityBuild.Abi.Field
import SolidityBuild.TypeScript.BaseType

/-!
From parameter types to type expressions. A mapping gives the expression for a
base type; it may be partial, and a type without an expression stands for
itself. Arrays become `T[]`, tuples become positional tuple types.
-/

namespace SolidityBuild.TypeScript

open Abi (Field)

/-- The expressions for base types. -/
structure Mapping where
  get? : BaseType → Option String

/-- A name that is no base type. -/
structure UnknownBaseType where
  name : String
deriving DecidableEq

def UnknownBaseType.message (e : UnknownBaseType) : String :=
  "Unknown base type '" ++ e.name ++ "' in type mapping"

namespace Mapping

/-- The mapping without expressions. -/
def empty : Mapping := ⟨fun _ => none⟩

/-- Whatever a caller may pass in. Booleans and byte strings keep their
names. -/
def defaults : Mapping := ⟨fun
  | .address => some "string | bigint"
  | .uint _ | .int _ => some "string | bigint | number"
  | .string => some "string"
  | .bool | .bytes | .fixedBytes _ => none⟩

/-- The expression for an integer in parameters of clients: integers of 8 bits
are numbers. -/
def integerExpr (step : Fin 32) : String :=
  if BaseType.width step ≤ 8 then "number" else "bigint"

/-- The types of parameters in clients. -/
def ethers : Mapping := ⟨fun
  | .address | .string => some "string"
  | .uint step | .int step => some (integerExpr step)
  | .bool => some "boolean"
  | .bytes | .fixedBytes _ => some "string"⟩

/-- The mapping with another expression for one base type. -/
def set (m : Mapping) (base : BaseType) (expr : String) : Mapping :=
  ⟨fun b => if b = base then some expr else m.get? b⟩

/-- The mapping with another expression for a base type given by name. -/
def setNamed (m : Mapping) (name expr : String) : Except UnknownBaseType Mapping :=
  match BaseType.named? name with
  | some base => .ok (m.set base expr)
  | none => .error ⟨BaseType.normalize name⟩

/-- The expression for a name or an alias. -/
def lookup? (m : Mapping) (name : String) : Option String :=
  (BaseType.named? name).bind m.get?

/-- The expressions, in the order of base types. -/
def entries (m : Mapping) : List (BaseType × String) :=
  BaseType.all.filterMap fun b => (m.get? b).map (b, ·)

/-- Parenthesise an expression with blanks in it. -/
def enclose (expr : String) : String :=
  if expr.toList.any Text.isBlank then "(" ++ expr ++ ")" else expr

/-- The expression for a base type name: the mapped one, or the name that it
stands for. -/
def exprOfName (m : Mapping) (name : String) : String :=
  (m.lookup? (BaseType.normalize name)).getD (BaseType.normalize name)

/-- The type of an array with the given dimensions. -/
def arrayOf (expr : String) (dims : List Abi.Dim) : String :=
  dims.foldl (fun expr _ => enclose expr ++ "[]") expr

mutual

/-- The type expression of a parameter. -/
def typeOf (m : Mapping) : Field → String
  | .regular _ typeName dims => arrayOf (m.exprOfName typeName) dims
  | .tuple _ components dims =>
    arrayOf ("[" ++ String.intercalate ", " (m.typesOf components) ++ "]") dims

def typesOf (m : Mapping) : List Field → List String
  | [] => []
  | f :: fs => m.typeOf f :: m.typesOf fs

end

end Mapping

end SolidityBuild.TypeScript
