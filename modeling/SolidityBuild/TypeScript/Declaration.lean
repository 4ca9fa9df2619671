import SolidityBuild.Abi.Entry
import SolidityBuild.TypeScript.Mapping

/-!
Interface declarations: one method signature for each function of a contract
interface. The types may be written out, or given names of their own by type
aliases in front of the declaration.
-/

namespace SolidityBuild.TypeScript

open Abi (Field)

/-- The word in front of a declared interface. -/
inductive DeclarationKeyword where
  | exported
  | declared
deriving DecidableEq

def DeclarationKeyword.text : DeclarationKeyword → String
  | exported => "export"
  | declared => "declare"

structure Declaration where
  name : String
  keyword : DeclarationKeyword
  /-- Whether base types are given aliases. -/
  extractTypes : Bool
  mapping : Mapping

namespace Declaration

mutual

/-- Whether a base type occurs in a parameter, at any depth. -/
def occursIn (b : BaseType) : Field → Bool
  | .regular _ typeName _ => BaseType.named? typeName = some b
  | .tuple _ components _ => occursInAny b components

def occursInAny (b : BaseType) : List Field → Bool
  | [] => false
  | f :: fs => occursIn b f || occursInAny b fs

end

/-- Whether a base type is given an alias. `string` is not: no alias may have
its name. -/
def isExtracted (m : Mapping) (functions : List Abi.Function) (b : BaseType) : Bool :=
  b ≠ .string && (m.get? b).isSome &&
    functions.any fun f => occursInAny b f.inputs || occursInAny b f.outputs

/-- The base types that are given aliases, in order. -/
def extracted (d : Declaration) (functions : List Abi.Function) : List BaseType :=
  if d.extractTypes then BaseType.all.filter (isExtracted d.mapping functions) else []

def aliasLine (m : Mapping) (b : BaseType) : String :=
  "type " ++ b.name ++ " = " ++ (m.get? b).getD b.name ++ ";\n"

/-- The mapping that names each alias. -/
def withAliases (m : Mapping) (bases : List BaseType) : Mapping :=
  bases.foldl (fun m b => m.set b b.name) m

/-- The name of the parameter at a position. -/
def parameterName (position : Nat) (name : String) : String :=
  if name = "" then "arg" ++ Text.Decimal.print position else name

def parameterOf (m : Mapping) (position : Nat) (f : Field) : String :=
  parameterName position f.name ++ ": " ++ m.typeOf f

/-- The type of the outputs: a tuple, unless there are none. -/
def outputOf (m : Mapping) (outputs : List Field) : String :=
  if outputs.isEmpty then "void" else m.typeOf (Field.tupleOf outputs)

def methodLine (m : Mapping) (f : Abi.Function) : String :=
  "    " ++ f.name ++ "(" ++ String.intercalate ", " (f.inputs.mapIdx (parameterOf m)) ++
    "): Promise<" ++ outputOf m f.outputs ++ ">;\n"

/-- The source text of a declaration. -/
def render (d : Declaration) (abi : Abi) : String :=
  let functions := abi.functions
  let bases := d.extracted functions
  let m := withAliases d.mapping bases
  String.join (bases.map (aliasLine d.mapping)) ++
    (if bases.isEmpty then "" else "\n") ++
    d.keyword.text ++ " interface " ++ d.name ++ " \x7b\n" ++
    String.join (functions.map (methodLine m)) ++ "\x7d\n"

end Declaration

end SolidityBuild.TypeScript
