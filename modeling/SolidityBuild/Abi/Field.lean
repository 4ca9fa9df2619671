import SolidityBuild.Abi.Type

/-!
Parameters of functions, constructors, events and errors. A parameter is
regular, with the name of a base type, or a tuple of further parameters; either
may have array dimensions. Functions on parameters recurse over the tree and
over the lists of components in it.
-/

namespace SolidityBuild.Abi

/-- What a parameter carries besides its type. -/
structure Label where
  /-- The name, which may be empty. -/
  name : String
  internalType : Option String
  /-- Whether an event parameter is indexed. -/
  indexed : Option Bool
deriving DecidableEq

inductive Field where
  | regular (label : Label) (typeName : String) (dims : List Dim)
  | tuple (label : Label) (components : List Field) (dims : List Dim)

namespace Field

instance : Inhabited Field := ⟨.regular ⟨"", none, none⟩ "" []⟩

def unnamed : Label := ⟨"", none, none⟩

def label : Field → Label
  | regular label _ _ => label
  | tuple label _ _ => label

def name (f : Field) : String := f.label.name

def dims : Field → List Dim
  | regular _ _ dims => dims
  | tuple _ _ dims => dims

def withDims (f : Field) (dims : List Dim) : Field :=
  match f with
  | regular label typeName _ => regular label typeName dims
  | tuple label components _ => tuple label components dims

def isArray (f : Field) : Bool := ¬ f.dims.isEmpty

def isTuple : Field → Bool
  | regular .. => false
  | tuple .. => true

/-- The base name that stands for a tuple. -/
def tupleName : String := "tuple"

def baseType : Field → String
  | regular _ typeName _ => typeName
  | tuple .. => tupleName

/-- The element of an array: the array without its last dimension. -/
def element? (f : Field) : Option Field :=
  if f.dims.isEmpty then none else some (f.withDims f.dims.dropLast)

/-- The type string. -/
def typeString (f : Field) : String := f.baseType ++ Dim.texts f.dims

mutual

/-- The type as it stands in signatures: tuples are spelled out. -/
def canonicalType : Field → String
  | regular _ typeName dims => typeName ++ Dim.texts dims
  | tuple _ components dims =>
    "(" ++ String.intercalate "," (canonicalTypes components) ++ ")" ++ Dim.texts dims

def canonicalTypes : List Field → List String
  | [] => []
  | f :: fs => f.canonicalType :: canonicalTypes fs

end

/-- An unnamed tuple that is no array. -/
def tupleOf (components : List Field) : Field := tuple unnamed components []

/-- A parameter with the given type string. Components are given exactly for
tuples. -/
def ofType (label : Label) (type : String) (components : Option (List Field)) :
    Except InvalidType Field :=
  match splitType type with
  | .error flaw => .error ⟨type, flaw⟩
  | .ok (base, dims) =>
    if base = tupleName then
      match components with
      | some components => .ok (tuple label components dims)
      | none => .error ⟨type, .tupleWithoutComponents⟩
    else
      match components with
      | some _ => .error ⟨type, .strayComponents⟩
      | none => .ok (regular label base dims)

end Field

end SolidityBuild.Abi
