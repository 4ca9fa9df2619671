import SolidityBuild.Abi.Entry
import SolidityBuild.Json.Record

/-!
Contract interfaces in JSON. A parameter is read in two steps: first its fields
and those of its components, then the types, inner parameters first. So a fault
in the shape of a parameter comes before any fault in its types. An entry is
told by its `type`; it is read as a whole before it is looked into.
-/

namespace SolidityBuild.Abi

open Json

/-- Reads a part of an interface, which may hold an invalid type. -/
abbrev Decoder (α : Type) := Json.Decoder InvalidType α

/-- A parameter whose type has not been read yet. -/
inductive Draft where
  | mk (label : Label) (type : String) (components : Option (List Draft))

namespace Draft

instance : Inhabited Draft := ⟨⟨Field.unnamed, "", none⟩⟩

def fieldNames : List String := ["name", "type", "components", "internalType", "indexed"]

/-- Read a parameter whose components are nested less deeply than `fuel`. -/
def readWithin : (fuel : Nat) → Decoder Draft
  | 0 => fun _ => .error .misfit
  | fuel + 1 =>
    Record.decode fieldNames .skip fun r =>
      (fun name type components internalType indexed =>
          ⟨⟨name, internalType, indexed⟩, type, components⟩) <$>
        r.optionalWith "name" "" .text <*>
        r.required "type" .text <*>
        r.optional "components" (.list (readWithin fuel)) <*>
        r.optional "internalType" .text <*>
        r.optional "indexed" .bool

def read : Decoder Draft := fun d => readWithin d.height d

mutual

/-- Read the types, those of components first. -/
def toField : Draft → Except InvalidType Field
  | mk label type none => Field.ofType label type none
  | mk label type (some components) => do
      let fields ← toFields components
      Field.ofType label type (some fields)

def toFields : List Draft → Except InvalidType (List Field)
  | [] => .ok []
  | draft :: drafts => do
      let field ← draft.toField
      let fields ← toFields drafts
      return field :: fields

end

end Draft

namespace Field

def read : Decoder Field := fun d => do
  let draft ← Draft.read d
  match draft.toField with
  | .ok field => return field
  | .error e => .error (.refused e)

/-- The written parts of a parameter, `components` left out unless given. -/
def writeParts (label : Label) (type : String) (components : Option Value) : Value :=
  .obj ([("name", .str label.name), ("type", .str type)] ++
    Value.field? "components" id components ++
    Value.field? "internalType" .str label.internalType ++
    Value.field? "indexed" .bool label.indexed)

mutual

def write : Field → Value
  | regular label typeName dims => writeParts label (typeName ++ Dim.texts dims) none
  | tuple label components dims =>
    writeParts label (tupleName ++ Dim.texts dims) (some (.arr (writeAll components)))

def writeAll : List Field → List Value
  | [] => []
  | f :: fs => f.write :: writeAll fs

end

end Field

namespace Mutability

def read {ε : Type} : Json.Decoder ε Mutability :=
  .oneOf Document.isVoid (all.map fun m => (m.text, m))

def write (m : Mutability) : Value := .str m.text

end Mutability

/-- Parameters, none if they are not given. -/
def inputsOf (r : Record) : Fields InvalidType (List Field) :=
  r.optionalWith "inputs" [] (.list Field.read)

def mutabilityOf (r : Record) : Fields InvalidType (Option Mutability) :=
  r.optional "stateMutability" Mutability.read

namespace Function

def read : Decoder Function :=
  Record.decode ["name", "inputs", "outputs", "stateMutability", "constant", "payable"] .skip
    fun r => Function.mk <$>
      r.required "name" .text <*>
      inputsOf r <*>
      r.optionalWith "outputs" [] (.list Field.read) <*>
      mutabilityOf r <*>
      r.optional "constant" .bool <*>
      r.optional "payable" .bool

def fields (f : Function) : List (String × Value) :=
  [("name", .str f.name), ("inputs", .arr (Field.writeAll f.inputs)),
    ("outputs", .arr (Field.writeAll f.outputs))] ++
  Value.field? "stateMutability" Mutability.write f.stateMutability ++
  Value.field? "constant" .bool f.constant ++
  Value.field? "payable" .bool f.payable

end Function

namespace Constructor

def read : Decoder Constructor :=
  Record.decode ["inputs", "stateMutability", "payable"] .skip fun r =>
    Constructor.mk <$> inputsOf r <*> mutabilityOf r <*> r.optional "payable" .bool

def fields (c : Constructor) : List (String × Value) :=
  [("inputs", .arr (Field.writeAll c.inputs))] ++
  Value.field? "stateMutability" Mutability.write c.stateMutability ++
  Value.field? "payable" .bool c.payable

end Constructor

namespace Event

def read : Decoder Event :=
  Record.decode ["name", "inputs", "anonymous"] .skip fun r =>
    Event.mk <$> r.required "name" .text <*> inputsOf r <*>
      r.optionalWith "anonymous" false .bool

def fields (e : Event) : List (String × Value) :=
  [("name", .str e.name), ("inputs", .arr (Field.writeAll e.inputs)),
    ("anonymous", .bool e.anonymous)]

end Event

namespace ErrorCase

def read : Decoder ErrorCase :=
  Record.decode ["name", "inputs"] .skip fun r =>
    ErrorCase.mk <$> r.required "name" .text <*> inputsOf r

def fields (e : ErrorCase) : List (String × Value) :=
  [("name", .str e.name), ("inputs", .arr (Field.writeAll e.inputs))]

end ErrorCase

namespace Special

def read : Decoder Special :=
  Record.decode ["stateMutability"] .skip fun r => Special.mk <$> mutabilityOf r

def fields (s : Special) : List (String × Value) :=
  Value.field? "stateMutability" Mutability.write s.stateMutability

end Special

namespace Entry

/-- The key that tells the kind of an entry. -/
def tagName : String := "type"

/-- Read the entry of a kind. -/
def readAs (tag : String) : Decoder Entry := fun d =>
  if tag = "constructor" then (Constructor.read d).map .constructor
  else if tag = "function" then (Function.read d).map .function
  else if tag = "event" then (Event.read d).map .event
  else if tag = "error" then (ErrorCase.read d).map .error
  else if tag = "fallback" then (Special.read d).map .fallback
  else if tag = "receive" then (Special.read d).map .receive
  else .error .misfit

/-- Read an entry: an object with a tag among its fields, or an array that
begins with the tag. -/
def read : Decoder Entry := fun d =>
  if d.isReadable then
    match d with
    | .obj fields =>
      match fields.filter (·.1 = some tagName) with
      | [(_, .str tag)] => readAs tag (.obj (fields.filter (·.1 ≠ some tagName)))
      | _ => .error .misfit
    | .arr (.str tag :: items) => readAs tag (.arr items)
    | _ => .error .misfit
  else .error .misfit

def tag : Entry → String
  | constructor _ => "constructor"
  | function _ => "function"
  | event _ => "event"
  | error _ => "error"
  | fallback _ => "fallback"
  | receive _ => "receive"

def fields : Entry → List (String × Value)
  | constructor c => c.fields
  | function f => f.fields
  | event e => e.fields
  | error e => e.fields
  | fallback s => s.fields
  | receive s => s.fields

/-- An entry is written as an object that begins with its tag. -/
def write (e : Entry) : Value := .obj ((tagName, .str e.tag) :: e.fields)

end Entry

/-- Read an interface. -/
def read : Decoder Abi := .list Entry.read

/-- Write an interface. -/
def write (abi : Abi) : Value := .arr (abi.map Entry.write)

end SolidityBuild.Abi
