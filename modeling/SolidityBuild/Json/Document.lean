import SolidityBuild.Json.Value

/-!
What a JSON text spells, before it is known which parts of it will be used.
Two things are spelled that no program can hold: a part that is well formed
but denotes nothing (`unreadable`), which does no harm where it is skipped, and
the place where the text breaks its own rules (`broken`), which does harm
wherever it is met. A key that denotes nothing is `none`.
-/

namespace SolidityBuild.Json

inductive Document where
  | null
  | bool (b : Bool)
  | int (n : Int)
  | float (x : Binary64)
  | str (s : String)
  | arr (items : List Document)
  | obj (fields : List (Option String × Document))
  | unreadable
  | broken

namespace Document

instance : Inhabited Document := ⟨.null⟩

mutual

/-- Whether the text can be passed over to its end. -/
def intact : Document → Bool
  | arr items => intactItems items
  | obj fields => intactFields fields
  | broken => false
  | _ => true

def intactItems : List Document → Bool
  | [] => true
  | d :: ds => d.intact && intactItems ds

def intactFields : List (Option String × Document) → Bool
  | [] => true
  | (_, d) :: fs => d.intact && intactFields fs

end

mutual

/-- The value that is spelled, if every part of it denotes something. The
fields of objects come in key order; of two with one key the later stays. -/
def value? : Document → Option Value
  | null => some .null
  | bool b => some (.bool b)
  | int n => some (.int n)
  | float x => some (.float x)
  | str s => some (.str s)
  | arr items => (valueItems? items).map .arr
  | obj fields => (valueFields? fields).map fun fs => .obj (TextMap.ofList fs).entries
  | unreadable => none
  | broken => none

def valueItems? : List Document → Option (List Value)
  | [] => some []
  | d :: ds => do
      let v ← d.value?
      let vs ← valueItems? ds
      return v :: vs

def valueFields? : List (Option String × Document) → Option (List (String × Value))
  | [] => some []
  | (key, d) :: fs => do
      let k ← key
      let v ← d.value?
      let rest ← valueFields? fs
      return (k, v) :: rest

end

/-- Whether every part denotes something. -/
def isReadable (d : Document) : Bool := d.value?.isSome

mutual

/-- How deep arrays and objects are nested. -/
def height : Document → Nat
  | arr items => heightItems items + 1
  | obj fields => heightFields fields + 1
  | _ => 1

def heightItems : List Document → Nat
  | [] => 0
  | d :: ds => max d.height (heightItems ds)

def heightFields : List (Option String × Document) → Nat
  | [] => 0
  | (_, d) :: fs => max d.height (heightFields fs)

end

end Document

namespace Value

mutual

/-- The document that spells a value. -/
def toDocument : Value → Document
  | null => .null
  | bool b => .bool b
  | int n => .int n
  | float x => .float x
  | str s => .str s
  | arr items => .arr (itemDocuments items)
  | obj fields => .obj (fieldDocuments fields)

def itemDocuments : List Value → List Document
  | [] => []
  | v :: vs => v.toDocument :: itemDocuments vs

def fieldDocuments : List (String × Value) → List (Option String × Document)
  | [] => []
  | (k, v) :: fs => (some k, v.toDocument) :: fieldDocuments fs

end

end Value

end SolidityBuild.Json
