import SolidityBuild.Json.Binary64
import SolidityBuild.TextMap

/-!
JSON values as a program holds them. Integers are kept apart from fractional
numbers, and the fields of an object keep their order, which is the order in
which they are written.
-/

namespace SolidityBuild.Json

inductive Value where
  | null
  | bool (b : Bool)
  | int (n : Int)
  | float (x : Binary64)
  | str (s : String)
  | arr (items : List Value)
  | obj (fields : List (String × Value))

namespace Value

instance : Inhabited Value := ⟨.null⟩

/-- The field for an optional part: none at all if the part is absent. -/
def field? {α : Type} (key : String) (write : α → Value) : Option α → List (String × Value)
  | none => []
  | some a => [(key, write a)]

/-- The field for a list that is left out when it is empty. -/
def nonEmptyField {α : Type} (key : String) (write : α → Value) (items : List α) :
    List (String × Value) :=
  if items.isEmpty then [] else [(key, .arr (items.map write))]

/-- An object with one field for each entry of a map. -/
def ofMap {α : Type} (write : α → Value) (map : TextMap α) : Value :=
  .obj (map.entries.map fun e => (e.1, write e.2))

end Value

end SolidityBuild.Json
