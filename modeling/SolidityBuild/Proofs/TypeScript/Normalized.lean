import SolidityBuild.Proofs.TypeScript.ReturnType

/-!
Aliases make no difference. With every name in a parameter replaced by the name that it
stands for, at any depth, the type of the parameter, the type of it as an answer and the
value that is passed for it stay as they are, and so do the base types that are found in
it. A declaration is thus the same with aliases and without them.
-/

namespace SolidityBuild.TypeScript

open Abi (Field)
open BaseType (named? normalize)

variable {m : Mapping} {b : BaseType} {typeName expr : String}

mutual

/-- The parameter with the names that its names stand for, at any depth. -/
def normalized : Field → Field
  | .regular label typeName dims => .regular label (normalize typeName) dims
  | .tuple label components dims => .tuple label (normalizedAll components) dims

def normalizedAll : List Field → List Field
  | [] => []
  | f :: fs => normalized f :: normalizedAll fs

end

theorem normalizedAll_eq_map (fs : List Field) : normalizedAll fs = fs.map normalized := by
  induction fs with
  | nil => rfl
  | cons f fs ih => rw [normalizedAll, ih, List.map_cons]

theorem name_normalized (f : Field) : (normalized f).name = f.name := by
  cases f <;> rfl

mutual

theorem typeNames_normalized : ∀ f : Field,
    typeNames (normalized f) = (typeNames f).map normalize
  | .regular label typeName dims => rfl
  | .tuple label components dims => by
      rw [normalized, typeNames, typeNames]
      exact typeNamesAll_normalizedAll components

theorem typeNamesAll_normalizedAll : ∀ fs : List Field,
    typeNamesAll (normalizedAll fs) = (typeNamesAll fs).map normalize
  | [] => rfl
  | f :: fs => by
      rw [normalizedAll, typeNamesAll, typeNamesAll, List.map_append, typeNames_normalized f,
        typeNamesAll_normalizedAll fs]

end

/-! ## One name -/

theorem exprOfName_normalize (m : Mapping) (typeName : String) :
    m.exprOfName (normalize typeName) = m.exprOfName typeName := by
  rw [Mapping.exprOfName, Mapping.exprOfName, BaseType.normalize_normalize]

/-- An alias stands for an integer or an address. The value of an argument of such a type
has no comment in which its name would be seen. -/
theorem wireArgOfName_normalize (typeName expr : String) :
    wireArgOfName (normalize typeName) expr = wireArgOfName typeName expr := by
  have hall : ∀ a ∈ BaseType.aliases,
      ((named? a.2).map BaseType.isInteger).getD false = true ∨ a.2 = "address" := by
    decide
  rcases BaseType.normalize_cases typeName with hself | halias
  · rw [hself]
  simp only [wireArgOfName, BaseType.normalize_normalize]
  by_cases hinteger :
      ((named? (normalize typeName)).map BaseType.isInteger).getD false = true
  · rw [if_pos hinteger, if_pos hinteger]
  · have haddress := (hall _ halias).resolve_left hinteger
    rw [if_neg hinteger, if_neg hinteger, if_pos (.inr haddress), if_pos (.inr haddress)]

/-! ## Parameters -/

mutual

theorem typeOf_normalized (m : Mapping) : ∀ f : Field, m.typeOf (normalized f) = m.typeOf f
  | .regular label typeName dims => by
      rw [normalized, Mapping.typeOf, Mapping.typeOf, exprOfName_normalize]
  | .tuple label components dims => by
      rw [normalized, Mapping.typeOf, Mapping.typeOf, typesOf_normalizedAll m components]

theorem typesOf_normalizedAll (m : Mapping) : ∀ fs : List Field,
    m.typesOf (normalizedAll fs) = m.typesOf fs
  | [] => rfl
  | f :: fs => by
      rw [normalizedAll, Mapping.typesOf, Mapping.typesOf, typeOf_normalized m f,
        typesOf_normalizedAll m fs]

end

mutual

theorem returnType_normalized : ∀ f : Field, returnType (normalized f) = returnType f
  | .regular label typeName dims => by
      rw [normalized, returnType, returnType, returnTypeOfName_normalize]
  | .tuple label components dims => by
      rw [normalized, returnType, returnType, returnTypes_normalizedAll components]

theorem returnTypes_normalizedAll : ∀ fs : List Field,
    returnTypes (normalizedAll fs) = returnTypes fs
  | [] => rfl
  | f :: fs => by
      rw [normalizedAll, returnTypes, returnTypes, returnType_normalized f,
        returnTypes_normalizedAll fs]

end

mutual

theorem wireArg_normalized : ∀ (expr : String) (f : Field),
    wireArg expr (normalized f) = wireArg expr f
  | expr, .regular label typeName dims => by
      rw [normalized, wireArg, wireArg, wireArgOfName_normalize]
  | expr, .tuple label components dims => by
      rw [normalized, wireArg, wireArg, wireArgs_normalizedAll expr 0 components]

theorem wireArgs_normalizedAll : ∀ (expr : String) (position : Nat) (fs : List Field),
    wireArgs expr position (normalizedAll fs) = wireArgs expr position fs
  | expr, position, [] => rfl
  | expr, position, f :: fs => by
      rw [normalizedAll, wireArgs, wireArgs, wireArg_normalized _ f,
        wireArgs_normalizedAll expr (position + 1) fs]

end

theorem occursIn_normalized (b : BaseType) (f : Field) :
    Declaration.occursIn b (normalized f) = Declaration.occursIn b f := by
  rw [Bool.eq_iff_iff, occursIn_iff, occursIn_iff, typeNames_normalized]
  simp only [List.mem_map, exists_exists_and_eq_and, BaseType.named?_normalize]

theorem occursInAny_normalizedAll (b : BaseType) (fs : List Field) :
    Declaration.occursInAny b (normalizedAll fs) = Declaration.occursInAny b fs := by
  rw [Bool.eq_iff_iff, occursInAny_iff, occursInAny_iff, typeNamesAll_normalizedAll]
  simp only [List.mem_map, exists_exists_and_eq_and, BaseType.named?_normalize]

/-! ## Declarations -/

/-- The function with the names that the names in its parameters and outputs stand for. -/
def normalizedFunction (f : Abi.Function) : Abi.Function :=
  { f with inputs := normalizedAll f.inputs, outputs := normalizedAll f.outputs }

namespace Declaration

theorem isExtracted_normalizedFunction (m : Mapping) (functions : List Abi.Function)
    (b : BaseType) :
    isExtracted m (functions.map normalizedFunction) b = isExtracted m functions b := by
  rw [isExtracted, isExtracted, List.any_map]
  simp only [Function.comp_def, normalizedFunction, occursInAny_normalizedAll]

theorem extracted_normalizedFunction (d : Declaration) (functions : List Abi.Function) :
    d.extracted (functions.map normalizedFunction) = d.extracted functions := by
  rw [extracted, extracted]
  simp only [funext (isExtracted_normalizedFunction d.mapping functions)]

theorem parameterOf_normalized (m : Mapping) (position : Nat) (f : Field) :
    parameterOf m position (normalized f) = parameterOf m position f := by
  rw [parameterOf, parameterOf, name_normalized, typeOf_normalized]

theorem methodLine_normalizedFunction (m : Mapping) (f : Abi.Function) :
    methodLine m (normalizedFunction f) = methodLine m f := by
  have hinputs : (normalizedAll f.inputs).mapIdx (parameterOf m) =
      f.inputs.mapIdx (parameterOf m) := by
    apply List.ext_getElem?
    intro position
    rw [List.getElem?_mapIdx, List.getElem?_mapIdx, normalizedAll_eq_map, List.getElem?_map,
      Option.map_map]
    simp only [Function.comp_def, parameterOf_normalized]
  have houtputs : outputOf m (normalizedAll f.outputs) = outputOf m f.outputs := by
    rw [outputOf, outputOf, normalizedAll_eq_map, List.isEmpty_map, ← normalizedAll_eq_map]
    congr 1
    exact typeOf_normalized m (Field.tupleOf f.outputs)
  rw [methodLine, methodLine]
  simp only [normalizedFunction, hinputs, houtputs]

end Declaration

def normalizedEntry : Abi.Entry → Abi.Entry
  | .constructor c => .constructor { c with inputs := normalizedAll c.inputs }
  | .function f => .function (normalizedFunction f)
  | .event e => .event { e with inputs := normalizedAll e.inputs }
  | .error e => .error { e with inputs := normalizedAll e.inputs }
  | .fallback s => .fallback s
  | .receive s => .receive s

theorem functions_map_normalizedEntry (abi : Abi) :
    Abi.functions (abi.map normalizedEntry) = (Abi.functions abi).map normalizedFunction := by
  rw [Abi.functions, Abi.functions, List.filterMap_map, List.map_filterMap]
  congr 1
  funext entry
  cases entry <;> rfl

theorem Declaration.render_map_normalizedEntry (d : Declaration) (abi : Abi) :
    d.render (abi.map normalizedEntry) = d.render abi := by
  simp only [render, functions_map_normalizedEntry, extracted_normalizedFunction, List.map_map,
    Function.comp_def, methodLine_normalizedFunction]

/-- Replacing every name in a parameter, at any depth, by the name that it stands for
changes neither its type, under any mapping, nor its type as an answer, nor the value that
is passed for it, whatever the argument is; the same base types occur in it. The same base
types are given aliases in a declaration, and its text is the same. -/
theorem aliases_transparent :
    (∀ f : Field, (∀ m : Mapping, m.typeOf (normalized f) = m.typeOf f) ∧
      returnType (normalized f) = returnType f ∧
      (∀ expr, wireArg expr (normalized f) = wireArg expr f) ∧
      ∀ b, Declaration.occursIn b (normalized f) = Declaration.occursIn b f) ∧
    ∀ (d : Declaration) (abi : Abi),
      d.extracted (Abi.functions (abi.map normalizedEntry)) = d.extracted abi.functions ∧
      d.render (abi.map normalizedEntry) = d.render abi := by
  refine ⟨fun f => ⟨fun m => typeOf_normalized m f, returnType_normalized f,
    fun expr => wireArg_normalized expr f, fun b => occursIn_normalized b f⟩, fun d abi => ?_⟩
  rw [functions_map_normalizedEntry]
  exact ⟨d.extracted_normalizedFunction abi.functions, d.render_map_normalizedEntry abi⟩

end SolidityBuild.TypeScript
