import SolidityBuild.Proofs.TypeScript.Naming
import SolidityBuild.TypeScript.Declaration

/-!
Parameters that get one name. Each parameter is named by itself: for its position
if the input has no name, with an underscore if a client reserves it, and as the
input otherwise. Different inputs so get one name in two ways only: the name for a
position is given to another input, or a reserved name with its underscore is.
-/

namespace SolidityBuild.TypeScript

open Abi (Field)
open Naming (numbered numbered_injective)

variable {names : List String} {name : String} {i j position : Nat}

/-! ## Names by position -/

/-- The name for a position where there is none, and otherwise the name as it is
changed for use in the text. -/
def positioned (rename : String → String) (position : Nat) (name : String) : String :=
  if name = "" then numbered "arg" position else rename name

/-- No name stands in two places, but for the empty one. -/
def GivenApart (names : List String) : Prop :=
  ∀ (i j : Nat) name, name ≠ "" → names[i]? = some name → names[j]? = some name → i = j

/-- There is no name in a place, and the name for that place stands in some other. -/
def PositionTaken (names : List String) : Prop :=
  ∃ i j : Nat, names[i]? = some "" ∧ names[j]? = some (numbered "arg" i)

/-- A reserved name is there, and so is the same name with an underscore. -/
def UnderscoreTaken (names : List String) : Prop :=
  ∃ name ∈ reservedNames, name ∈ names ∧ name ++ "_" ∈ names

theorem nodup_mapIdx_iff {α β : Type} {f : Nat → α → β} {items : List α} :
    (items.mapIdx f).Nodup ↔
      ∀ (i j : Nat) a b, items[i]? = some a → items[j]? = some b → f i a = f j b → i = j := by
  rw [List.nodup_iff_getElem?_ne_getElem?]
  simp only [List.getElem?_mapIdx, List.length_mapIdx]
  constructor
  · intro h i j a b hi hj heq
    have hilt := (List.getElem?_eq_some_iff.1 hi).1
    have hjlt := (List.getElem?_eq_some_iff.1 hj).1
    have hsame : items[i]?.map (f i) = items[j]?.map (f j) := by
      rw [hi, hj, Option.map_some, Option.map_some, heq]
    rcases Nat.lt_trichotomy i j with hlt | hij | hlt
    · exact absurd hsame (h i j hlt hjlt)
    · exact hij
    · exact absurd hsame.symm (h j i hlt hilt)
  · intro h i j hlt hj heq
    rw [List.getElem?_eq_getElem hj, List.getElem?_eq_getElem (Nat.lt_trans hlt hj)] at heq
    have hij := h i j _ _ (List.getElem?_eq_getElem (Nat.lt_trans hlt hj))
      (List.getElem?_eq_getElem hj) (Option.some.inj heq)
    omega

theorem numbered_ne_empty (i : Nat) : numbered "arg" i ≠ "" := by
  intro h
  have hlist := congrArg String.toList h
  simp [numbered] at hlist

/-- Where no change of a name gives that of a position, names for positions and
changed names clash only if one of the former is given. -/
theorem nodup_positioned_iff {rename : String → String}
    (hrename : ∀ name i, rename name = numbered "arg" i ↔ name = numbered "arg" i) :
    (names.mapIdx (positioned rename)).Nodup ↔
      (∀ (i j : Nat) a b, a ≠ "" → b ≠ "" → names[i]? = some a → names[j]? = some b →
        rename a = rename b → i = j) ∧ ¬ PositionTaken names := by
  rw [nodup_mapIdx_iff]
  constructor
  · intro h
    constructor
    · intro i j a b ha hb hi hj heq
      apply h i j a b hi hj
      rw [positioned, positioned, if_neg ha, if_neg hb, heq]
    · rintro ⟨i, j, hi, hj⟩
      have hij : i = j := by
        apply h i j _ _ hi hj
        rw [positioned, positioned, if_pos rfl, if_neg (numbered_ne_empty i), (hrename _ i).2 rfl]
      rw [hij, hj] at hi
      exact numbered_ne_empty j (Option.some.inj (hij ▸ hi))
  · rintro ⟨hgiven, hfree⟩ i j a b hi hj heq
    rw [positioned, positioned] at heq
    by_cases ha : a = "" <;> by_cases hb : b = ""
    · rw [if_pos ha, if_pos hb] at heq
      exact numbered_injective heq
    · rw [if_pos ha, if_neg hb] at heq
      rw [ha] at hi
      rw [(hrename b i).1 heq.symm] at hj
      exact absurd ⟨i, j, hi, hj⟩ hfree
    · rw [if_neg ha, if_pos hb] at heq
      rw [hb] at hj
      rw [(hrename a j).1 heq] at hi
      exact absurd ⟨j, i, hj, hi⟩ hfree
    · rw [if_neg ha, if_neg hb] at heq
      exact hgiven i j a b ha hb hi hj heq

/-! ## Reserved names -/

/-- A name as it stands in a client. -/
def unreserved (name : String) : String := if name ∈ reservedNames then name ++ "_" else name

theorem parameterName_eq_positioned :
    parameterName = positioned unreserved := rfl

theorem ne_empty_of_reserved (h : name ∈ reservedNames) : name ≠ "" := by
  have hall : ∀ n ∈ reservedNames, n ≠ "" := by decide
  exact hall name h

theorem underscore_not_reserved (name : String) : name ++ "_" ∉ reservedNames := by
  have hall : ∀ n ∈ reservedNames, n.toList.getLast? ≠ some '_' := by decide
  intro h
  apply hall _ h
  simp

theorem exists_getLast?_numbered (base : String) (i : Nat) :
    ∃ c, (numbered base i).toList.getLast? = some c ∧ c.isDigit = true := by
  obtain ⟨front, c, hprint⟩ : ∃ front c, (Text.Decimal.print i).toList = front ++ [c] :=
    ⟨_, _, (List.dropLast_concat_getLast (Text.Decimal.print_ne_nil i)).symm⟩
  refine ⟨c, ?_, ?_⟩
  · rw [numbered, String.toList_append, hprint, ← List.append_assoc, List.getLast?_concat]
  · apply Text.Decimal.isDigit_of_mem_print (n := i)
    simp [hprint]

theorem numbered_not_reserved (base : String) (i : Nat) : numbered base i ∉ reservedNames := by
  have hall : ∀ n ∈ reservedNames, n.toList.getLast?.any Char.isDigit = false := by decide
  intro h
  obtain ⟨c, hlast, hdigit⟩ := exists_getLast?_numbered base i
  have hnone := hall _ h
  rw [hlast, Option.any_some, hdigit] at hnone
  cases hnone

theorem underscore_ne_numbered (name base : String) (i : Nat) : name ++ "_" ≠ numbered base i := by
  intro h
  obtain ⟨c, hlast, hdigit⟩ := exists_getLast?_numbered base i
  rw [← h] at hlast
  obtain rfl : '_' = c := by simpa using hlast
  exact absurd hdigit (by decide)

theorem unreserved_eq_numbered_iff (name : String) (i : Nat) :
    unreserved name = numbered "arg" i ↔ name = numbered "arg" i := by
  unfold unreserved
  split
  next hreserved =>
    constructor
    · intro h
      exact absurd h (underscore_ne_numbered name "arg" i)
    · rintro rfl
      exact absurd hreserved (numbered_not_reserved "arg" i)
  next => exact Iff.rfl

/-- Of different names, only a reserved one and the same with an underscore become
one name. -/
theorem unreserved_eq_iff {a b : String} :
    unreserved a = unreserved b ↔
      a = b ∨ a ∈ reservedNames ∧ b = a ++ "_" ∨ b ∈ reservedNames ∧ a = b ++ "_" := by
  constructor
  · intro h
    unfold unreserved at h
    split at h <;> split at h
    next => exact .inl ((String.append_left_inj "_").1 h)
    next ha _ => exact .inr (.inl ⟨ha, h.symm⟩)
    next _ hb => exact .inr (.inr ⟨hb, h⟩)
    next => exact .inl h
  · rintro (rfl | ⟨ha, rfl⟩ | ⟨hb, rfl⟩)
    · rfl
    · rw [unreserved, unreserved, if_pos ha, if_neg (underscore_not_reserved a)]
    · rw [unreserved, unreserved, if_pos hb, if_neg (underscore_not_reserved b)]

theorem given_unreserved_iff :
    (∀ (i j : Nat) a b, a ≠ "" → b ≠ "" → names[i]? = some a → names[j]? = some b →
        unreserved a = unreserved b → i = j) ↔
      GivenApart names ∧ ¬ UnderscoreTaken names := by
  constructor
  · intro h
    constructor
    · intro i j name hname hi hj
      exact h i j name name hname hname hi hj rfl
    · rintro ⟨name, hreserved, hmem, hmem'⟩
      obtain ⟨i, hi⟩ := List.mem_iff_getElem?.1 hmem
      obtain ⟨j, hj⟩ := List.mem_iff_getElem?.1 hmem'
      have hboth := unreserved_eq_iff.2 (.inr (.inl ⟨hreserved, rfl⟩))
      have hij := h i j _ _ (ne_empty_of_reserved hreserved) (by simp) hi hj hboth
      rw [hij, hj] at hi
      have hsame : name ++ "_" = name := Option.some.inj hi
      apply underscore_not_reserved name
      rwa [hsame]
  · rintro ⟨hgiven, hfree⟩ i j a b ha hb hi hj heq
    rcases unreserved_eq_iff.1 heq with rfl | ⟨hreserved, rfl⟩ | ⟨hreserved, rfl⟩
    · exact hgiven i j a ha hi hj
    · exact absurd ⟨a, hreserved, List.mem_of_getElem? hi, List.mem_of_getElem? hj⟩ hfree
    · exact absurd ⟨b, hreserved, List.mem_of_getElem? hj, List.mem_of_getElem? hi⟩ hfree

/-! ## Parameters of clients and declarations -/

/-- The names of inputs, as they are given. -/
def givenNames (inputs : List Field) : List String := inputs.map (·.name)

namespace Client

variable {m : Mapping} {inputs : List Field}

theorem map_name_ofFields :
    (Parameter.ofFields m inputs).map (·.name) = (givenNames inputs).mapIdx parameterName := by
  apply List.ext_getElem?
  intro position
  simp only [Parameter.ofFields, givenNames, List.getElem?_map, List.getElem?_mapIdx,
    Option.map_map]
  rfl

theorem nodup_ofFields_iff :
    ((Parameter.ofFields m inputs).map (·.name)).Nodup ↔
      GivenApart (givenNames inputs) ∧ ¬ PositionTaken (givenNames inputs) ∧
        ¬ UnderscoreTaken (givenNames inputs) := by
  rw [map_name_ofFields, parameterName_eq_positioned,
    nodup_positioned_iff unreserved_eq_numbered_iff, given_unreserved_iff, and_assoc,
    and_comm (a := ¬ UnderscoreTaken _)]

theorem map_parameters_methodsOf (m : Mapping) (functions : List Abi.Function) :
    (methodsOf m functions).map (·.parameters) =
      functions.map fun f => Parameter.ofFields m f.inputs := by
  apply map_methodsOf
  intro f name
  rfl

end Client

namespace Declaration

/-- The names of the parameters of a method, as they stand in its line. -/
def parameterNames (inputs : List Field) : List String :=
  inputs.mapIdx fun position i => parameterName position i.name

theorem parameterNames_eq (inputs : List Field) :
    parameterNames inputs = (givenNames inputs).mapIdx (positioned id) := by
  apply List.ext_getElem?
  intro position
  simp only [parameterNames, givenNames, List.getElem?_map, List.getElem?_mapIdx, Option.map_map]
  rfl

theorem nodup_parameterNames_iff {inputs : List Field} :
    (parameterNames inputs).Nodup ↔
      GivenApart (givenNames inputs) ∧ ¬ PositionTaken (givenNames inputs) := by
  have hkept : ∀ name i, id name = numbered "arg" i ↔ name = numbered "arg" i :=
    fun _ _ => Iff.rfl
  rw [parameterNames_eq, nodup_positioned_iff hkept]
  apply and_congr_left'
  constructor
  · intro h i j name hname hi hj
    exact h i j name name hname hname hi hj rfl
  · rintro h i j a b ha - hi hj heq
    obtain rfl : a = b := heq
    exact h i j a ha hi hj

/-- The parameters of a line are the names with the types behind them. -/
theorem mapIdx_parameterOf (m : Mapping) (inputs : List Field) :
    inputs.mapIdx (parameterOf m) =
      List.zipWith (fun name i => name ++ ": " ++ m.typeOf i) (parameterNames inputs) inputs := by
  apply List.ext_getElem?
  intro position
  rw [List.getElem?_zipWith, parameterNames, List.getElem?_mapIdx, List.getElem?_mapIdx]
  cases inputs[position]? with
  | none => rfl
  | some i => rfl

end Declaration

/-- The parameters of each method of a client, of its deployment and of each method of
a declaration have different names if and only if the given names are, the name for the
position of none of them is given, and in a client no reserved name is given together
with the same and an underscore. -/
theorem parameter_names_distinct_iff (m m' : Mapping) (name : String) (abi : Abi)
    (bytecode : String) :
    (∀ (position : Nat) f, abi.functions[position]? = some f →
      ∃ method, (Client.ofAbi m name abi bytecode).methods[position]? = some method ∧
        ((method.parameters.map (·.name)).Nodup ↔
          GivenApart (givenNames f.inputs) ∧ ¬ PositionTaken (givenNames f.inputs) ∧
            ¬ UnderscoreTaken (givenNames f.inputs))) ∧
    (∀ k, abi.constructor? = some k →
      (((Client.ofAbi m name abi bytecode).deploy.map (·.name)).Nodup ↔
        GivenApart (givenNames k.inputs) ∧ ¬ PositionTaken (givenNames k.inputs) ∧
          ¬ UnderscoreTaken (givenNames k.inputs))) ∧
    ∀ f ∈ abi.functions,
      Declaration.methodLine m' f = "    " ++ f.name ++ "(" ++ String.intercalate ", "
        (List.zipWith (fun name i => name ++ ": " ++ m'.typeOf i)
          (Declaration.parameterNames f.inputs) f.inputs) ++
        "): Promise<" ++ Declaration.outputOf m' f.outputs ++ ">;\n" ∧
      ((Declaration.parameterNames f.inputs).Nodup ↔
        GivenApart (givenNames f.inputs) ∧ ¬ PositionTaken (givenNames f.inputs)) := by
  refine ⟨fun position f hf => ?_, fun k hk => ?_, fun f _ => ⟨?_, ?_⟩⟩
  · have hmethod : ((Client.methodsOf m abi.functions).map (·.parameters))[position]? =
        some (Parameter.ofFields m f.inputs) := by
      rw [Client.map_parameters_methodsOf, List.getElem?_map, hf, Option.map_some]
    rw [List.getElem?_map] at hmethod
    obtain ⟨method, hat, hparameters⟩ := Option.map_eq_some_iff.1 hmethod
    refine ⟨method, hat, ?_⟩
    rw [hparameters]
    exact Client.nodup_ofFields_iff
  · have hdeploy : (Client.ofAbi m name abi bytecode).deploy = Parameter.ofFields m k.inputs := by
      simp only [Client.ofAbi, hk, Option.map_some, Option.getD_some]
    rw [hdeploy]
    exact Client.nodup_ofFields_iff
  · rw [Declaration.methodLine, Declaration.mapIdx_parameterOf]
  · exact Declaration.nodup_parameterNames_iff

/-! ## Names that meet -/

/-- A contract whose constructor takes a reserved name and the same with an underscore,
and with a function that takes a value without a name and one with the name for its
position. -/
def meeting : Abi :=
  [.constructor
      ⟨[.regular ⟨"new", none, none⟩ "uint8" [], .regular ⟨"new_", none, none⟩ "uint8" []],
        none, none⟩,
    .function
      ⟨"set", [.regular ⟨"", none, none⟩ "uint8" [], .regular ⟨"arg0", none, none⟩ "uint8" []],
        [], none, none, none⟩]

theorem givenApart_of_nodup (h : names.Nodup) : GivenApart names := by
  intro i j name _ hi hj
  have hlt := (List.getElem?_eq_some_iff.1 hi).1
  exact (List.getElem?_inj hlt h).1 (hi.trans hj.symm)

theorem meeting_names_not_distinct :
    (∀ f ∈ meeting.functions, GivenApart (givenNames f.inputs)) ∧
    (∀ k, meeting.constructor? = some k → GivenApart (givenNames k.inputs)) ∧
    (∃ method, (Client.ofAbi .ethers "Store" meeting "").methods[0]? = some method ∧
      ¬ (method.parameters.map (·.name)).Nodup) ∧
    ¬ ((Client.ofAbi .ethers "Store" meeting "").deploy.map (·.name)).Nodup ∧
    ∀ f ∈ meeting.functions, ¬ (Declaration.parameterNames f.inputs).Nodup := by
  obtain ⟨hmethods, hdeploy, hlines⟩ :=
    parameter_names_distinct_iff .ethers .defaults "Store" meeting ""
  have hposition : ∀ f ∈ meeting.functions, PositionTaken (givenNames f.inputs) := by
    intro f hf
    obtain rfl := List.mem_singleton.1 hf
    exact ⟨0, 1, rfl, rfl⟩
  refine ⟨fun f hf => ?_, fun k hk => ?_, ?_, ?_, fun f hf hnodup => ?_⟩
  · obtain rfl := List.mem_singleton.1 hf
    apply givenApart_of_nodup
    decide
  · obtain rfl := Option.some.inj hk
    apply givenApart_of_nodup
    decide
  · obtain ⟨method, hat, hiff⟩ := hmethods 0 _ rfl
    refine ⟨method, hat, fun hnodup => ?_⟩
    exact (hiff.1 hnodup).2.1 (hposition _ List.mem_cons_self)
  · intro hnodup
    apply ((hdeploy _ rfl).1 hnodup).2.2
    refine ⟨"new", by decide, ?_, ?_⟩ <;> simp [givenNames, Field.name, Field.label]
  · exact ((hlines f hf).2.1 hnodup).2 (hposition f hf)

end SolidityBuild.TypeScript
