import SolidityBuild.Proofs.TypeScript.Naming

/-!
Parameters and the names around them. The text of a method declares names and
refers to others, and a parameter with one of them would take its place. The
names are read off the layout itself, and for each of them it is said which
parameters get it. Renaming keeps parameters from `overrides` and `signer` only;
the other names are free for parameters to take.
-/

namespace SolidityBuild.TypeScript

/-! ## Names in a layout -/

def isWordChar (c : Char) : Bool := c.isAlphanum || c = '_' || c = '$'

/-- A word, unless it stands behind a dot: there it is a member of what is in
front of the dot. -/
def standing (before : Option Char) (word : List Char) : List String :=
  if word = [] ∨ before = some '.' then [] else [String.ofList word]

/-- The standing words of a text that has been read up to some characters of a
word; `before` is what the word follows. -/
def wordsFrom (before : Option Char) (word : List Char) : List Char → List String
  | [] => standing before word
  | c :: cs =>
    if isWordChar c then wordsFrom before (word ++ [c]) cs
    else standing before word ++ wordsFrom (some c) [] cs

/-- Words of the language, and the type that it gives to answers. -/
def languageWords : List String :=
  ["async", "await", "const", "new", "return", "static", "this", "Promise"]

/-- The names that lines declare or refer to. -/
def namesIn (lines : List String) : List String :=
  let words := lines.flatMap fun line => wordsFrom none [] line.toList
  (words.filter (· ∉ languageWords)).eraseDups

namespace Client

/-- The names in a method that deals with the answer in some way, its own
parameters and what is made of its function left aside. -/
def methodScope (call : Call) : List String :=
  namesIn (methodLines ⟨"", [], "", "", call⟩)

/-- The names in the deployment of a class. The first line names the member
itself. -/
def deployScope (name : String) : List String := name :: namesIn ((deployLines "" []).drop 1)

theorem methodScope_eq (call : Call) :
    methodScope call =
      ["overrides", "ethers"] ++ if call = .decode then ["result", "mapOutput"] else [] := by
  cases call <;> decide +kernel

theorem deployScope_eq (name : String) :
    deployScope name =
      [name, "signer", "ethers", "factory", "ABI", "BYTECODE", "underlying"] := by
  have hnames : namesIn ((deployLines "" []).drop 1) =
      ["signer", "ethers", "factory", "ABI", "BYTECODE", "underlying"] := by
    decide +kernel
  rw [deployScope, hnames]

/-! ## Names of parameters -/

/-- A name that neither begins as those for parameters without one, nor ends as
those for reserved ones, is given to the parameters that have it, unless it is
reserved. -/
theorem parameterName_eq_iff {position : Nat} {name x : String} (hx : x ≠ "")
    (hfirst : x.toList.head? ≠ some 'a') (hlast : x.toList.getLast? ≠ some '_') :
    parameterName position name = x ↔ name = x ∧ x ∉ reservedNames := by
  rw [parameterName]
  split
  next hempty =>
    subst hempty
    constructor
    · rintro rfl
      simp at hfirst
    · rintro ⟨rfl, -⟩
      exact absurd rfl hx
  next =>
    split
    next hreserved =>
      constructor
      · rintro rfl
        simp at hlast
      · rintro ⟨rfl, hnot⟩
        exact absurd hreserved hnot
    next hfree =>
      constructor
      · rintro rfl
        exact ⟨rfl, hfree⟩
      · exact And.left

/-- Of the names in a method, reserving keeps parameters from `overrides` only. -/
theorem parameterName_mem_methodScope_iff {position : Nat} {name : String} {call : Call} :
    parameterName position name ∈ methodScope call ↔
      name = "ethers" ∨ call = .decode ∧ (name = "result" ∨ name = "mapOutput") := by
  have hplain : ∀ x ∈ ["overrides", "ethers", "result", "mapOutput"],
      (parameterName position name = x ↔ name = x ∧ x ∉ reservedNames) := by
    intro x hx
    refine parameterName_eq_iff ?_ ?_ ?_ <;> revert x <;> decide
  simp only [List.forall_mem_cons] at hplain
  obtain ⟨hoverrides, hethers, hresult, hmap, -⟩ := hplain
  have hreserved : "overrides" ∈ reservedNames := by decide
  have hfree : "ethers" ∉ reservedNames ∧ "result" ∉ reservedNames ∧
      "mapOutput" ∉ reservedNames := by decide
  rw [methodScope_eq]
  by_cases hcall : call = .decode <;>
    simp [hcall, hoverrides, hethers, hresult, hmap, hreserved, hfree]

/-- Of the names in the deployment, it keeps them from `signer` only. -/
theorem parameterName_mem_deployScope_iff {position : Nat} {name className : String} :
    parameterName position name ∈ deployScope className ↔
      parameterName position name = className ∨
        name ∈ ["ethers", "factory", "ABI", "BYTECODE", "underlying"] := by
  have hplain : ∀ x ∈ ["signer", "ethers", "factory", "ABI", "BYTECODE", "underlying"],
      (parameterName position name = x ↔ name = x ∧ x ∉ reservedNames) := by
    intro x hx
    refine parameterName_eq_iff ?_ ?_ ?_ <;> revert x <;> decide
  simp only [List.forall_mem_cons] at hplain
  obtain ⟨hsigner, hethers, hfactory, habi, hbytecode, hunderlying, -⟩ := hplain
  have hreserved : "signer" ∈ reservedNames := by decide
  have hfree : "ethers" ∉ reservedNames ∧ "factory" ∉ reservedNames ∧ "ABI" ∉ reservedNames ∧
      "BYTECODE" ∉ reservedNames ∧ "underlying" ∉ reservedNames := by decide
  rw [deployScope_eq]
  simp [hsigner, hethers, hfactory, habi, hbytecode, hunderlying, hreserved, hfree]

/-! ## Parameters of a client -/

section

variable {m : Mapping} {functions : List Abi.Function} {f : Abi.Function}

/-- The answer to a call holds something, and comes without a transaction. -/
def Answers (f : Abi.Function) : Prop := f.mutability.isReadOnly = true ∧ f.outputs ≠ []

instance (f : Abi.Function) : Decidable (Answers f) :=
  inferInstanceAs (Decidable (_ ∧ ¬ _))

theorem call_ofFunction_eq_decode_iff {name : String} {shared : Bool} :
    (Method.ofFunction m f name shared).call = .decode ↔ Answers f := by
  simp only [Method.ofFunction, Answers]
  by_cases hreads : f.mutability.isReadOnly = true
  · cases houtputs : f.outputs with
    | nil => simp [hreads, outputsType?]
    | cons first rest => cases rest <;> simp [hreads, outputsType?]
  · simp [hreads]

/-- What does not depend on the names of methods holds of all methods if it holds
for all functions. -/
theorem forall_mem_methodsOf_iff {P : Method → Prop} {Q : Abi.Function → Prop}
    (h : ∀ f name shared, P (Method.ofFunction m f name shared) ↔ Q f) :
    (∀ method ∈ methodsOf m functions, P method) ↔ ∀ f ∈ functions, Q f := by
  have hfunctions := List.map_fst_zip (Nat.le_of_eq (length_methodNames functions).symm)
  rw [methodsOf, List.forall_mem_map]
  simp only [h]
  conv_rhs => rw [← hfunctions, List.forall_mem_map]

theorem forall_mem_ofFields_iff {inputs : List Abi.Field} {P : String → Prop} :
    (∀ p ∈ Parameter.ofFields m inputs, P p.name) ↔
      ∀ (position : Nat) i, inputs[position]? = some i → P (parameterName position i.name) := by
  constructor
  · intro h position i hi
    obtain ⟨hlt, rfl⟩ := List.getElem?_eq_some_iff.1 hi
    exact h (.ofField m position inputs[position]) (List.mem_mapIdx.2 ⟨position, hlt, rfl⟩)
  · intro h p hp
    obtain ⟨position, hlt, rfl⟩ := List.mem_mapIdx.1 hp
    exact h position _ (List.getElem?_eq_getElem hlt)

/-- The parameters of a method keep clear of the names in it unless an input is
called `ethers`, or like one of the steps by which an answer is decoded. -/
theorem clear_ofFunction_iff {name : String} {shared : Bool} :
    (∀ p ∈ (Method.ofFunction m f name shared).parameters,
        p.name ∉ methodScope (Method.ofFunction m f name shared).call) ↔
      ∀ i ∈ f.inputs, i.name ≠ "ethers" ∧
        (Answers f → i.name ≠ "result" ∧ i.name ≠ "mapOutput") := by
  refine (forall_mem_ofFields_iff (P := (· ∉ methodScope _))).trans ?_
  simp only [parameterName_mem_methodScope_iff, call_ofFunction_eq_decode_iff, not_or, not_and,
    ne_eq]
  simp only [List.mem_iff_getElem?, forall_exists_index]
  exact forall_comm

end

/-- The parameters of all methods keep clear of the names in them if and only if
no input of a function is called `ethers`, and none of a function that answers
something without a transaction `result` or `mapOutput`: a parameter with one of
these names takes the place of the library, the answer or the function that maps
it. In the same way the parameters of the deployment do if and only if no input
of the constructor is called like the library, one of the constants or one of
the steps there, or becomes the name of the class. -/
theorem parameters_clear_iff (m : Mapping) (name : String) (abi : Abi) (bytecode : String) :
    ((∀ method ∈ (ofAbi m name abi bytecode).methods, ∀ p ∈ method.parameters,
        p.name ∉ methodScope method.call) ↔
      ∀ f ∈ abi.functions, ∀ i ∈ f.inputs, i.name ≠ "ethers" ∧
        (Answers f → i.name ≠ "result" ∧ i.name ≠ "mapOutput")) ∧
    ((∀ p ∈ (ofAbi m name abi bytecode).deploy,
        p.name ∉ deployScope (ofAbi m name abi bytecode).name) ↔
      ∀ k, abi.constructor? = some k → ∀ (position : Nat) i, k.inputs[position]? = some i →
        i.name ∉ ["ethers", "factory", "ABI", "BYTECODE", "underlying"] ∧
          parameterName position i.name ≠ name) := by
  constructor
  · exact forall_mem_methodsOf_iff fun f name shared => clear_ofFunction_iff
  · simp only [ofAbi]
    cases abi.constructor? with
    | none => simp
    | some k =>
      simp only [Option.map_some, Option.getD_some, Option.some.injEq, forall_eq']
      rw [forall_mem_ofFields_iff (P := (· ∉ deployScope name))]
      simp only [parameterName_mem_deployScope_iff, not_or, and_comm]

/-! ## A parameter for a result -/

/-- A store whose only function calls the key of what it gives back `result`. -/
def storeGet : Abi.Function where
  name := "get"
  inputs := [.regular ⟨"result", none, none⟩ "uint256" []]
  outputs := [.regular ⟨"", none, none⟩ "uint256" []]
  stateMutability := some .view
  constant := none
  payable := none

/-- The client declares a constant with the name of the parameter. -/
theorem store_parameters_not_clear :
    ¬ ∀ method ∈ (ofAbi .ethers "Store" [.function storeGet] "").methods,
      ∀ p ∈ method.parameters, p.name ∉ methodScope method.call := by
  rw [(parameters_clear_iff .ethers "Store" [.function storeGet] "").1]
  intro hclear
  have hanswers : Answers storeGet := by decide
  have hfree := hclear storeGet (by simp [Abi.functions]) _ List.mem_cons_self
  exact (hfree.2 hanswers).1 rfl

end Client

end SolidityBuild.TypeScript
