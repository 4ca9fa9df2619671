import Mathlib.Data.List.NodupEquivFin
import SolidityBuild.Proofs.Abi.Signature
import SolidityBuild.Proofs.TypeScript.Naming

/-!
How the methods of a client reach the functions of the contract. A function is
reached by its name alone if no other function has that name and the contract
object has no member of that name, and by its signature otherwise. So functions
that differ in their name or in the types of their parameters are never reached
in the same way.
-/

namespace SolidityBuild.TypeScript.Client

open Abi (Function)

variable {functions : List Function} {f g : Function} {i j : Nat}

/-- The target that goes by the name alone. -/
def plainTarget (f : Function) : String := "." ++ f.name

/-- The target that goes by the signature. -/
def signatureTarget (f : Function) : String := "[\"" ++ f.signature ++ "\"]"

/-- Functions with the name of `f`, itself among them, are more than one. -/
def IsShared (functions : List Function) (f : Function) : Prop :=
  1 < (functions.filter (·.name = f.name)).length

instance (functions : List Function) (f : Function) : Decidable (IsShared functions f) :=
  inferInstanceAs (Decidable (1 < _))

/-- How a function is reached among others. -/
def targetOf (functions : List Function) (f : Function) : String :=
  if IsShared functions f ∨ f.name ∈ contractMembers then signatureTarget f else plainTarget f

theorem target_ofFunction (m : Mapping) (functions : List Function) (f : Function)
    (name : String) :
    (Method.ofFunction m f name (1 < (functions.filter (·.name = f.name)).length)).target =
      targetOf functions f := by
  simp only [Method.ofFunction, targetOf, IsShared, signatureTarget, plainTarget, decide_eq_true_eq]
  rfl

theorem map_target_methodsOf (m : Mapping) (functions : List Function) :
    (methodsOf m functions).map (·.target) = functions.map (targetOf functions) := by
  apply map_methodsOf
  intro f name
  exact target_ofFunction m functions f name

/-- A name is shared if a function at another place has it. -/
theorem isShared_iff (hf : functions[i]? = some f) :
    IsShared functions f ↔ ∃ (j : Nat) (g : Function),
      j ≠ i ∧ functions[j]? = some g ∧ g.name = f.name := by
  have hcount : (functions.filter (·.name = f.name)).length =
      (functions.map (·.name)).count f.name := by
    rw [List.count_eq_countP, List.countP_map, List.countP_eq_length_filter]
    rfl
  have hat : ∀ p : Fin (functions.map (·.name)).length,
      f.name = (functions.map (·.name)).get p ↔
        ∃ g, functions[p.val]? = some g ∧ g.name = f.name := by
    intro p
    have hlength : p.val < functions.length := by simpa using p.isLt
    simp [List.getElem?_eq_getElem hlength, eq_comm]
  rw [IsShared, hcount, ← Nat.succ_le_iff, ← List.duplicate_iff_two_le_count,
    List.duplicate_iff_exists_distinct_get]
  constructor
  · rintro ⟨n, k, hlt, hn, hk⟩
    obtain ⟨g, hg, hname⟩ := (hat n).1 hn
    obtain ⟨g', hg', hname'⟩ := (hat k).1 hk
    by_cases hni : n.val = i
    · exact ⟨k.val, g', fun hki => Nat.ne_of_lt hlt (hni.trans hki.symm), hg', hname'⟩
    · exact ⟨n.val, g, hni, hg, hname⟩
  · rintro ⟨j, g, hne, hg, hname⟩
    have hi : i < (functions.map (·.name)).length := by
      simpa using (List.getElem?_eq_some_iff.1 hf).1
    have hj : j < (functions.map (·.name)).length := by
      simpa using (List.getElem?_eq_some_iff.1 hg).1
    have hati := (hat ⟨i, hi⟩).2 ⟨f, hf, rfl⟩
    have hatj := (hat ⟨j, hj⟩).2 ⟨g, hg, hname⟩
    rcases Nat.lt_or_gt_of_ne hne with hlt | hlt
    · exact ⟨⟨j, hj⟩, ⟨i, hi⟩, hlt, hatj, hati⟩
    · exact ⟨⟨i, hi⟩, ⟨j, hj⟩, hlt, hati, hatj⟩

/-! ## Targets -/

theorem plainTarget_injective (h : plainTarget f = plainTarget g) : f.name = g.name :=
  (String.append_right_inj ".").1 h

theorem signatureTarget_injective (h : signatureTarget f = signatureTarget g) :
    f.signature = g.signature :=
  (String.append_right_inj "[\"").1 ((String.append_left_inj "\"]").1 h)

theorem plainTarget_ne_signatureTarget (f g : Function) : plainTarget f ≠ signatureTarget g := by
  intro h
  have hlist := congrArg (fun s => s.toList.head?) h
  simp [plainTarget, signatureTarget] at hlist

theorem targetOf_cases (functions : List Function) (f : Function) :
    targetOf functions f = plainTarget f ∨ targetOf functions f = signatureTarget f := by
  rw [targetOf]
  split
  · exact .inr rfl
  · exact .inl rfl

/-- A name stands alone in a target exactly if one function has it and the
contract object has no such member. -/
theorem targetOf_eq_plainTarget_iff (hf : functions[i]? = some f) :
    targetOf functions f = plainTarget f ↔
      (∀ (j : Nat) g, functions[j]? = some g → g.name = f.name → j = i) ∧
        f.name ∉ contractMembers := by
  have halone : ¬ IsShared functions f ↔
      ∀ (j : Nat) g, functions[j]? = some g → g.name = f.name → j = i := by
    rw [isShared_iff hf]
    constructor
    · intro hnone j g hg hname
      exact by_contra fun hne => hnone ⟨j, g, hne, hg, hname⟩
    · rintro hall ⟨j, g, hne, hg, hname⟩
      exact hne (hall j g hg hname)
  rw [← halone, ← not_or, targetOf]
  split
  next hsigned =>
    exact ⟨fun h => absurd h.symm (plainTarget_ne_signatureTarget f f), fun h => absurd hsigned h⟩
  next hplain => exact ⟨fun _ => hplain, fun _ => rfl⟩

/-- Functions that differ in name or types are reached in different ways. -/
theorem targetOf_ne (hf : functions[i]? = some f) (hg : functions[j]? = some g)
    (hwords : f.Worded) (hwords' : g.Worded) (hne : ¬ f.SameInputs g) :
    targetOf functions f ≠ targetOf functions g := by
  intro heq
  rcases targetOf_cases functions f with hft | hft <;>
    rcases targetOf_cases functions g with hgt | hgt
  · -- no other function has the name, so it is the same function
    have halone := ((targetOf_eq_plainTarget_iff hg).1 hgt).1
    have hij := halone i f hf (plainTarget_injective (by rw [← hft, ← hgt, heq]))
    rw [hij, hg] at hf
    exact hne (Option.some.inj hf ▸ ⟨rfl, rfl⟩)
  · exact plainTarget_ne_signatureTarget f g (by rw [← hft, ← hgt, heq])
  · exact plainTarget_ne_signatureTarget g f (by rw [← hft, ← hgt, heq])
  · exact hne ((Abi.Function.signature_eq_iff hwords hwords').1
      (signatureTarget_injective (by rw [← hft, ← hgt, heq])))

/-- Signatures tell functions apart that differ in name or types, and the targets
of methods do so as well. The name alone is a target exactly where one function
has it and the contract object has no such member. -/
theorem dispatch_unambiguous (m : Mapping) (name : String) (abi : Abi) (bytecode : String)
    (hwords : ∀ f ∈ abi.functions, f.Worded) :
    (∀ f ∈ abi.functions, ∀ g ∈ abi.functions, f.signature = g.signature ↔ f.SameInputs g) ∧
    ∃ targets, (ofAbi m name abi bytecode).methods.map (·.target) = targets ∧
      targets.length = abi.functions.length ∧
      (∀ (i j : Nat) f g, abi.functions[i]? = some f → abi.functions[j]? = some g →
        ¬ f.SameInputs g → targets[i]? ≠ targets[j]?) ∧
      ∀ (i : Nat) f, abi.functions[i]? = some f →
        (targets[i]? = some (plainTarget f) ∨ targets[i]? = some (signatureTarget f)) ∧
        (targets[i]? = some (plainTarget f) ↔
          (∀ (j : Nat) g, abi.functions[j]? = some g → g.name = f.name → j = i) ∧
            f.name ∉ contractMembers) := by
  have htarget : ∀ {i : Nat} {f : Function}, abi.functions[i]? = some f →
      (abi.functions.map (targetOf abi.functions))[i]? = some (targetOf abi.functions f) :=
    fun hf => by rw [List.getElem?_map, hf, Option.map_some]
  refine ⟨fun f hf g hg => Abi.Function.signature_eq_iff (hwords f hf) (hwords g hg), _,
    map_target_methodsOf m abi.functions, List.length_map _, fun i j f g hf hg hne => ?_,
    fun i f hf => ?_⟩
  · rw [htarget hf, htarget hg]
    exact fun heq => targetOf_ne hf hg (hwords f (List.mem_of_getElem? hf))
      (hwords g (List.mem_of_getElem? hg)) hne (Option.some.inj heq)
  · rw [htarget hf, Option.some.injEq, Option.some.injEq]
    exact ⟨targetOf_cases abi.functions f, targetOf_eq_plainTarget_iff hf⟩

/-! ## An interface with overloads -/

def argument (name typeName : String) : Abi.Field := .regular ⟨name, none, none⟩ typeName []

/-- Two functions share a name, and one has the name of a member of contract
objects. -/
def hub : Abi :=
  let payment := [argument "to" "address", argument "amount" "uint256"]
  [.function ⟨"pay", payment, [], none, none, none⟩,
    .function ⟨"pay", [.tuple ⟨"payments", none, none⟩ payment [.dynamic]], [], none, none, none⟩,
    .function ⟨"connect", [argument "peer" "address"], [], none, none, none⟩,
    .function ⟨"owner", [], [], none, none, none⟩]

theorem worded_argument (name : String) {typeName : String} (h : Abi.IsWord typeName) :
    (argument name typeName).Worded := h

theorem worded_hub : ∀ f ∈ hub.functions, f.Worded := by
  have haddress : ∀ name, (argument name "address").Worded :=
    fun name => worded_argument name (by decide)
  have hamount : (argument "amount" "uint256").Worded := worded_argument "amount" (by decide)
  intro f hf
  simp only [hub, Abi.functions, List.filterMap_cons, List.filterMap_nil, List.mem_cons,
    List.not_mem_nil, or_false] at hf
  rcases hf with rfl | rfl | rfl | rfl
  · exact ⟨by decide, haddress "to", hamount, trivial⟩
  · exact ⟨by decide, ⟨haddress "to", hamount, trivial⟩, trivial⟩
  · exact ⟨by decide, haddress "peer", trivial⟩
  · exact ⟨by decide, trivial⟩

theorem hub_dispatch :
    (∀ f ∈ hub.functions, f.Worded) ∧
      ∃ targets, (ofAbi .ethers "Hub" hub "").methods.map (·.target) = targets ∧
        targets[0]? ≠ targets[1]? ∧ targets[2]? ≠ some ".connect" ∧ targets[3]? = some ".owner" := by
  obtain ⟨-, targets, htargets, -, hdiffer, hplain⟩ :=
    dispatch_unambiguous .ethers "Hub" hub "" worded_hub
  refine ⟨worded_hub, targets, htargets, ?_, ?_, ?_⟩
  · exact hdiffer 0 1 _ _ rfl rfl fun hsame => by simpa [Abi.Field.bareAll] using hsame.2
  · exact fun h => ((hplain 2 _ rfl).2.1 h).2 (by decide)
  · refine (hplain 3 _ rfl).2.2 ⟨fun j g hg hname => ?_, by decide⟩
    match j, hg with
    | 0, rfl => exact absurd hname (by decide)
    | 1, rfl => exact absurd hname (by decide)
    | 2, rfl => exact absurd hname (by decide)
    | 3, _ => rfl

end SolidityBuild.TypeScript.Client
