import SolidityBuild.Proofs.TypeScript.Expansion
import SolidityBuild.TypeScript.Client

/-!
Types of answers and types of parameters. Return types are found by looking at the
names, types of parameters by looking them up, and only the latter put parentheses
into arrays. For names of base types both find the same, integers of 8 bits aside:
a parameter may be a number there, while every integer of an answer is exact.
-/

namespace SolidityBuild.TypeScript

open Abi (Field)
open BaseType (named? normalize width)

variable {m : Mapping} {b : BaseType} {typeName expr expr' : String} {dims : List Abi.Dim}

/-! ## Base types -/

/-- The type of an answer with a base type. -/
def answerType : BaseType → String
  | .address | .string | .bytes | .fixedBytes _ => "string"
  | .uint _ | .int _ => "bigint"
  | .bool => "boolean"

theorem returnTypeOfName_normalize (typeName : String) :
    returnTypeOfName (normalize typeName) = returnTypeOfName typeName := by
  rw [returnTypeOfName, returnTypeOfName, BaseType.normalize_normalize]

theorem returnTypeOfName_of_isInteger (h : named? typeName = some b) (hb : b.isInteger = true) :
    returnTypeOfName typeName = "bigint" := by
  simp only [returnTypeOfName, BaseType.named?_normalize, h, Option.map_some, Option.getD_some,
    if_pos hb]

/-- A name that begins like those of byte strings is taken for one. -/
theorem returnTypeOfName_of_bytes (h : named? typeName = some b) (hb : b.isInteger = false)
    {number : List Char}
    (hlist : (normalize typeName).toList = ['b', 'y', 't', 'e', 's'] ++ number) :
    returnTypeOfName typeName = "string" := by
  have hbytes : ['b', 'y', 't', 'e', 's'].isPrefixOf (normalize typeName).toList = true := by
    rw [hlist]
    exact List.isPrefixOf_iff_prefix.2 (List.prefix_append _ number)
  have hbool : normalize typeName ≠ "bool" := by
    intro hname
    rw [hname] at hbytes
    exact absurd hbytes (by decide)
  simp only [returnTypeOfName, BaseType.named?_normalize, h, Option.map_some, Option.getD_some,
    hb, Bool.false_eq_true, if_false, if_neg hbool, if_pos hbytes, ite_self]

theorem returnTypeOfName_of_named (h : named? typeName = some b) :
    returnTypeOfName typeName = answerType b := by
  rcases BaseType.ofName?_cases h with ⟨hword, -⟩ | ⟨number, step, hlist, -, rfl⟩ |
    ⟨number, step, -, -, rfl⟩ | ⟨number, step, -, -, rfl⟩
  · have hall : ∀ w ∈ BaseType.words,
        (BaseType.ofName? w).map answerType = some (returnTypeOfName w) := by
      decide
    have hvalue := hall _ hword
    rw [returnTypeOfName_normalize] at hvalue
    rw [named?] at h
    rw [h] at hvalue
    exact (Option.some.inj hvalue).symm
  · exact returnTypeOfName_of_bytes h rfl hlist
  · exact returnTypeOfName_of_isInteger h rfl
  · exact returnTypeOfName_of_isInteger h rfl

/-- The types of parameters in clients, but with exact integers of 8 bits. -/
def Mapping.exact : Mapping := (Mapping.ethers.set (.uint 0) "bigint").set (.int 0) "bigint"

theorem bits?_eq_eight_iff : b.bits? = some 8 ↔ b = .uint 0 ∨ b = .int 0 := by
  have hwidth : ∀ step : Fin 32, width step = 8 ↔ step = 0 := by decide
  cases b <;> simp [BaseType.bits?, hwidth]

theorem get?_ethers (h : b.bits? ≠ some 8) : Mapping.ethers.get? b = some (answerType b) := by
  cases b with
  | uint step | int step =>
    have hwide : ¬ width step ≤ 8 := by
      intro hle
      apply h
      rw [BaseType.bits?, Option.some.injEq]
      rw [width] at hle ⊢
      omega
    exact congrArg some (if_neg hwide)
  | address | string | bool | bytes | fixedBytes step => rfl

theorem get?_exact (b : BaseType) : Mapping.exact.get? b = some (answerType b) := by
  simp only [Mapping.exact, Mapping.set]
  split
  next hint => rw [hint]; rfl
  next hint =>
    split
    next huint => rw [huint]; rfl
    next huint => exact get?_ethers fun h8 => (bits?_eq_eight_iff.1 h8).elim huint hint

/-! ## Parentheses -/

theorem withoutParentheses_append (front back : String) :
    withoutParentheses (front ++ back) = withoutParentheses front ++ withoutParentheses back := by
  simp [withoutParentheses]

theorem withoutParentheses_enclose (expr : String) :
    withoutParentheses (Mapping.enclose expr) = withoutParentheses expr := by
  rcases enclose_cases expr with hsame | hparentheses
  · rw [hsame]
  · rw [withoutParentheses, hparentheses]
    simp [withoutParentheses, isKept]

theorem withoutParentheses_plainArrayOf (h : withoutParentheses expr = withoutParentheses expr') :
    withoutParentheses (plainArrayOf expr dims) = withoutParentheses (plainArrayOf expr' dims) := by
  induction dims generalizing expr expr' with
  | nil => exact h
  | cons dim dims ih =>
    apply ih
    rw [withoutParentheses_append, withoutParentheses_append, h]

/-- The two ways to write an array differ in parentheses only. -/
theorem withoutParentheses_arrayOf (expr : String) (dims : List Abi.Dim) :
    withoutParentheses (Mapping.arrayOf expr dims) = withoutParentheses (plainArrayOf expr dims) := by
  induction dims generalizing expr with
  | nil => rfl
  | cons dim dims ih =>
    have hmarked : withoutParentheses (Mapping.enclose expr ++ "[]") =
        withoutParentheses (expr ++ "[]") := by
      rw [withoutParentheses_append, withoutParentheses_append, withoutParentheses_enclose]
    have hstep := ih (Mapping.enclose expr ++ "[]")
    exact hstep.trans (withoutParentheses_plainArrayOf hmarked)

theorem withoutParentheses_intercalate (exprs : List String) :
    withoutParentheses (String.intercalate ", " exprs) =
      String.intercalate ", " (exprs.map withoutParentheses) := by
  induction exprs with
  | nil => rfl
  | cons expr rest ih =>
    cases rest with
    | nil => simp
    | cons next rest =>
      rw [List.map_cons, List.map_cons, String.intercalate_cons_cons,
        String.intercalate_cons_cons, withoutParentheses_append, withoutParentheses_append, ih]
      rfl

/-! ## Type expressions -/

mutual

/-- Types of answers and of parameters differ in parentheses only if they are the same
for every name. -/
theorem withoutParentheses_returnType : ∀ f : Field,
    (∀ n ∈ typeNames f, returnTypeOfName n = m.exprOfName n) →
      withoutParentheses (returnType f) = withoutParentheses (m.typeOf f)
  | .regular label typeName dims, h => by
      rw [returnType, Mapping.typeOf, withoutParentheses_arrayOf, h typeName List.mem_cons_self]
  | .tuple label components dims, h => by
      rw [returnType, Mapping.typeOf, withoutParentheses_arrayOf]
      apply withoutParentheses_plainArrayOf
      simp only [withoutParentheses_append, withoutParentheses_intercalate,
        withoutParentheses_returnTypes components h]

theorem withoutParentheses_returnTypes : ∀ fs : List Field,
    (∀ n ∈ typeNamesAll fs, returnTypeOfName n = m.exprOfName n) →
      (returnTypes fs).map withoutParentheses = (m.typesOf fs).map withoutParentheses
  | [], _ => rfl
  | f :: fs, h => by
      rw [typeNamesAll, List.forall_mem_append] at h
      rw [returnTypes, Mapping.typesOf, List.map_cons, List.map_cons,
        withoutParentheses_returnType f h.1, withoutParentheses_returnTypes fs h.2]

end

/-- For a parameter with names of base types only, at any depth, the type as an answer
is the type as a parameter but for parentheses, if integers of 8 bits are exact like
the others. If there are none of 8 bits, it is the one that clients have. -/
theorem answer_type_is_parameter_type (f : Field)
    (hnamed : ∀ n ∈ typeNames f, (named? n).isSome = true) :
    withoutParentheses (returnType f) = withoutParentheses (Mapping.exact.typeOf f) ∧
    ((∀ n ∈ typeNames f, (named? n).bind BaseType.bits? ≠ some 8) →
      withoutParentheses (returnType f) = withoutParentheses (Mapping.ethers.typeOf f)) := by
  constructor
  · apply withoutParentheses_returnType
    intro n hn
    obtain ⟨b, hb⟩ := Option.isSome_iff_exists.1 (hnamed n hn)
    rw [returnTypeOfName_of_named hb, Mapping.exprOfName_of_mapped hb (get?_exact b)]
  · intro hwide
    apply withoutParentheses_returnType
    intro n hn
    obtain ⟨b, hb⟩ := Option.isSome_iff_exists.1 (hnamed n hn)
    have hbits := hwide n hn
    rw [hb, Option.bind_some] at hbits
    rw [returnTypeOfName_of_named hb, Mapping.exprOfName_of_mapped hb (get?_ethers hbits)]

/-- Tuples without integers, in an array. -/
def ledgerEntries : Field :=
  .tuple ⟨"entries", none, none⟩
    [.regular ⟨"hash", none, none⟩ "bytes32" [], .regular ⟨"open", none, none⟩ "bool" []]
    [.dynamic]

/-- Tuples in an array, with further ones in them and an alias for 8 bits. -/
def ledger : Field :=
  .tuple ⟨"ledger", none, none⟩
    [.regular ⟨"owner", none, none⟩ "account" [],
      .regular ⟨"flags", none, none⟩ "byte" [.fixed 3],
      ledgerEntries]
    [.fixed 2, .dynamic]

theorem ledger_answer_type :
    (∀ n ∈ typeNames ledger, (named? n).isSome = true) ∧
    Mapping.exact.typeOf ledger = "(([string, bigint[], ([string, boolean])[]])[])[]" ∧
    Mapping.ethers.typeOf ledger = "(([string, number[], ([string, boolean])[]])[])[]" ∧
    withoutParentheses (returnType ledger) = "[string, bigint[], [string, boolean][]][][]" ∧
    (∀ n ∈ typeNames ledgerEntries, (named? n).bind BaseType.bits? ≠ some 8) ∧
    Mapping.ethers.typeOf ledgerEntries = "([string, boolean])[]" ∧
    withoutParentheses (returnType ledgerEntries) = "[string, boolean][]" := by
  have hledger : ∀ n ∈ typeNames ledger, (named? n).isSome = true := by decide +kernel
  have hentries : ∀ n ∈ typeNames ledgerEntries, (named? n).isSome = true := by decide +kernel
  have hwide : ∀ n ∈ typeNames ledgerEntries, (named? n).bind BaseType.bits? ≠ some 8 := by
    decide +kernel
  have hexact : Mapping.exact.typeOf ledger =
      "(([string, bigint[], ([string, boolean])[]])[])[]" := by
    decide +kernel
  have hethers : Mapping.ethers.typeOf ledgerEntries = "([string, boolean])[]" := by decide +kernel
  refine ⟨hledger, hexact, by decide +kernel, ?_, hwide, hethers, ?_⟩
  · rw [(answer_type_is_parameter_type ledger hledger).1, hexact]
    decide
  · rw [(answer_type_is_parameter_type ledgerEntries hentries).2 hwide, hethers]
    decide

end SolidityBuild.TypeScript
