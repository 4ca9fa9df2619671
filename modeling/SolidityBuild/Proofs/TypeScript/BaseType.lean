import Mathlib.Data.List.FinRange
import SolidityBuild.Proofs.Text.Decimal
import SolidityBuild.TypeScript.Mapping

/-!
Names of base types. A base type is read back from its name, so that different ones
have different names, and no name of one stands for another name.
-/

namespace SolidityBuild.TypeScript

namespace BaseType

open Text

variable {b : BaseType} {typeName : String}

/-! ## Reading names -/

theorem stepOfBits?_eq_some_iff {number : List Char} {step : Fin 32} :
    stepOfBits? number = some step ↔ Decimal.Denotes number (width step) := by
  have hstep := step.isLt
  apply Decimal.read?_bind_eq_some_iff width
  · intro bits
    split
    next hrange =>
      simp only [Option.some.injEq, Fin.ext_iff, width]
      omega
    next hrange =>
      simp only [reduceCtorEq, false_iff, width]
      omega
  · rw [width, UInt16.size]
    omega

theorem stepOfLength?_eq_some_iff {number : List Char} {step : Fin 32} :
    stepOfLength? number = some step ↔ Decimal.Denotes number (step.val + 1) := by
  have hstep := step.isLt
  apply Decimal.read?_bind_eq_some_iff fun step : Fin 32 => step.val + 1
  · intro length
    split
    next hrange =>
      simp only [Option.some.injEq, Fin.ext_iff]
      omega
    next hrange =>
      simp only [reduceCtorEq, false_iff]
      omega
  · rw [UInt8.size]
    omega

/-- The names without a number. -/
def words : List String := ["address", "string", "bool", "bytes"]

/-- What is read of a name that is a word with a number behind it. -/
def ofNumbered? (typeName : List Char) : Option BaseType :=
  match ['b', 'y', 't', 'e', 's'].isPrefixOf? typeName with
  | some number => (stepOfLength? number).map fixedBytes
  | none =>
    match ['u', 'i', 'n', 't'].isPrefixOf? typeName with
    | some number => (stepOfBits? number).map uint
    | none =>
      match ['i', 'n', 't'].isPrefixOf? typeName with
      | some number => (stepOfBits? number).map int
      | none => none

theorem ofName?_of_not_word (h : typeName ∉ words) :
    ofName? typeName = ofNumbered? typeName.toList := by
  simp only [words, List.mem_cons, List.not_mem_nil, or_false, not_or] at h
  rw [ofName?, if_neg h.1, if_neg h.2.1, if_neg h.2.2.1, if_neg h.2.2.2]
  rfl

theorem not_word_of_head?
    (h : typeName.toList.head? = some 'u' ∨ typeName.toList.head? = some 'i') :
    typeName ∉ words := by
  have hall : ∀ w ∈ words, w.toList.head? ≠ some 'u' ∧ w.toList.head? ≠ some 'i' := by decide
  intro hword
  rcases h with h | h
  · exact (hall _ hword).1 h
  · exact (hall _ hword).2 h

theorem not_word_of_bytes {number : List Char} (hnumber : number ≠ [])
    (h : typeName.toList = ['b', 'y', 't', 'e', 's'] ++ number) : typeName ∉ words := by
  have hall : ∀ w ∈ words, ['b', 'y', 't', 'e', 's'] <+: w.toList → w.toList.length = 5 := by
    decide
  intro hword
  have hlength := hall _ hword (h ▸ List.prefix_append _ number)
  rw [h, List.length_append] at hlength
  apply hnumber
  apply List.length_eq_zero_iff.1
  simpa using hlength

/-- A name is one of the words, or a word with a number behind it. -/
theorem ofName?_cases (h : ofName? typeName = some b) :
    (typeName ∈ words ∧ typeName = b.name) ∨
      (∃ number step, typeName.toList = ['b', 'y', 't', 'e', 's'] ++ number ∧
        stepOfLength? number = some step ∧ b = fixedBytes step) ∨
      (∃ number step, typeName.toList = ['u', 'i', 'n', 't'] ++ number ∧
        stepOfBits? number = some step ∧ b = uint step) ∨
      ∃ number step, typeName.toList = ['i', 'n', 't'] ++ number ∧
        stepOfBits? number = some step ∧ b = int step := by
  by_cases hword : typeName ∈ words
  · have hall : ∀ w ∈ words, (ofName? w).map name = some w := by decide
    have hname := hall typeName hword
    rw [h, Option.map_some, Option.some.injEq] at hname
    exact .inl ⟨hword, hname.symm⟩
  rw [ofName?_of_not_word hword, ofNumbered?] at h
  apply Or.inr
  split at h
  next number hnumber =>
    obtain ⟨step, hstep, rfl⟩ := Option.map_eq_some_iff.1 h
    exact .inl ⟨number, step, isPrefixOf?_eq_some_iff.1 hnumber, hstep, rfl⟩
  split at h
  next number hnumber =>
    obtain ⟨step, hstep, rfl⟩ := Option.map_eq_some_iff.1 h
    exact .inr (.inl ⟨number, step, isPrefixOf?_eq_some_iff.1 hnumber, hstep, rfl⟩)
  split at h
  next number hnumber =>
    obtain ⟨step, hstep, rfl⟩ := Option.map_eq_some_iff.1 h
    exact .inr (.inr ⟨number, step, isPrefixOf?_eq_some_iff.1 hnumber, hstep, rfl⟩)
  next => cases h

theorem ofName?_of_uint {number : List Char}
    (h : typeName.toList = ['u', 'i', 'n', 't'] ++ number) :
    ofName? typeName = (stepOfBits? number).map uint := by
  rw [ofName?_of_not_word (not_word_of_head? (.inl (by rw [h]; rfl))), h]
  simp [ofNumbered?, List.isPrefixOf?]

theorem ofName?_of_int {number : List Char}
    (h : typeName.toList = ['i', 'n', 't'] ++ number) :
    ofName? typeName = (stepOfBits? number).map int := by
  rw [ofName?_of_not_word (not_word_of_head? (.inr (by rw [h]; rfl))), h]
  simp [ofNumbered?, List.isPrefixOf?]

theorem ofName?_of_bytes {number : List Char} (hnumber : number ≠ [])
    (h : typeName.toList = ['b', 'y', 't', 'e', 's'] ++ number) :
    ofName? typeName = (stepOfLength? number).map fixedBytes := by
  rw [ofName?_of_not_word (not_word_of_bytes hnumber h), h]
  simp [ofNumbered?, List.isPrefixOf?]

/-- A base type is read back from its name. -/
theorem ofName?_name (b : BaseType) : ofName? b.name = some b := by
  cases b with
  | uint step =>
    rw [ofName?_of_uint String.toList_append,
      stepOfBits?_eq_some_iff.2 (Decimal.denotes_print _), Option.map_some]
  | int step =>
    rw [ofName?_of_int String.toList_append,
      stepOfBits?_eq_some_iff.2 (Decimal.denotes_print _), Option.map_some]
  | fixedBytes step =>
    rw [ofName?_of_bytes (Decimal.print_ne_nil _) String.toList_append,
      stepOfLength?_eq_some_iff.2 (Decimal.denotes_print _), Option.map_some]
  | address | string | bool | bytes => rfl

/-- Names of base types are made of letters and digits. -/
theorem isAlphanum_of_mem_name {c : Char} (h : c ∈ b.name.toList) : c.isAlphanum = true := by
  have hword : ∀ word ∈ ["address", "uint", "int", "string", "bool", "bytes"],
      word.toList.all Char.isAlphanum = true := by
    decide
  have hprint : ∀ n, c ∈ (Decimal.print n).toList → c.isAlphanum = true := by
    intro n hc
    rw [Char.isAlphanum, Decimal.isDigit_of_mem_print hc, Bool.or_true]
  cases b with
  | uint step | int step | fixedBytes step =>
    rw [name, String.toList_append, List.mem_append] at h
    exact h.elim (List.all_eq_true.1 (hword _ (by decide)) c) (hprint _)
  | address | string | bool | bytes => exact List.all_eq_true.1 (hword _ (by decide)) c h

theorem not_mem_of_mem_name {c : Char} {marks : List Char}
    (hmarks : marks.any Char.isAlphanum = false) (h : c ∈ b.name.toList) : c ∉ marks := by
  intro hmark
  have hnot := List.any_eq_false.1 hmarks c hmark
  exact hnot (isAlphanum_of_mem_name h)

theorem name_injective : Function.Injective name := by
  intro b b' h
  apply Option.some.inj
  rw [← ofName?_name b, h, ofName?_name b']

/-- No base type is listed twice: each kind is listed once, and no two kinds meet. -/
theorem nodup_all : all.Nodup := by
  have huint : ((List.finRange 32).map uint).Nodup :=
    (List.nodup_finRange 32).map fun _ _ => uint.inj
  have hint : ((List.finRange 32).map int).Nodup :=
    (List.nodup_finRange 32).map fun _ _ => int.inj
  have hbytes : ((List.finRange 32).map fixedBytes).Nodup :=
    (List.nodup_finRange 32).map fun _ _ => fixedBytes.inj
  apply List.Nodup.append _ hbytes
  · simp only [List.Disjoint]
    grind
  apply List.Nodup.append _ (by decide)
  · simp only [List.Disjoint]
    grind
  apply List.Nodup.append _ hint
  · simp only [List.Disjoint]
    grind
  apply List.Nodup.append (List.nodup_singleton address) huint
  simp

/-! ## Names that stand for other names -/

/-- A name stands for itself unless it is an alias. -/
theorem normalize_cases (typeName : String) :
    normalize typeName = typeName ∨ (typeName, normalize typeName) ∈ aliases := by
  unfold normalize
  cases hlookup : aliases.lookup typeName with
  | none => exact .inl rfl
  | some other =>
    obtain ⟨front, back, hsplit, -⟩ := List.lookup_eq_some_iff.1 hlookup
    apply Or.inr
    rw [hsplit, Option.getD_some]
    simp

theorem normalize_alias {other : String} (h : (typeName, other) ∈ aliases) :
    normalize typeName = other := by
  have hall : ∀ a ∈ aliases, normalize a.1 = a.2 := by decide
  exact hall _ h

theorem ofName?_alias {other : String} (h : (typeName, other) ∈ aliases) :
    ofName? typeName = none := by
  have hall : ∀ a ∈ aliases, ofName? a.1 = none := by decide
  exact hall _ h

theorem normalize_of_mem_aliases {other : String} (h : (typeName, other) ∈ aliases) :
    normalize other = other := by
  have hall : ∀ a ∈ aliases, normalize a.2 = a.2 := by decide
  exact hall _ h

theorem normalize_normalize (typeName : String) :
    normalize (normalize typeName) = normalize typeName := by
  rcases normalize_cases typeName with hself | halias
  · rw [hself, hself]
  · exact normalize_of_mem_aliases halias

theorem named?_normalize (typeName : String) : named? (normalize typeName) = named? typeName := by
  rw [named?, named?, normalize_normalize]

/-- No name of a base type is an alias. -/
theorem normalize_name (b : BaseType) : normalize b.name = b.name := by
  rcases normalize_cases b.name with hself | halias
  · exact hself
  · have hnone := ofName?_alias halias
    rw [ofName?_name] at hnone
    cases hnone

theorem named?_name (b : BaseType) : named? b.name = some b := by
  rw [named?, normalize_name, ofName?_name]

end BaseType

namespace Mapping

open BaseType (named? normalize)

variable {m : Mapping} {b : BaseType} {typeName expr : String}

theorem exprOfName_of_mapped (h : named? typeName = some b) (hget : m.get? b = some expr) :
    m.exprOfName typeName = expr := by
  rw [exprOfName, lookup?, BaseType.named?_normalize, h, Option.bind_some, hget, Option.getD_some]

theorem exprOfName_of_unmapped (h : ∀ b, named? typeName = some b → m.get? b = none) :
    m.exprOfName typeName = normalize typeName := by
  rw [exprOfName, lookup?, BaseType.named?_normalize]
  cases hnamed : named? typeName with
  | none => rfl
  | some b => rw [Option.bind_some, h b hnamed, Option.getD_none]

theorem mem_entries_iff : (b, expr) ∈ m.entries ↔ m.get? b = some expr := by
  rw [entries, List.mem_filterMap]
  constructor
  · rintro ⟨b', -, h⟩
    obtain ⟨expr', hget, heq⟩ := Option.map_eq_some_iff.1 h
    obtain ⟨rfl, rfl⟩ := Prod.mk.inj heq
    exact hget
  · intro hget
    refine ⟨b, BaseType.mem_all b, ?_⟩
    rw [hget, Option.map_some]

end Mapping

end SolidityBuild.TypeScript
