import SolidityBuild.Abi.Field
import SolidityBuild.Proofs.Abi.Type

/-!
The grammar of types. A type string is a base name without brackets and dimensions
behind it, with blanks around them that do not count, and components make a tuple of the
base name that stands for one. Everything in the grammar is accepted, and taken apart as
it is put together there. Beyond it brackets are let through that stand inside what is
left as the base name: only one that closes at its end is refused.
-/

namespace SolidityBuild.Abi

open Text

namespace Field

variable {label : Label} {type base : String} {dims : List Dim} {f : Field}
  {components : Option (List Field)}

/-- The parameter that is put together from the parts of its type. -/
def ofParts (label : Label) (base : String) (dims : List Dim) : Option (List Field) → Field
  | none => regular label base dims
  | some components => tuple label components dims

/-- Components are given, and the base name stands for a tuple, or neither. -/
def Suits (components : Option (List Field)) (base : String) : Prop :=
  components.isSome = true ↔ base = tupleName

theorem ofType_eq_ok_iff :
    ofType label type components = .ok f ↔
      ∃ base dims, splitType type = .ok (base, dims) ∧ Suits components base ∧
        f = ofParts label base dims components := by
  rw [ofType]
  cases splitType type with
  | error flaw => simp
  | ok parts =>
      obtain ⟨base, dims⟩ := parts
      by_cases hbase : base = tupleName <;> cases components <;>
        simp [hbase, Suits, ofParts, eq_comm]

/-- A type string of the grammar, with its base name and its dimensions from left to
right. -/
structure IsTypeString (type base : String) (dims : List Dim) : Prop where
  named : base ≠ ""
  unbracketed : '[' ∉ base.toList ∧ ']' ∉ base.toList
  dimensioned : Dim.IsDimensioned (trim type.toList) base.toList dims

theorem IsTypeString.splitType_eq (h : IsTypeString type base dims) :
    splitType type = .ok (base, dims) := by
  refine splitType_eq_ok_iff.2 ⟨h.named, fun hlast => ?_, h.dimensioned⟩
  exact h.unbracketed.2 (List.mem_of_getLast? hlast)

/-- A type is accepted if and only if its string, without the blanks around it, is a
base name that is not empty and does not end in a closing bracket, with dimensions
behind it, and components are given exactly for tuples; the parameter is put together
from these parts. That is the grammar for a type string and components if and only if
no bracket is left inside the base name. -/
theorem types_accepted_iff (label : Label) (type : String) (components : Option (List Field)) :
    (∀ f, ofType label type components = .ok f ↔
      ∃ base dims, base ≠ "" ∧ base.toList.getLast? ≠ some ']' ∧
        Dim.IsDimensioned (trim type.toList) base.toList dims ∧ Suits components base ∧
        f = ofParts label base dims components) ∧
    ((∀ f, ofType label type components = .ok f ↔
        ∃ base dims, IsTypeString type base dims ∧ Suits components base ∧
          f = ofParts label base dims components) ↔
      ∀ base dims, Dim.IsDimensioned (trim type.toList) base.toList dims →
        base.toList.getLast? ≠ some ']' → Suits components base →
          '[' ∉ base.toList ∧ ']' ∉ base.toList) := by
  refine ⟨fun f => ?_, fun h base dims hdims hlast hsuits => ?_, fun h f => ?_⟩
  · simp only [ofType_eq_ok_iff, splitType_eq_ok_iff, and_assoc]
  · by_cases hbase : base = ""
    · simp [hbase]
    have hsplit := splitType_eq_ok_iff.2 ⟨hbase, hlast, hdims⟩
    obtain ⟨base', dims', htype, -, -⟩ :=
      (h _).1 (ofType_eq_ok_iff.2 ⟨base, dims, hsplit, hsuits, rfl⟩)
    have hsame := hsplit.symm.trans htype.splitType_eq
    obtain ⟨rfl, rfl⟩ := Prod.mk.inj (Except.ok.inj hsame)
    exact htype.unbracketed
  · rw [ofType_eq_ok_iff]
    constructor
    · rintro ⟨base, dims, hsplit, hsuits, rfl⟩
      obtain ⟨hbase, hlast, hdims⟩ := splitType_eq_ok_iff.1 hsplit
      exact ⟨base, dims, ⟨hbase, h base dims hdims hlast hsuits, hdims⟩, hsuits, rfl⟩
    · rintro ⟨base, dims, htype, hsuits, rfl⟩
      exact ⟨base, dims, htype.splitType_eq, hsuits, rfl⟩

/-- A bracket that is never closed is left in the base name, while one that was never
opened is refused. -/
theorem open_bracket_accepted :
    ofType unnamed " uint8[2][+07] " none =
      .ok (regular unnamed "uint8" [.fixed 2, .fixed 7]) ∧
    ofType unnamed "uint8]" none = .error ⟨"uint8]", .unbalancedBrackets⟩ ∧
    ofType unnamed "uint8[" none = .ok (regular unnamed "uint8[" []) ∧
    ¬ ∀ f, ofType unnamed "uint8[" none = .ok f ↔
      ∃ base dims, IsTypeString "uint8[" base dims ∧ Suits none base ∧
        f = ofParts unnamed base dims none := by
  refine ⟨by rfl, by rfl, by rfl, ?_⟩
  rw [(types_accepted_iff unnamed "uint8[" none).2]
  intro hunbracketed
  have hdims : Dim.IsDimensioned (trim "uint8[".toList) "uint8[".toList [] := ⟨[], .nil, rfl⟩
  have hsuits : Suits none "uint8[" := by simp [Suits, tupleName]
  have hopen := (hunbracketed "uint8[" [] hdims (by decide) hsuits).1
  simp at hopen

end Field

end SolidityBuild.Abi
