import SolidityBuild.Json.Document

/-!
How deep documents are nested, and the documents that spell values: each of
them denotes something.
-/

namespace SolidityBuild.Json

namespace Document

variable {ds ds' : List Document} {fs fs' : List (Option String × Document)} {n : Nat}

mutual

/-- How many arrays and objects stand one inside another. This is what the
limit of the reader counts; `height` counts what stands in the innermost of
them as well. -/
def nesting : Document → Nat
  | arr items => nestingItems items + 1
  | obj fields => nestingFields fields + 1
  | _ => 0

def nestingItems : List Document → Nat
  | [] => 0
  | d :: ds => max d.nesting (nestingItems ds)

def nestingFields : List (Option String × Document) → Nat
  | [] => 0
  | (_, d) :: fs => max d.nesting (nestingFields fs)

end

theorem nestingItems_le_iff : nestingItems ds ≤ n ↔ ∀ d ∈ ds, d.nesting ≤ n := by
  induction ds with
  | nil => simp [nestingItems]
  | cons d ds ih => rw [nestingItems, Nat.max_le, ih, List.forall_mem_cons]

theorem nestingFields_le_iff : nestingFields fs ≤ n ↔ ∀ f ∈ fs, f.2.nesting ≤ n := by
  induction fs with
  | nil => simp [nestingFields]
  | cons f fs ih => rw [nestingFields, Nat.max_le, ih, List.forall_mem_cons]

theorem nesting_arr_le_iff :
    (arr ds).nesting ≤ n + 1 ↔ ∀ d ∈ ds, d.nesting ≤ n := by
  rw [nesting, Nat.add_le_add_iff_right, nestingItems_le_iff]

theorem nesting_obj_le_iff :
    (obj fs).nesting ≤ n + 1 ↔ ∀ f ∈ fs, f.2.nesting ≤ n := by
  rw [nesting, Nat.add_le_add_iff_right, nestingFields_le_iff]

theorem nesting_arr_mono (h : ds ⊆ ds') : (arr ds).nesting ≤ (arr ds').nesting :=
  nesting_arr_le_iff.2 fun d hd => nestingItems_le_iff.1 (Nat.le_refl _) d (h hd)

theorem nesting_obj_mono (h : fs ⊆ fs') : (obj fs).nesting ≤ (obj fs').nesting :=
  nesting_obj_le_iff.2 fun f hf => nestingFields_le_iff.1 (Nat.le_refl _) f (h hf)

theorem nesting_lt_of_mem_items {d : Document} (h : d ∈ ds) : d.nesting < (arr ds).nesting :=
  Nat.lt_succ_of_le (nestingItems_le_iff.1 (Nat.le_refl _) d h)

theorem nesting_lt_of_mem_fields {f : Option String × Document} (h : f ∈ fs) :
    f.2.nesting < (obj fs).nesting :=
  Nat.lt_succ_of_le (nestingFields_le_iff.1 (Nat.le_refl _) f h)

mutual

theorem nesting_le_height : ∀ d : Document, d.nesting ≤ d.height
  | arr items => Nat.succ_le_succ (nestingItems_le_height items)
  | obj fields => Nat.succ_le_succ (nestingFields_le_height fields)
  | null | bool _ | int _ | float _ | str _ | unreadable | broken => Nat.zero_le _

theorem nestingItems_le_height : ∀ ds : List Document, nestingItems ds ≤ heightItems ds
  | [] => Nat.le_refl _
  | d :: ds => by
      have hd := nesting_le_height d
      have hds := nestingItems_le_height ds
      rw [nestingItems, heightItems]
      omega

theorem nestingFields_le_height :
    ∀ fs : List (Option String × Document), nestingFields fs ≤ heightFields fs
  | [] => Nat.le_refl _
  | (_, d) :: fs => by
      have hd := nesting_le_height d
      have hfs := nestingFields_le_height fs
      rw [nestingFields, heightFields]
      omega

end

theorem heightFields_le_iff : heightFields fs ≤ n ↔ ∀ f ∈ fs, f.2.height ≤ n := by
  induction fs with
  | nil => simp [heightFields]
  | cons f fs ih => rw [heightFields, Nat.max_le, ih, List.forall_mem_cons]

theorem height_lt_of_mem_fields {f : Option String × Document} (h : f ∈ fs) :
    f.2.height < (obj fs).height :=
  Nat.lt_succ_of_le (heightFields_le_iff.1 (Nat.le_refl _) f h)

end Document

namespace Value

variable {items : List Value} {fields : List (String × Value)}

theorem itemDocuments_eq_map (items : List Value) :
    itemDocuments items = items.map toDocument := by
  induction items with
  | nil => rfl
  | cons v vs ih => rw [itemDocuments, ih, List.map_cons]

theorem fieldDocuments_eq_map (fields : List (String × Value)) :
    fieldDocuments fields = fields.map fun f => (some f.1, f.2.toDocument) := by
  induction fields with
  | nil => rfl
  | cons f fs ih => rw [fieldDocuments, ih, List.map_cons]

theorem toDocument_arr (items : List Value) :
    (arr items).toDocument = .arr (items.map toDocument) := by
  rw [toDocument, itemDocuments_eq_map]

theorem toDocument_obj (fields : List (String × Value)) :
    (obj fields).toDocument = .obj (fields.map fun f => (some f.1, f.2.toDocument)) := by
  rw [toDocument, fieldDocuments_eq_map]

theorem height_lt_of_mem_fields {f : String × Value} (h : f ∈ fields) :
    f.2.toDocument.height < (obj fields).toDocument.height := by
  rw [toDocument_obj]
  have hmem : (some f.1, f.2.toDocument) ∈
      fields.map fun f => (some f.1, f.2.toDocument) := List.mem_map.2 ⟨f, h, rfl⟩
  exact Document.height_lt_of_mem_fields hmem

theorem nesting_arr_le_iff {n : Nat} :
    (arr items).toDocument.nesting ≤ n + 1 ↔ ∀ v ∈ items, v.toDocument.nesting ≤ n := by
  rw [toDocument_arr, Document.nesting_arr_le_iff, List.forall_mem_map]

theorem nesting_obj_le_iff {n : Nat} :
    (obj fields).toDocument.nesting ≤ n + 1 ↔ ∀ f ∈ fields, f.2.toDocument.nesting ≤ n := by
  rw [toDocument_obj, Document.nesting_obj_le_iff, List.forall_mem_map]

mutual

theorem isReadable_toDocument : ∀ v : Value, v.toDocument.isReadable = true
  | null => rfl
  | bool _ => rfl
  | int _ => rfl
  | float _ => rfl
  | str _ => rfl
  | arr items => by
      rw [toDocument, Document.isReadable, Document.value?, Option.isSome_map]
      exact isSome_valueItems? items
  | obj fields => by
      rw [toDocument, Document.isReadable, Document.value?, Option.isSome_map]
      exact isSome_valueFields? fields

theorem isSome_valueItems? :
    ∀ items : List Value, (Document.valueItems? (itemDocuments items)).isSome = true
  | [] => rfl
  | v :: vs => by
      obtain ⟨w, hw⟩ := Option.isSome_iff_exists.1 (isReadable_toDocument v)
      obtain ⟨ws, hws⟩ := Option.isSome_iff_exists.1 (isSome_valueItems? vs)
      simp [itemDocuments, Document.valueItems?, hw, hws]

theorem isSome_valueFields? :
    ∀ fields : List (String × Value),
      (Document.valueFields? (fieldDocuments fields)).isSome = true
  | [] => rfl
  | (_, v) :: fs => by
      obtain ⟨w, hw⟩ := Option.isSome_iff_exists.1 (isReadable_toDocument v)
      obtain ⟨ws, hws⟩ := Option.isSome_iff_exists.1 (isSome_valueFields? fs)
      simp [fieldDocuments, Document.valueFields?, hw, hws]

end

end Value

end SolidityBuild.Json
