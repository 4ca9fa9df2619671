import SolidityBuild.Abi.Codec
import SolidityBuild.Proofs.Abi.Type
import SolidityBuild.Proofs.Json.Record
import SolidityBuild.Proofs.Json.Printer

/-!
Parameters that are read, and written again. A parameter that is read is typed:
its type string with its components gives it back, and so it is for every
parameter inside it. Typed parameters are read back as they were written.
-/

namespace SolidityBuild.Abi

open Json

namespace Field

variable {label : Label} {type : String} {components : Option (List Field)} {f g : Field}

/-- The components of a tuple. -/
def components? : Field → Option (List Field)
  | regular .. => none
  | tuple _ components _ => some components

mutual

/-- The parameter and those inside it, outer ones first. -/
def nested : Field → List Field
  | regular label typeName dims => [regular label typeName dims]
  | tuple label components dims => tuple label components dims :: nestedAll components

def nestedAll : List Field → List Field
  | [] => []
  | f :: fs => f.nested ++ nestedAll fs

end

/-- Whether the type string and the components are read as the type they were
taken from: the base name, the components, and the dimensions in order. -/
def Typed (f : Field) : Prop := ofType f.label f.typeString f.components? = .ok f

theorem typed_of_ofType (h : ofType label type components = .ok f) :
    f.label = label ∧ f.components? = components ∧ f.Typed := by
  unfold ofType at h
  split at h
  next => cases h
  next base dims hsplit =>
    have hagain := splitType_of_splitType hsplit
    split at h
    next hbase =>
      subst hbase
      cases components with
      | none => cases h
      | some components =>
          cases h
          refine ⟨rfl, rfl, ?_⟩
          simp only [Typed, ofType, typeString, baseType, Field.dims, hagain, if_true]
          rfl
    next hbase =>
      cases components with
      | some components => cases h
      | none =>
          cases h
          refine ⟨rfl, rfl, ?_⟩
          simp only [Typed, ofType, typeString, baseType, Field.dims, hagain, if_neg hbase]
          rfl

theorem typed_regular_iff {typeName : String} {dims : List Dim} :
    (regular label typeName dims).Typed ↔
      ofType label (typeName ++ Dim.texts dims) none = .ok (regular label typeName dims) :=
  Iff.rfl

theorem typed_tuple_iff {fields : List Field} {dims : List Dim} :
    (tuple label fields dims).Typed ↔
      ofType label (tupleName ++ Dim.texts dims) (some fields) =
        .ok (tuple label fields dims) :=
  Iff.rfl

theorem nested_eq (f : Field) : f.nested = f :: nestedAll (f.components?.getD []) := by
  cases f with
  | regular label typeName dims => rfl
  | tuple label components dims => rw [nested]; rfl

theorem self_mem_nested (f : Field) : f ∈ f.nested := by
  rw [nested_eq]
  exact List.mem_cons_self

theorem mem_nestedAll_iff {fs : List Field} : g ∈ nestedAll fs ↔ ∃ f ∈ fs, g ∈ f.nested := by
  induction fs with
  | nil => simp [nestedAll]
  | cons f fs ih => simp [nestedAll, ih]

theorem writeAll_eq_map (fs : List Field) : writeAll fs = fs.map write := by
  induction fs with
  | nil => rfl
  | cons f fs ih => rw [writeAll, ih, List.map_cons]

end Field

/-! ## Types of parameters that are read -/

namespace Draft

variable {draft : Draft} {f : Field}

theorem toFields_eq_ok_iff {drafts : List Draft} {fs : List Field} :
    toFields drafts = .ok fs ↔ List.Forall₂ (fun draft f => draft.toField = .ok f) drafts fs := by
  induction drafts generalizing fs with
  | nil => cases fs <;> simp [toFields]
  | cons draft drafts ih =>
      rw [toFields]
      cases hdraft : draft.toField with
      | error e => cases fs <;> simp [bind, Except.bind, hdraft]
      | ok field =>
          cases hrest : toFields drafts with
          | error e => cases fs <;> simp [bind, Except.bind, ← ih, hrest, hdraft]
          | ok rest =>
              cases fs <;> simp [bind, Except.bind, pure, Except.pure, ← ih, hrest, hdraft]

theorem toField_some_eq_ok_iff {label : Label} {type : String} {components : List Draft} :
    (Draft.mk label type (some components)).toField = .ok f ↔
      ∃ fields, toFields components = .ok fields ∧
        Field.ofType label type (some fields) = .ok f := by
  rw [toField]
  cases toFields components with
  | error e => simp [bind, Except.bind]
  | ok fields => simp [bind, Except.bind]

mutual

/-- Every parameter inside one that is read is typed. -/
theorem typed_of_toField : ∀ (draft : Draft) (f : Field), draft.toField = .ok f →
    ∀ g ∈ f.nested, g.Typed
  | mk label type none, f, h => by
      obtain ⟨-, hcomponents, htyped⟩ := Field.typed_of_ofType (by rwa [toField] at h)
      rw [Field.nested_eq, hcomponents, List.forall_mem_cons]
      exact ⟨htyped, fun g hg => by cases hg⟩
  | mk label type (some components), f, h => by
      obtain ⟨fields, hfields, hf⟩ := toField_some_eq_ok_iff.1 h
      obtain ⟨-, hcomponents, htyped⟩ := Field.typed_of_ofType hf
      rw [Field.nested_eq, hcomponents, List.forall_mem_cons]
      exact ⟨htyped, typed_of_toFields components fields hfields⟩

theorem typed_of_toFields : ∀ (drafts : List Draft) (fs : List Field), toFields drafts = .ok fs →
    ∀ g ∈ Field.nestedAll fs, g.Typed
  | [], fs, h => by
      cases h
      exact fun g hg => by cases hg
  | draft :: drafts, fs, h => by
      rw [toFields_eq_ok_iff, List.forall₂_cons_left_iff] at h
      obtain ⟨f, rest, hf, hrest, rfl⟩ := h
      intro g hg
      rw [Field.nestedAll, List.mem_append] at hg
      rcases hg with hg | hg
      · exact typed_of_toField draft f hf g hg
      · exact typed_of_toFields drafts rest (toFields_eq_ok_iff.2 hrest) g hg

end

end Draft

/-! ## Reading back -/

namespace Field

variable {f : Field} {d : Document}

mutual

/-- The parameter as it is read before its types are looked at. -/
def draft : Field → Draft
  | regular label typeName dims => ⟨label, typeName ++ Dim.texts dims, none⟩
  | tuple label components dims =>
    ⟨label, tupleName ++ Dim.texts dims, some (drafts components)⟩

def drafts : List Field → List Draft
  | [] => []
  | f :: fs => f.draft :: drafts fs

end

/-- The fields of a written parameter. -/
def parts (label : Label) (type : String) (components : Option Value) : List (String × Value) :=
  [("name", .str label.name), ("type", .str type)] ++
    Value.field? "components" id components ++
    Value.field? "internalType" .str label.internalType ++
    Value.field? "indexed" .bool label.indexed

theorem writeParts_eq (label : Label) (type : String) (components : Option Value) :
    writeParts label type components = .obj (parts label type components) := rfl

theorem keys_parts_sublist (label : Label) (type : String) (components : Option Value) :
    ((parts label type components).map Prod.fst).Sublist Draft.fieldNames := by
  simp only [parts, List.map_append]
  exact (((List.Sublist.refl ["name", "type"]).append (Value.keys_field?_sublist _ _ _)).append
    (Value.keys_field?_sublist _ _ _)).append (Value.keys_field?_sublist _ _ _)

/-- What holds of texts, flags and the components holds of every part. -/
theorem forall_mem_parts {label : Label} {type : String} {components : Option Value}
    {P : Value → Prop} (htext : ∀ s, P (.str s)) (hflag : ∀ b, P (.bool b))
    (hcomponents : ∀ v, components = some v → P v) :
    ∀ f ∈ parts label type components, P f.2 := by
  intro f hf
  simp only [parts, List.mem_append, List.mem_cons, List.not_mem_nil, or_false,
    Value.mem_field?_iff, id] at hf
  rcases hf with (((rfl | rfl) | ⟨v, hv, rfl⟩) | ⟨s, -, rfl⟩) | ⟨b, -, rfl⟩
  · exact htext _
  · exact htext _
  · exact hcomponents v hv
  · exact htext s
  · exact hflag b

/-- A written parameter is read back if its components are. -/
theorem readWithin_writeParts (fuel : Nat) (label : Label) (type : String)
    (components : Option (Value × List Draft))
    (h : ∀ c, components = some c → Decoder.list (Draft.readWithin fuel) c.1.toDocument = .ok c.2) :
    Draft.readWithin (fuel + 1) (writeParts label type (components.map Prod.fst)).toDocument =
      .ok ⟨label, type, components.map Prod.snd⟩ := by
  rw [Draft.readWithin, writeParts_eq]
  refine Record.decode_obj (keys_parts_sublist _ _ _) (by decide) fun r hr => ?_
  have hname : r.optionalWith "name" "" .text = (.good label.name : Fields InvalidType String) :=
    hr.optionalWith (v := .str label.name) "" (by simp [parts]) rfl
  have htype : r.required "type" .text = (.good type : Fields InvalidType String) :=
    hr.required (v := .str type) (by simp [parts, List.lookup_cons]) rfl
  have hcomponents : r.optional "components" (Decoder.list (Draft.readWithin fuel)) =
      .good (components.map Prod.snd) := by
    refine hr.optional (fun hnone => ?_) fun v hv => ?_
    · simpa [parts, List.lookup_append, List.lookup_cons] using hnone
    · obtain ⟨drafts, hc⟩ : ∃ drafts, components = some (v, drafts) := by
        simpa [parts, List.lookup_append, List.lookup_cons] using hv
      rw [hc]
      exact Json.Decoder.optional_list (h _ hc)
  have hinternal : r.optional "internalType" .text =
      (.good label.internalType : Fields InvalidType (Option String)) :=
    hr.optional_map .str (by simp [parts, List.lookup_append, List.lookup_cons]) fun _ => rfl
  have hindexed : r.optional "indexed" .bool =
      (.good label.indexed : Fields InvalidType (Option Bool)) :=
    hr.optional_map .bool (by simp [parts, List.lookup_append, List.lookup_cons]) fun _ => rfl
  rw [hname, htype, hcomponents, hinternal, hindexed]
  rfl

mutual

theorem toField_draft : ∀ f : Field, (∀ g ∈ f.nested, g.Typed) → f.draft.toField = .ok f
  | regular label typeName dims, h => by
      rw [draft, Draft.toField]
      exact typed_regular_iff.1 (h _ (self_mem_nested _))
  | tuple label components dims, h => by
      rw [nested, List.forall_mem_cons] at h
      rw [draft, Draft.toField_some_eq_ok_iff]
      exact ⟨components, toFields_drafts components h.2, typed_tuple_iff.1 h.1⟩

theorem toFields_drafts : ∀ fs : List Field, (∀ g ∈ nestedAll fs, g.Typed) →
    Draft.toFields (drafts fs) = .ok fs
  | [], _ => rfl
  | f :: fs, h => by
      rw [nestedAll, List.forall_mem_append] at h
      rw [drafts, Draft.toFields_eq_ok_iff]
      exact .cons (toField_draft f h.1) (Draft.toFields_eq_ok_iff.1 (toFields_drafts fs h.2))

end

theorem height_components_lt (label : Label) (type : String) (v : Value) :
    v.toDocument.height < (writeParts label type (some v)).toDocument.height := by
  have hmem : ("components", v) ∈ parts label type (some v) := by simp [parts]
  exact Value.height_lt_of_mem_fields hmem

theorem one_le_height_write (f : Field) : 1 ≤ f.write.toDocument.height := by
  cases f <;> exact Nat.le_add_left 1 _

mutual

theorem readWithin_write : ∀ (f : Field) (fuel : Nat), f.write.toDocument.height ≤ fuel →
    Draft.readWithin fuel f.write.toDocument = .ok f.draft
  | f, 0, h => absurd (one_le_height_write f) (by omega)
  | regular label typeName dims, fuel + 1, _ => by
      rw [write, draft]
      exact readWithin_writeParts fuel label _ none fun c hc => by cases hc
  | tuple label components dims, fuel + 1, h => by
      rw [write] at h ⊢
      rw [draft]
      have hheight := height_components_lt label (tupleName ++ Dim.texts dims)
        (.arr (writeAll components))
      rw [Value.toDocument, Document.height] at hheight
      refine readWithin_writeParts fuel label _
        (some (.arr (writeAll components), drafts components)) fun c hc => ?_
      cases hc
      exact readWithin_writeAll components fuel (by omega)

theorem readWithin_writeAll : ∀ (fs : List Field) (fuel : Nat),
    Document.heightItems (Value.itemDocuments (writeAll fs)) ≤ fuel →
      (Value.itemDocuments (writeAll fs)).mapM (Draft.readWithin fuel) = .ok (drafts fs)
  | [], _, _ => rfl
  | f :: fs, fuel, h => by
      rw [writeAll, Value.itemDocuments, Document.heightItems, Nat.max_le] at h
      rw [writeAll, Value.itemDocuments, drafts, Json.Decoder.mapM_eq_ok_iff]
      exact .cons (readWithin_write f fuel h.1)
        (Json.Decoder.mapM_eq_ok_iff.1 (readWithin_writeAll fs fuel h.2))

end

/-- A typed parameter is read back as it was written. -/
theorem read_write (h : ∀ g ∈ f.nested, g.Typed) : read f.write.toDocument = .ok f := by
  rw [read, Draft.read, readWithin_write f _ (Nat.le_refl _)]
  simp only [bind, Except.bind, toField_draft f h]
  rfl

theorem read_eq_ok_iff :
    read d = .ok f ↔ ∃ draft, Draft.read d = .ok draft ∧ draft.toField = .ok f := by
  rw [read]
  cases Draft.read d with
  | error e => simp [bind, Except.bind]
  | ok draft => cases hdraft : draft.toField <;> simp [bind, Except.bind, pure, Except.pure, hdraft]

theorem typed_of_read (h : read d = .ok f) : ∀ g ∈ f.nested, g.Typed := by
  obtain ⟨draft, -, hfield⟩ := read_eq_ok_iff.1 h
  exact Draft.typed_of_toField draft f hfield

/-! ## How parameters are written -/

theorem nesting_writeParts_le (label : Label) (type : String) {components : Option Value} {n : Nat}
    (h : ∀ v, components = some v → v.toDocument.nesting ≤ n) :
    (writeParts label type components).toDocument.nesting ≤ n + 1 := by
  rw [writeParts_eq, Value.nesting_obj_le_iff]
  exact forall_mem_parts (P := (·.toDocument.nesting ≤ n)) (fun _ => Nat.zero_le n)
    (fun _ => Nat.zero_le n) h

theorem exact_writeParts (label : Label) (type : String) {components : Option Value}
    (h : ∀ v, components = some v → v.Exact) : (writeParts label type components).Exact := by
  rw [writeParts_eq, Value.Exact, Value.exactFields_iff]
  exact forall_mem_parts (fun _ => trivial) (fun _ => trivial) h

mutual

theorem exact_write : ∀ f : Field, f.write.Exact
  | regular label typeName dims => exact_writeParts label _ fun v hv => by cases hv
  | tuple label components dims => exact_writeParts label _ fun v hv => by
      cases hv
      exact exact_writeAll components

theorem exact_writeAll : ∀ fs : List Field, Value.ExactItems (writeAll fs)
  | [] => trivial
  | f :: fs => ⟨exact_write f, exact_writeAll fs⟩

end

/-- A parameter is not nested more deeply when it is written than it was where it
was read. -/
theorem nesting_write_le (fuel : Nat) {d : Document} {draft : Draft} {f : Field}
    (hdraft : Draft.readWithin fuel d = .ok draft) (hfield : draft.toField = .ok f) :
    f.write.toDocument.nesting ≤ d.nesting := by
  induction fuel generalizing d draft f with
  | zero => cases hdraft
  | succ fuel ih =>
      rw [Draft.readWithin] at hdraft
      obtain ⟨r, hinside, hr⟩ := Record.decode_eq_ok hdraft
      simp only [Fields.seq_eq_good, Fields.map_eq_good] at hr
      obtain ⟨_, indexed, ⟨_, internalType, ⟨_, components, ⟨_, type, ⟨name, -, rfl⟩, -, rfl⟩,
        hcomponents, rfl⟩, -, rfl⟩, -, rfl⟩ := hr
      cases components with
      | none =>
          obtain ⟨-, hnone, -⟩ := typed_of_ofType (by rwa [Draft.toField] at hfield)
          cases f with
          | regular label typeName dims =>
              rw [write]
              exact Nat.le_trans (nesting_writeParts_le label _ fun v hv => by cases hv)
                hinside.pos
          | tuple => cases hnone
      | some drafts =>
          obtain ⟨fields, hfields, hf⟩ := Draft.toField_some_eq_ok_iff.1 hfield
          obtain ⟨-, hsome, -⟩ := typed_of_ofType hf
          obtain ⟨p, part, hlookup, hpart⟩ := Record.optional_eq_good hcomponents
          obtain ⟨items, rfl, hitems⟩ := Json.Decoder.list_eq_ok_iff.1 hpart
          have hwritten : (Value.arr (writeAll fields)).toDocument.nesting ≤
              (Document.arr items).nesting := by
            rw [writeAll_eq_map, Document.nesting, Value.nesting_arr_le_iff, List.forall_mem_map]
            intro g hg
            obtain ⟨draft, hdraft, hg⟩ := exists_of_forall₂ (Draft.toFields_eq_ok_iff.1 hfields) hg
            obtain ⟨item, hitem, hread⟩ := exists_of_forall₂ hitems hdraft
            exact Nat.le_trans (ih hread hg)
              (Document.nestingItems_le_iff.1 (Nat.le_refl _) item hitem)
          cases f with
          | regular => cases hsome
          | tuple label components dims =>
              cases hsome
              rw [write]
              refine Nat.le_trans (nesting_writeParts_le label _ fun v hv => ?_)
                (hinside.known hlookup)
              cases hv
              exact hwritten

end Field

end SolidityBuild.Abi
