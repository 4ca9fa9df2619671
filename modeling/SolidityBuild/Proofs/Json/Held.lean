import Mathlib.Data.List.Forall2
import SolidityBuild.Proofs.Json.Document
import SolidityBuild.Proofs.TextMap

/-!
What objects hold under their keys. The fields of an object and the entries of the
map that is read of it stand side by side, and of two with one key the later counts
in both. A value that was read of a document is read again of the document that
spells it.
-/

namespace SolidityBuild.Json

variable {ε α : Type} {key : String}

namespace Document

/-- What an object holds under a key; of two fields with one key, the later. -/
def part? (key : String) : Document → Option Document
  | obj fields => fields.reverse.lookup (some key)
  | _ => none

/-- What an object holds under a key, or an empty object. -/
def partOrEmpty (key : String) (d : Document) : Document := (d.part? key).getD (.obj [])

end Document

namespace Value

/-- What an object holds under a key. -/
def part? (key : String) : Value → Option Value
  | obj fields => fields.lookup key
  | _ => none

theorem part?_ofMap (write : α → Value) (map : TextMap α) (key : String) :
    (ofMap write map).part? key = (map.get? key).map write := by
  rw [ofMap, part?, TextMap.get?, TextMap.lookup_map_snd]

/-- The value is what is read of the document that spells it: its objects have
their fields in the order of their keys. -/
def Held (v : Value) : Prop := v.toDocument.value? = some v

end Value

/-! ## Related parts -/

section Related

variable {β γ : Type} {R : α → β → Prop} {a : α} {o : Option α} {o' : Option β} {o'' : Option γ}

theorem exists_of_rel_some (h : Option.Rel R (some a) o') : ∃ b, o' = some b ∧ R a b := by
  cases h with
  | some hR => exact ⟨_, rfl, hR⟩

theorem eq_none_of_rel_none (h : Option.Rel R none o') : o' = none := by
  cases h
  rfl

theorem rel_trans {S : β → γ → Prop} {T : α → γ → Prop} (hT : ∀ a b c, R a b → S b c → T a c)
    (h : Option.Rel R o o') (h' : Option.Rel S o' o'') : Option.Rel T o o'' := by
  cases h with
  | none => rw [eq_none_of_rel_none h']; exact .none
  | some hR =>
      obtain ⟨c, rfl, hS⟩ := exists_of_rel_some h'
      exact .some (hT _ _ _ hR hS)

/-- What is related to one and the same. -/
theorem rel_of_rel {S : α → γ → Prop} {T : β → γ → Prop} (hT : ∀ a b c, R a b → S a c → T b c)
    (h : Option.Rel R o o') (h' : Option.Rel S o o'') : Option.Rel T o' o'' := by
  cases h with
  | none => rw [eq_none_of_rel_none h']; exact .none
  | some hR =>
      obtain ⟨c, rfl, hS⟩ := exists_of_rel_some h'
      exact .some (hT _ _ _ hR hS)

theorem eq_of_rel {o' : Option α} (h : Option.Rel (fun a b => a = b) o o') : o = o' := by
  cases h with
  | none => rfl
  | some heq => rw [heq]

end Related

/-! ## Fields and entries side by side -/

/-- Fields of a document and entries of a map, key by key. -/
def Keyed (R : Document → α → Prop) (fields : List (Option String × Document))
    (entries : List (String × α)) : Prop :=
  List.Forall₂ (fun f e => f.1 = some e.1 ∧ R f.2 e.2) fields entries

section Lookup

variable {R : Document → α → Prop} {fields : List (Option String × Document)}
  {entries : List (String × α)}

theorem keyed_cons_iff {f : Option String × Document} {e : String × α} :
    Keyed R (f :: fields) (e :: entries) ↔ (f.1 = some e.1 ∧ R f.2 e.2) ∧ Keyed R fields entries :=
  List.forall₂_cons

theorem Keyed.rel_lookup (h : Keyed R fields entries) (key : String) :
    Option.Rel R (fields.lookup (some key)) (entries.lookup key) := by
  induction h with
  | nil => exact .none
  | @cons f e fields entries hhead _ ih =>
      obtain ⟨k, d⟩ := f
      obtain ⟨hkey, hR⟩ := hhead
      obtain rfl : k = some e.1 := hkey
      rw [List.lookup_cons, List.lookup_cons]
      by_cases heq : key = e.1
      · rw [heq, beq_self_eq_true, beq_self_eq_true]
        exact .some hR
      · rw [beq_false_of_ne heq, beq_false_of_ne fun hsome => heq (Option.some.inj hsome)]
        exact ih

/-- The map of the entries holds under each key what the last field holds that has it. -/
theorem Keyed.rel_get? (h : Keyed R fields entries) (key : String) :
    Option.Rel R (fields.reverse.lookup (some key)) ((TextMap.ofList entries).get? key) := by
  rw [TextMap.get?_ofList]
  exact Keyed.rel_lookup (List.forall₂_reverse_iff.2 h) key

/-- Fields and entries may be left out by their keys on both sides. -/
theorem Keyed.filter (h : Keyed R fields entries) (q : Option String → Bool) :
    Keyed R (fields.filter fun f => q f.1) (entries.filter fun e => q (some e.1)) := by
  induction h with
  | nil => exact .nil
  | @cons f e fields entries hhead _ ih =>
      obtain ⟨hkey, hR⟩ := hhead
      rw [List.filter_cons, List.filter_cons, hkey]
      split
      · exact .cons ⟨hkey, hR⟩ ih
      · exact ih

theorem lookup_map_some (g : α → Document) (entries : List (String × α)) (key : String) :
    (entries.map fun e => (some e.1, g e.2)).lookup (some key) = (entries.lookup key).map g := by
  induction entries with
  | nil => rfl
  | cons e entries ih =>
      rw [List.map_cons, List.lookup_cons, List.lookup_cons, ih]
      by_cases heq : key = e.1
      · simp [heq]
      · rw [beq_false_of_ne heq, beq_false_of_ne fun hsome => heq (Option.some.inj hsome)]

end Lookup

/-! ## Values that are kept -/

namespace Document

theorem valueFields?_eq_some_iff {fields : List (Option String × Document)}
    {entries : List (String × Value)} :
    valueFields? fields = some entries ↔ Keyed (fun d v => d.value? = some v) fields entries := by
  induction fields generalizing entries with
  | nil => cases entries <;> simp [valueFields?, Keyed]
  | cons f fields ih =>
      obtain ⟨key, d⟩ := f
      cases entries with
      | nil => cases key <;> simp [valueFields?, Keyed, Option.bind_eq_some_iff]
      | cons e entries =>
          rw [keyed_cons_iff, ← ih, valueFields?]
          cases key with
          | none => simp
          | some k =>
              simp only [Option.bind_eq_bind, Option.bind_eq_some_iff]
              constructor
              · rintro ⟨_, hk, v, hv, rest, hrest, heq⟩
                cases heq
                exact ⟨⟨hk, hv⟩, hrest⟩
              · rintro ⟨⟨hk, hv⟩, hrest⟩
                exact ⟨_, hk, _, hv, _, hrest, rfl⟩

end Document

namespace Value

theorem valueItems?_itemDocuments {items : List Value} (h : ∀ v ∈ items, v.Held) :
    Document.valueItems? (itemDocuments items) = some items := by
  induction items with
  | nil => rfl
  | cons v items ih =>
      obtain ⟨hv, hitems⟩ := List.forall_mem_cons.1 h
      rw [itemDocuments, Document.valueItems?, hv, ih hitems]
      rfl

theorem valueFields?_fieldDocuments {fields : List (String × Value)}
    (h : ∀ f ∈ fields, f.2.Held) :
    Document.valueFields? (fieldDocuments fields) = some fields := by
  rw [Document.valueFields?_eq_some_iff, fieldDocuments_eq_map, Keyed, List.forall₂_map_left_iff,
    List.forall₂_same]
  exact fun f hf => ⟨rfl, h f hf⟩

/-- An object is held if its fields are in the order of their keys. -/
theorem held_ofEntries {map : TextMap Value} (h : ∀ e ∈ map.entries, e.2.Held) :
    (obj map.entries).Held := by
  rw [Held, toDocument, Document.value?, valueFields?_fieldDocuments h, Option.map_some,
    TextMap.ofList_entries]

end Value

namespace Document

mutual

/-- What is read of a document is read again of the document that spells it. -/
theorem held_of_value? : ∀ {d : Document} {v : Value}, d.value? = some v → v.Held
  | null, _, rfl => rfl
  | bool _, _, rfl => rfl
  | int _, _, rfl => rfl
  | float _, _, rfl => rfl
  | str _, _, rfl => rfl
  | arr items, v, h => by
      obtain ⟨vs, hvs, rfl⟩ := Option.map_eq_some_iff.1 h
      rw [Value.Held, Value.toDocument, value?,
        Value.valueItems?_itemDocuments (held_of_valueItems? hvs), Option.map_some]
  | obj fields, v, h => by
      obtain ⟨fs, hfs, rfl⟩ := Option.map_eq_some_iff.1 h
      exact Value.held_ofEntries fun e he =>
        held_of_valueFields? hfs e (TextMap.mem_of_mem_ofList he)

theorem held_of_valueItems? : ∀ {ds : List Document} {vs : List Value},
    valueItems? ds = some vs → ∀ v ∈ vs, v.Held
  | [], _, rfl => by simp
  | d :: ds, vs, h => by
      simp only [valueItems?, Option.bind_eq_bind, Option.bind_eq_some_iff] at h
      obtain ⟨v, hv, rest, hrest, hvs⟩ := h
      obtain rfl : v :: rest = vs := Option.some.inj hvs
      exact List.forall_mem_cons.2 ⟨held_of_value? hv, held_of_valueItems? hrest⟩

theorem held_of_valueFields? : ∀ {fs : List (Option String × Document)}
    {es : List (String × Value)}, valueFields? fs = some es → ∀ e ∈ es, e.2.Held
  | [], _, rfl => by simp
  | (key, d) :: fs, es, h => by
      simp only [valueFields?, Option.bind_eq_bind, Option.bind_eq_some_iff] at h
      obtain ⟨k, -, v, hv, rest, hrest, hes⟩ := h
      obtain rfl : (k, v) :: rest = es := Option.some.inj hes
      exact List.forall_mem_cons.2 ⟨held_of_value? hv, held_of_valueFields? hrest⟩

end

end Document

namespace Value

mutual

/-- A document that spells a value can be passed over. -/
theorem intact_toDocument : ∀ v : Value, v.toDocument.intact = true
  | null => rfl
  | bool _ => rfl
  | int _ => rfl
  | float _ => rfl
  | str _ => rfl
  | arr items => intact_itemDocuments items
  | obj fields => intact_fieldDocuments fields

theorem intact_itemDocuments :
    ∀ items : List Value, Document.intactItems (itemDocuments items) = true
  | [] => rfl
  | v :: vs => by
      rw [itemDocuments, Document.intactItems, intact_toDocument v, intact_itemDocuments vs]
      rfl

theorem intact_fieldDocuments :
    ∀ fields : List (String × Value), Document.intactFields (fieldDocuments fields) = true
  | [] => rfl
  | (_, v) :: fs => by
      rw [fieldDocuments, Document.intactFields, intact_toDocument v, intact_fieldDocuments fs]
      rfl

end

end Value

end SolidityBuild.Json
