import SolidityBuild.Proofs.Json.Open

/-!
Reading through values. A program may hold on to the value that a document spells and
read that instead. Its objects have their fields in the order of their keys, and of two
fields with one key only the later. Records look their fields up by key, so what is read
of a document is read of the document that spells its value, too.
-/

namespace SolidityBuild.Json

variable {ε α β : Type} {d d' : Document} {items : List Document}
  {fields : List (Option String × Document)}

/-- The second document spells the value of the first. -/
def Respelled (d d' : Document) : Prop := ∃ v, d.value? = some v ∧ v.toDocument = d'

namespace Document

theorem valueItems?_eq_some_iff {vs : List Value} :
    valueItems? items = some vs ↔ List.Forall₂ (fun d v => d.value? = some v) items vs := by
  induction items generalizing vs with
  | nil => cases vs <;> simp [valueItems?]
  | cons d items ih =>
      cases vs with
      | nil => simp [valueItems?, Option.bind_eq_some_iff]
      | cons v vs =>
          rw [List.forall₂_cons, ← ih, valueItems?]
          simp only [Option.bind_eq_bind, Option.bind_eq_some_iff]
          constructor
          · rintro ⟨_, hv, _, hvs, heq⟩
            cases heq
            exact ⟨hv, hvs⟩
          · rintro ⟨hv, hvs⟩
            exact ⟨_, hv, _, hvs, rfl⟩

/-- The fields of an object and those of its value, side by side. -/
theorem exists_keyed_of_value? {v : Value} (h : (obj fields).value? = some v) :
    ∃ es, Keyed (fun d v => d.value? = some v) fields es ∧
      v = .obj (TextMap.ofList es).entries := by
  obtain ⟨es, hes, rfl⟩ := Option.map_eq_some_iff.1 h
  exact ⟨es, valueFields?_eq_some_iff.1 hes, rfl⟩

end Document

theorem Respelled.exists_items (h : Respelled (.arr items) d') :
    ∃ vs, List.Forall₂ (fun d v => d.value? = some v) items vs ∧
      d' = .arr (vs.map Value.toDocument) := by
  obtain ⟨v, hv, rfl⟩ := h
  obtain ⟨vs, hvs, rfl⟩ := Option.map_eq_some_iff.1 hv
  exact ⟨vs, Document.valueItems?_eq_some_iff.1 hvs, Value.toDocument_arr vs⟩

theorem Respelled.exists_map (h : Respelled (.obj fields) d') :
    ∃ map : TextMap Value, d' = (Value.obj map.entries).toDocument ∧ ∀ key,
      Option.Rel (fun part v => part.value? = some v) (fields.reverse.lookup (some key))
        (map.get? key) := by
  obtain ⟨v, hv, rfl⟩ := h
  obtain ⟨es, hes, rfl⟩ := Document.exists_keyed_of_value? hv
  exact ⟨_, rfl, hes.rel_get?⟩

/-- Fields may be left out by their keys before a document is respelled or after. -/
theorem Respelled.filter {fields' : List (Option String × Document)}
    (h : Respelled (.obj fields) (.obj fields')) (q : Option String → Bool) :
    Respelled (.obj (fields.filter fun f => q f.1)) (.obj (fields'.filter fun f => q f.1)) := by
  obtain ⟨v, hv, hfields'⟩ := h
  obtain ⟨es, hes, rfl⟩ := Document.exists_keyed_of_value? hv
  obtain rfl := Document.obj.inj hfields'
  refine ⟨.obj (TextMap.ofList (es.filter fun e => q (some e.1))).entries, ?_, ?_⟩
  · rw [Document.value?, Document.valueFields?_eq_some_iff.2 (hes.filter q), Option.map_some]
  · rw [TextMap.entries_ofList_filter fun key => q (some key), Value.toDocument,
      Value.fieldDocuments_eq_map, Value.fieldDocuments_eq_map, List.filter_map]
    rfl

theorem Respelled.exists_field {key : Option String} {part : Document}
    {fields' : List (Option String × Document)}
    (h : Respelled (.obj [(key, part)]) (.obj fields')) :
    ∃ k part', key = some k ∧ fields' = [(some k, part')] ∧ Respelled part part' := by
  obtain ⟨v, hv, hfields'⟩ := h
  obtain ⟨es, hes, rfl⟩ := Document.exists_keyed_of_value? hv
  cases hes with
  | @cons _ e _ _ hhead hrest =>
      cases hrest
      exact ⟨e.1, _, hhead.1, (Document.obj.inj hfields').symm, e.2, hhead.2, rfl⟩

theorem rel_respelled {part : Option Document} {v : Option Value}
    (h : Option.Rel (fun part v => part.value? = some v) part v) :
    Option.Rel Respelled part (v.map Value.toDocument) := by
  cases h with
  | none => exact .none
  | some hv => exact .some ⟨_, hv, rfl⟩

theorem Respelled.null_iff (h : Respelled d d') : d' = .null ↔ d = .null := by
  obtain ⟨v, hv, rfl⟩ := h
  constructor
  · intro hnull
    obtain rfl : v = .null := by
      cases v with
      | null => rfl
      | _ => cases hnull
    cases d with
    | null => rfl
    | arr items =>
        obtain ⟨vs, -, hvs⟩ := Option.map_eq_some_iff.1 hv
        cases hvs
    | obj fields =>
        obtain ⟨es, -, hes⟩ := Option.map_eq_some_iff.1 hv
        cases hes
    | _ => cases hv
  · rintro rfl
    cases hv
    rfl

/-! ## Values of what is written -/

/-- The value of an object that is written holds the values of what is written under
its keys. -/
theorem Value.rel_part? {fs : List (String × Value)} {v : Value}
    (hnodup : (fs.map Prod.fst).Nodup) (hv : (Value.obj fs).toDocument.value? = some v)
    (key : String) :
    Option.Rel (fun part v => part.toDocument.value? = some v) ((Value.obj fs).part? key)
      (v.part? key) := by
  rw [Value.toDocument] at hv
  obtain ⟨es, hes, rfl⟩ := Document.exists_keyed_of_value? hv
  have hrel := hes.rel_get? key
  rw [Value.fieldDocuments_eq_map, ← List.map_reverse, lookup_map_some,
    TextMap.lookup_reverse hnodup] at hrel
  rw [Value.part?, Value.part?, ← TextMap.get?]
  cases hpart : fs.lookup key with
  | none =>
      rw [hpart] at hrel
      rw [eq_none_of_rel_none hrel]
      exact .none
  | some part =>
      rw [hpart] at hrel
      obtain ⟨w, hget, hw⟩ := exists_of_rel_some hrel
      rw [hget]
      exact .some hw

theorem Value.exists_part? {fs : List (String × Value)} {v w : Value} {key : String}
    (hnodup : (fs.map Prod.fst).Nodup) (hv : (Value.obj fs).toDocument.value? = some v)
    (hpart : (Value.obj fs).part? key = some w) :
    ∃ w', v.part? key = some w' ∧ w.toDocument.value? = some w' :=
  exists_of_rel_some (hpart ▸ Value.rel_part? hnodup hv key)

theorem Value.exists_part?_ofMap {write : α → Value} {map : TextMap α} {v : Value} {a : α}
    {key : String} (hv : (Value.ofMap write map).toDocument.value? = some v)
    (ha : map.get? key = some a) :
    ∃ w, v.part? key = some w ∧ (write a).toDocument.value? = some w := by
  refine Value.exists_part? ?_ hv ?_
  · rw [List.map_map]
    exact map.nodup_keys
  · have hpart := Value.part?_ofMap write map key
    rwa [ha] at hpart

/-- The value of a record that keeps what the document has keeps it, too. -/
theorem KeepsBeside.of_value? {names : List String} {written v : Value}
    (h : KeepsBeside names d written) (hv : written.toDocument.value? = some v) :
    KeepsBeside names d v := by
  obtain ⟨fs, rfl, hnodup⟩ := h.object
  have hparts := Value.rel_part? hnodup hv
  refine ⟨?_, fun key hkey => ?_, fun key hkey => ?_⟩
  · obtain ⟨es, -, rfl⟩ := Document.exists_keyed_of_value? hv
    exact ⟨_, rfl, (TextMap.ofList es).nodup_keys⟩
  · obtain ⟨w, hw⟩ := h.known key hkey
    obtain ⟨w', hw', -⟩ := Value.exists_part? hnodup hv hw
    exact ⟨w', hw'⟩
  · refine rel_trans (fun part w w' hw hw' => ?_) (h.others key hkey) (hparts key)
    rw [Document.held_of_value? hw, Option.some.injEq] at hw'
    exact hw' ▸ hw

theorem KeepsBeside.exists_part? {names : List String} {written v w : Value} {key : String}
    (h : KeepsBeside names d written) (hv : written.toDocument.value? = some v)
    (hpart : written.part? key = some w) :
    ∃ w', v.part? key = some w' ∧ w.toDocument.value? = some w' := by
  obtain ⟨fs, rfl, hnodup⟩ := h.object
  exact Value.exists_part? hnodup hv hpart

/-! ## Parts -/

namespace Decoder

variable {read : Decoder ε α}

/-- What is read of a document is read of the one that spells its value. -/
def Steady (read : Decoder ε α) : Prop :=
  ∀ d d' a, Respelled d d' → read d = .ok a → read d' = .ok a

theorem Steady.text : (text : Decoder ε String).Steady := by
  rintro d _ a ⟨v, hv, rfl⟩ h
  cases d with
  | str s =>
      cases hv
      exact h
  | _ => cases h

theorem Steady.bool : (bool : Decoder ε Bool).Steady := by
  rintro d _ a ⟨v, hv, rfl⟩ h
  cases d with
  | bool b =>
      cases hv
      exact h
  | _ => cases h

theorem Steady.intIn (least greatest : Int) : (intIn least greatest : Decoder ε Int).Steady := by
  rintro d _ a ⟨v, hv, rfl⟩ h
  cases d with
  | int n =>
      cases hv
      exact h
  | _ => cases h

theorem Steady.value : (value : Decoder ε Value).Steady := by
  rintro d _ a ⟨v, hv, rfl⟩ h
  rw [value_eq_ok_iff, hv, Option.some.injEq] at h
  rw [← h, value_eq_ok_iff]
  exact Document.held_of_value? hv

theorem optional_of_ne_null (h : d ≠ .null) : optional read d = (read d).map some := by
  rw [optional]
  exact h

theorem optional_imp {read' : Decoder ε α} {a : Option α} (hnull : d' = .null ↔ d = .null)
    (hread : ∀ b, read d = .ok b → read' d' = .ok b) (h : optional read d = .ok a) :
    optional read' d' = .ok a := by
  by_cases hd : d = .null
  · rw [hnull.2 hd]
    rw [hd] at h
    exact h
  · rw [optional_of_ne_null hd] at h
    rw [optional_of_ne_null fun hd' => hd (hnull.1 hd')]
    cases hpart : read d with
    | error e =>
        rw [hpart] at h
        cases h
    | ok b => rw [hread b hpart, ← h, hpart]

theorem Steady.optional (hread : read.Steady) : (optional read).Steady :=
  fun d d' _ hd => optional_imp hd.null_iff fun b => hread d d' b hd

theorem Steady.list (hread : read.Steady) : (list read).Steady := by
  intro d d' as hd h
  obtain ⟨items, rfl, hitems⟩ := list_eq_ok_iff.1 h
  obtain ⟨vs, hvs, rfl⟩ := hd.exists_items
  refine list_eq_ok_iff.2 ⟨_, rfl, ?_⟩
  rw [List.forall₂_map_left_iff]
  clear hd h
  induction hvs generalizing as with
  | nil =>
      cases hitems
      exact .nil
  | @cons d v items vs hv _ ih =>
      cases hitems with
      | cons ha hitems => exact .cons (hread d _ _ ⟨v, hv, rfl⟩ ha) (ih _ hitems)

theorem entries_of_keyed {es : List (String × α)}
    (h : Keyed (fun d a => read d = .ok a) fields es) : entries read fields = .ok es := by
  induction h with
  | nil => rfl
  | @cons f e fields es hhead _ ih =>
      obtain ⟨key, d⟩ := f
      obtain ⟨hkey, hread⟩ := hhead
      obtain rfl : key = some e.1 := hkey
      rw [entries, hread, ih]
      rfl

theorem Steady.map (hread : read.Steady) : (map read).Steady := by
  intro d d' m hd h
  cases d with
  | obj fields =>
      obtain ⟨values, rfl, hvalues⟩ := hd.exists_map
      have hrel : ∀ key, Option.Rel (fun v a => read v.toDocument = .ok a) (values.get? key)
          (m.get? key) := fun key => rel_of_rel
        (fun part v a hv ha => hread part _ a ⟨v, hv, rfl⟩ ha) (hvalues key)
        (rel_get?_of_map h key)
      have hentries : entries read (Value.fieldDocuments values.entries) = .ok m.entries := by
        refine entries_of_keyed ?_
        rw [Value.fieldDocuments_eq_map, Keyed, List.forall₂_map_left_iff]
        exact (TextMap.forall₂_of_rel_get? hrel).imp fun e f h => ⟨congrArg some h.1, h.2⟩
      rw [Value.toDocument, Decoder.map, hentries]
      exact congrArg Except.ok m.ofList_entries
  | _ => cases h

theorem Steady.ite {read' : Decoder ε α} {c : Prop} [Decidable c] (hread : read.Steady)
    (hread' : read'.Steady) : Decoder.Steady fun d => if c then read d else read' d := by
  by_cases hc : c
  · simpa only [if_pos hc] using hread
  · simpa only [if_neg hc] using hread'

theorem oneOf_obj_eq_ok_iff {isEmpty : Document → Bool} {names : List (String × α)} {key : String}
    {part : Document} {a : α} :
    (oneOf isEmpty names : Decoder ε α) (.obj [(some key, part)]) = .ok a ↔
      isEmpty part = true ∧ names.lookup key = some a := by
  rw [oneOf, ofOption]
  cases hempty : isEmpty part with
  | false => simp [hempty]
  | true => cases hname : names.lookup key <;> simp [hempty, hname]

/-- Names are read again if what counts as empty still does when it is respelled. -/
theorem Steady.oneOf {isEmpty : Document → Bool} (names : List (String × α))
    (hempty : ∀ d d', Respelled d d' → isEmpty d = true → isEmpty d' = true) :
    (oneOf isEmpty names : Decoder ε α).Steady := by
  intro d d' a hd h
  cases d with
  | str s =>
      obtain ⟨v, hv, rfl⟩ := hd
      cases hv
      exact h
  | obj fields =>
      match fields, h with
      | [(some key, part)], h =>
          obtain ⟨hpart, hname⟩ := oneOf_obj_eq_ok_iff.1 h
          obtain ⟨map, rfl, -⟩ := hd.exists_map
          obtain ⟨k, part', hkey, hfields, hrespelled⟩ := hd.exists_field
          obtain rfl : key = k := Option.some.inj hkey
          rw [Value.toDocument, hfields]
          exact oneOf_obj_eq_ok_iff.2 ⟨hempty part part' hrespelled hpart, hname⟩
  | _ => cases h

end Decoder

/-! ## Records -/

namespace Record

variable {names : List String} {undeclared : Undeclared} {place : Nat} {r r' : Record}
  {known unknown : List (String × Nat × Document)} {es es' : List (String × Value)} {a : α}
  {name : String} {extra : TextMap Value}

/-- The second record has, under the declared names, what spells the parts of the first,
and it keeps the same others. -/
structure SameParts (names : List String) (r r' : Record) : Prop where
  known : ∀ name ∈ names, Option.Rel Respelled ((r.known.lookup name).map Prod.snd)
    ((r'.known.lookup name).map Prod.snd)
  others : ∀ {ε : Type} {extra}, r.others = (.good extra : Fields ε _) →
    r'.others = (.good extra : Fields ε _)

theorem unknown_collect_skip (fields : List (Option String × Document)) :
    (collect names .skip place known unknown fields).unknown = unknown := by
  induction fields generalizing place known with
  | nil => rfl
  | cons f fields ih =>
      obtain ⟨key, d⟩ := f
      cases key with
      | none => rfl
      | some k =>
          simp only [collect]
          split
          · split
            · rfl
            · exact ih
          · split
            · exact ih
            · rfl

theorem Beside.get?_eq_none (h : Beside names extra) {key : String} (hkey : key ∈ names) :
    extra.get? key = none :=
  Option.eq_none_iff_forall_ne_some.2 fun v hv =>
    h.undeclared (key, v) (extra.mem_entries_iff.2 hv) hkey

/-- What an open record keeps depends on what is held under the other keys alone. -/
theorem others_eq_of_opens {d d' : Document} (h : r.Opens names d) (h' : r'.Opens names d')
    (hparts : ∀ key ∉ names, Option.Rel Respelled (d.part? key) (d'.part? key))
    (hothers : r.others = (.good extra : Fields ε _))
    (hgood : ∃ extra', r'.others = (.good extra' : Fields ε _)) :
    r'.others = (.good extra : Fields ε _) := by
  obtain ⟨extra', hothers'⟩ := hgood
  obtain ⟨hbeside, hextra⟩ := h.others hothers
  obtain ⟨hbeside', hextra'⟩ := h'.others hothers'
  rw [hothers']
  refine congrArg _ (TextMap.eq_of_get?_eq fun key => ?_)
  by_cases hkey : key ∈ names
  · rw [hbeside.get?_eq_none hkey, hbeside'.get?_eq_none hkey]
  · have hvalues := rel_of_rel (T := fun v part' => part'.value? = some v)
      (fun part v part' hv hpart => by
        obtain ⟨w, hw, rfl⟩ := hpart
        rw [← hv, hw, Document.held_of_value? hw])
      (hextra key hkey) (hparts key hkey)
    exact (eq_of_rel (rel_trans (fun v part' v' hv hv' =>
      Option.some.inj (hv.symm.trans hv')) hvalues (hextra' key hkey))).symm

/-- Fields in another order, and only the last with each key, give the same parts. -/
theorem sameParts_collect (hundeclared : undeclared ≠ .reject)
    (hflaw : (collect names undeclared 0 [] [] fields).flaw = none)
    (hfields : Keyed (fun d v => d.value? = some v) fields es)
    (hnodup : (es'.map Prod.fst).Nodup)
    (hsame : ∀ key, es'.lookup key = (TextMap.ofList es).get? key) :
    (collect names undeclared 0 [] [] (Value.fieldDocuments es')).flaw = none ∧
      SameParts names (collect names undeclared 0 [] [] fields)
        (collect names undeclared 0 [] [] (Value.fieldDocuments es')) := by
  have hflaw' : (collect names undeclared 0 [] [] (Value.fieldDocuments es')).flaw = none :=
    flaw_collect_eq_none (fun _ _ => .inr hundeclared) hnodup fun _ _ => List.lookup_nil
  have hparts : ∀ key, Option.Rel Respelled (fields.reverse.lookup (some key))
      ((Value.fieldDocuments es').reverse.lookup (some key)) := by
    intro key
    rw [Value.fieldDocuments_eq_map, ← List.map_reverse, lookup_map_some,
      TextMap.lookup_reverse hnodup, hsame]
    exact rel_respelled (hfields.rel_get? key)
  refine ⟨hflaw', fun name hname => ?_, fun {ε extra} hothers => ?_⟩
  · rw [lookup_collect hflaw hname, lookup_collect hflaw' hname]
    exact hparts name
  · cases undeclared with
    | reject => exact absurd rfl hundeclared
    | skip => rwa [others, unknown_collect_skip] at hothers ⊢
    | keep =>
        refine others_eq_of_opens (opens_collect hflaw) (opens_collect hflaw')
          (fun key _ => hparts key) hothers ?_
        obtain ⟨-, -, hunknown⟩ := collect_of_flaw_eq_none hflaw' List.nodup_nil
        have hheld : ∀ e ∈ es', e.2.Held := by
          intro e he
          rw [← TextMap.lookup_eq_some_iff_mem hnodup, hsame, ← TextMap.mem_entries_iff] at he
          obtain ⟨f, -, -, hf⟩ := exists_of_forall₂ hfields (TextMap.mem_of_mem_ofList he)
          exact Document.held_of_value? hf
        refine ⟨_, others_eq_good_iff.2
          ⟨es'.filter fun e => !declares names (some e.1, e.2.toDocument), ?_, rfl⟩⟩
        rw [hunknown rfl, List.map_nil, List.nil_append, Value.fieldDocuments_eq_map,
          List.filter_map, Keyed, List.forall₂_map_left_iff]
        exact List.forall₂_same.2 fun e he => ⟨rfl, hheld e (List.mem_filter.1 he).1⟩

/-- What is read of a record is read of each record that has the same parts. -/
def Steady (names : List String) (read : Record → Fields ε α) : Prop :=
  ∀ r r' a, SameParts names r r' → read r = .good a → read r' = .good a

theorem key_ne_none (hflaw : (collect names undeclared place known unknown fields).flaw = none) :
    ∀ f ∈ fields, f.1 ≠ none := by
  induction fields generalizing place known unknown with
  | nil => simp
  | cons f fields ih =>
      obtain ⟨key, d⟩ := f
      obtain ⟨k, rfl, hcases⟩ := collect_cons hflaw
      refine List.forall_mem_cons.2 ⟨nofun, ?_⟩
      rcases hcases with ⟨-, -, hnext⟩ | ⟨-, -, hnext⟩ | ⟨-, -, hnext⟩
      all_goals
        rw [hnext] at hflaw
        exact ih hflaw

theorem keys_zip_sublist (names : List String) (vs : List Value) :
    ((names.zip vs).map Prod.fst).Sublist names := by
  induction names generalizing vs with
  | nil => exact List.nil_sublist _
  | cons name names ih =>
      cases vs with
      | nil => exact List.nil_sublist _
      | cons v vs => exact (ih vs).cons_cons name

/-- Items by position, if there are not too many, are fields again when respelled. -/
theorem keyed_byPosition {vs : List Value}
    (hvs : List.Forall₂ (fun d v => d.value? = some v) items vs)
    (hkeys : ∀ f ∈ byPosition names items, f.1 ≠ none) :
    Keyed (fun d v => d.value? = some v) (byPosition names items) (names.zip vs) ∧
      byPosition names (vs.map Value.toDocument) = Value.fieldDocuments (names.zip vs) := by
  induction hvs generalizing names with
  | nil => cases names <;> exact ⟨.nil, rfl⟩
  | cons hv _ ih =>
      cases names with
      | nil => exact absurd rfl (hkeys _ List.mem_cons_self)
      | cons name names =>
          obtain ⟨hkeyed, hfields⟩ := ih (List.forall_mem_cons.1 hkeys).2
          exact ⟨.cons ⟨rfl, hv⟩ hkeyed, congrArg _ hfields⟩

theorem steady_decodeOpen {read : Record → Fields ε α} (hread : Steady names read) :
    (decodeOpen names read).Steady := by
  rintro d _ a ⟨v, hv, rfl⟩ h
  cases d with
  | obj fields =>
      obtain ⟨hgood, hflaw⟩ := finish_eq_ok_iff.1 h
      obtain ⟨es, hes, rfl⟩ := Document.exists_keyed_of_value? hv
      have hkeep : Undeclared.keep ≠ .reject := nofun
      obtain ⟨hflaw', hsame⟩ := sameParts_collect hkeep hflaw hes
        (TextMap.ofList es).nodup_keys fun _ => rfl
      exact finish_eq_ok_iff.2 ⟨hread _ _ a hsame hgood, hflaw'⟩
  | _ => cases h

theorem steady_decode {read : Record → Fields ε α} (hnames : names.Nodup)
    (hundeclared : undeclared ≠ .reject) (hread : Steady names read) :
    (decode names undeclared read).Steady := by
  rintro d d' a hd h
  cases d with
  | obj fields =>
      obtain ⟨v, hv, rfl⟩ := hd
      obtain ⟨hgood, hflaw⟩ := finish_eq_ok_iff.1 h
      obtain ⟨es, hes, rfl⟩ := Document.exists_keyed_of_value? hv
      obtain ⟨hflaw', hsame⟩ := sameParts_collect hundeclared hflaw hes
        (TextMap.ofList es).nodup_keys fun _ => rfl
      exact finish_eq_ok_iff.2 ⟨hread _ _ a hsame hgood, hflaw'⟩
  | arr items =>
      obtain ⟨hgood, hflaw⟩ := finish_eq_ok_iff.1 h
      obtain ⟨vs, hvs, rfl⟩ := hd.exists_items
      obtain ⟨hes, hfields⟩ := keyed_byPosition hvs (key_ne_none hflaw)
      have hnodup := (keys_zip_sublist names vs).nodup hnames
      obtain ⟨hflaw', hsame⟩ := sameParts_collect hundeclared hflaw hes hnodup fun key => by
        rw [TextMap.get?_ofList, TextMap.lookup_reverse hnodup]
      rw [decode, ofFields, hfields, finish_eq_ok_iff]
      exact ⟨hread _ _ a hsame hgood, hflaw'⟩
  | _ => cases h

section Fields

variable {β : Type} {g : Record → Fields ε (α → β)} {x : Record → Fields ε α} {f : α → β}
  {read : Decoder ε α}

theorem Steady.map (hx : Steady names x) : Steady names fun r => f <$> x r := by
  intro r r' b hsame h
  obtain ⟨a, ha, rfl⟩ := Fields.map_eq_good.1 h
  exact Fields.map_eq_good.2 ⟨a, hx r r' a hsame ha, rfl⟩

theorem Steady.seq (hg : Steady names g) (hx : Steady names x) :
    Steady names fun r => g r <*> x r := by
  intro r r' b hsame h
  obtain ⟨f, a, hf, ha, rfl⟩ := Fields.seq_eq_good.1 h
  exact Fields.seq_eq_good.2 ⟨f, a, hg r r' f hsame hf, hx r r' a hsame ha, rfl⟩

theorem SameParts.lookup (h : SameParts names r r') (hname : name ∈ names) {p : Nat} {d : Document}
    (hlookup : r.known.lookup name = some (p, d)) :
    ∃ p' d', r'.known.lookup name = some (p', d') ∧ Respelled d d' := by
  have hrel := h.known name hname
  rw [hlookup] at hrel
  obtain ⟨_, hpart, hrespelled⟩ := exists_of_rel_some hrel
  obtain ⟨⟨p', d'⟩, hlookup', rfl⟩ := Option.map_eq_some_iff.1 hpart
  exact ⟨p', d', hlookup', hrespelled⟩

theorem SameParts.lookup_none (h : SameParts names r r') (hname : name ∈ names)
    (hlookup : r.known.lookup name = none) : r'.known.lookup name = none := by
  have hrel := h.known name hname
  rw [hlookup] at hrel
  exact Option.map_eq_none_iff.1 (eq_none_of_rel_none hrel)

theorem Steady.required (hname : name ∈ names) (hread : read.Steady) :
    Steady names fun r => r.required name read := by
  intro r r' a hsame h
  obtain ⟨p, d, hlookup, hd⟩ := required_eq_good h
  obtain ⟨p', d', hlookup', hrespelled⟩ := hsame.lookup hname hlookup
  show r'.required name read = .good a
  rw [Record.required, hlookup']
  exact Fields.ofExcept_eq_good.2 (hread d d' a hrespelled hd)

theorem Steady.optionalWith {default : α} (hname : name ∈ names) (hread : read.Steady) :
    Steady names fun r => r.optionalWith name default read := by
  intro r r' a hsame h
  show r'.optionalWith name default read = .good a
  rcases optionalWith_eq_good h with ⟨hlookup, rfl⟩ | ⟨p, d, hlookup, hd⟩
  · rw [Record.optionalWith, hsame.lookup_none hname hlookup]
  · obtain ⟨p', d', hlookup', hrespelled⟩ := hsame.lookup hname hlookup
    rw [Record.optionalWith, hlookup']
    exact Fields.ofExcept_eq_good.2 (hread d d' a hrespelled hd)

theorem Steady.optional (hname : name ∈ names) (hread : read.Steady) :
    Steady names fun r => r.optional name read :=
  .optionalWith hname hread.optional

/-- An optional part may be read in another way that reads it the same. -/
theorem optional_imp {read' : Decoder ε α} {a : Option α} (h : r.optional name read = .good a)
    (hread : ∀ p part b, r.known.lookup name = some (p, part) → read part = .ok b →
      read' part = .ok b) : r.optional name read' = .good a := by
  rcases optionalWith_eq_good h with ⟨hlookup, rfl⟩ | ⟨p, part, hlookup, hpart⟩
  · rw [Record.optional, Record.optionalWith, hlookup]
  · rw [Record.optional, Record.optionalWith, hlookup]
    exact Fields.ofExcept_eq_good.2
      (Decoder.optional_imp Iff.rfl (fun b => hread p part b hlookup) hpart)

theorem Steady.others : Steady names fun r => (r.others : Fields ε (TextMap Value)) :=
  fun _ _ _ hsame h => hsame.others h

end Fields

end Record

end SolidityBuild.Json
