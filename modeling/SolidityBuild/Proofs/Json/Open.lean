import SolidityBuild.Proofs.Json.Record

/-!
Records that keep the fields they do not declare. What such a record keeps are
values by key, the later of two with one key, and it is written as an object with
its own fields in front of the ones it kept. So what is written holds, beside the
declared keys, what the document held that was read.
-/

namespace SolidityBuild.Json

variable {ε α : Type}

theorem Decoder.value_eq_ok_iff {d : Document} {v : Value} :
    (Decoder.value : Decoder ε Value) d = .ok v ↔ d.value? = some v := by
  rw [Decoder.value, Decoder.ofOption]
  cases d.value? <;> simp

/-- The value is an object without duplicate keys that has the known keys and,
beside them, the keys of the document, each with the value that the document holds
under it. -/
structure KeepsBeside (names : List String) (before : Document) (after : Value) : Prop where
  object : ∃ fields, after = .obj fields ∧ (fields.map Prod.fst).Nodup
  known : ∀ key ∈ names, ∃ v, after.part? key = some v
  others : ∀ key ∉ names,
    Option.Rel (fun part v => part.value? = some v) (before.part? key) (after.part? key)

theorem KeepsBeside.part?_eq {names : List String} {before part : Document} {after v : Value}
    {key : String} (h : KeepsBeside names before after) (hkey : key ∉ names)
    (hpart : before.part? key = some part) (hv : part.value? = some v) :
    after.part? key = some v := by
  have hrel := h.others key hkey
  rw [hpart] at hrel
  obtain ⟨w, hafter, hw⟩ := exists_of_rel_some hrel
  rw [hafter, ← hv, hw]

namespace Record

variable {names : List String} {undeclared : Undeclared} {place : Nat} {r : Record}
  {known unknown : List (String × Nat × Document)} {fields : List (Option String × Document)}
  {fs : List (String × Value)} {extra : TextMap Value} {d : Document} {a : α}

theorem others_eq_good_iff {m : TextMap Value} :
    (r.others : Fields ε _) = .good m ↔ ∃ entries,
      Keyed (fun d v => d.value? = some v) (r.unknown.map unplaced) entries ∧
        TextMap.ofList entries = m := by
  rw [others, Fields.map_eq_good]
  refine exists_congr fun entries => and_congr_left' ?_
  induction r.unknown generalizing entries with
  | nil => cases entries <;> simp [Keyed, pure]
  | cons f unknown ih =>
      obtain ⟨key, place, d⟩ := f
      rw [List.foldr_cons, List.map_cons, Fields.seq_eq_good]
      constructor
      · rintro ⟨_, rest, hhead, hrest, rfl⟩
        obtain ⟨v, hv, rfl⟩ := Fields.map_eq_good.1 hhead
        exact keyed_cons_iff.2 ⟨⟨rfl, Decoder.value_eq_ok_iff.1 (Fields.ofExcept_eq_good.1 hv)⟩,
          (ih rest).1 hrest⟩
      · intro h
        cases entries with
        | nil => cases h
        | cons e entries =>
            obtain ⟨⟨hkey, hv⟩, hrest⟩ := keyed_cons_iff.1 h
            refine ⟨_, entries, Fields.map_eq_good.2 ⟨e.2, Fields.ofExcept_eq_good.2
              (Decoder.value_eq_ok_iff.2 hv), rfl⟩, (ih entries).2 hrest, ?_⟩
            obtain rfl : key = e.1 := Option.some.inj hkey
            rfl

/-- What a record keeps beside the fields that it declares. -/
structure Beside (names : List String) (extra : TextMap Value) : Prop where
  undeclared : ∀ e ∈ extra.entries, e.1 ∉ names
  held : ∀ e ∈ extra.entries, e.2.Held

/-- The record was taken from an object: under its names it has what the object
holds there, and it keeps what the object holds under all other keys. -/
structure Opens (r : Record) (names : List String) (d : Document) : Prop where
  declared : ∀ key ∈ names, (r.known.lookup key).map Prod.snd = d.part? key
  others : ∀ {ε : Type} {extra}, (r.others : Fields ε _) = .good extra → Beside names extra ∧
    ∀ key ∉ names, Option.Rel (fun part v => part.value? = some v) (d.part? key) (extra.get? key)

theorem opens_collect (hflaw : (collect names .keep 0 [] [] fields).flaw = none) :
    (collect names .keep 0 [] [] fields).Opens names (.obj fields) := by
  refine ⟨fun key hkey => lookup_collect hflaw hkey, fun {ε extra} hextra => ?_⟩
  obtain ⟨-, -, hunknown⟩ := collect_of_flaw_eq_none hflaw List.nodup_nil
  obtain ⟨entries, hentries, rfl⟩ := others_eq_good_iff.1 hextra
  rw [hunknown rfl, List.map_nil, List.nil_append] at hentries
  refine ⟨⟨fun e he hmem => ?_, fun e he => ?_⟩, fun key hkey => ?_⟩
  · obtain ⟨f, hf, hname, -⟩ := exists_of_forall₂ hentries (TextMap.mem_of_mem_ofList he)
    obtain ⟨key, d⟩ := f
    obtain rfl : key = some e.1 := hname
    have hdeclares : declares names (some e.1, d) = true := decide_eq_true hmem
    simpa [hdeclares] using (List.mem_filter.1 hf).2
  · obtain ⟨f, -, -, hv⟩ := exists_of_forall₂ hentries (TextMap.mem_of_mem_ofList he)
    exact Document.held_of_value? hv
  · have hrel := hentries.rel_get? key
    rwa [← List.filter_reverse, lookup_undeclared _ hkey] at hrel

/-- What is read of an open record is taken from an object. -/
theorem opens_of_decodeOpen {read : Record → Fields ε α} (h : decodeOpen names read d = .ok a) :
    ∃ r : Record, r.Opens names d ∧ read r = .good a := by
  cases d with
  | obj fields =>
      obtain ⟨hread, hflaw⟩ := finish_eq_ok_iff.1 h
      exact ⟨_, opens_collect hflaw, hread⟩
  | _ => cases h

theorem Beside.nodup_keys (h : Beside names extra) (hnames : fs.map Prod.fst = names)
    (hnodup : names.Nodup) : ((fs ++ extra.entries).map Prod.fst).Nodup := by
  rw [List.map_append, hnames, List.nodup_append]
  refine ⟨hnodup, extra.nodup_keys, fun key hkey key' hkey' heq => ?_⟩
  obtain ⟨e, he, rfl⟩ := List.mem_map.1 hkey'
  exact h.undeclared e he (heq ▸ hkey)

/-- What is written of an open record has the known keys and what was kept. -/
theorem Opens.keepsBeside (h : r.Opens names d) (fs : List (String × Value))
    (hextra : r.others = (.good extra : Fields ε _))
    (hnames : fs.map Prod.fst = names) (hnodup : names.Nodup) :
    KeepsBeside names d (.obj (fs ++ extra.entries)) := by
  obtain ⟨hbeside, hothers⟩ := h.others hextra
  refine ⟨⟨_, rfl, hbeside.nodup_keys hnames hnodup⟩, fun key hkey => ?_, fun key hkey => ?_⟩
  · obtain ⟨f, hf, rfl⟩ := List.mem_map.1 (hnames ▸ hkey)
    refine ⟨f.2, (TextMap.lookup_eq_some_iff_mem (hbeside.nodup_keys hnames hnodup)).2 ?_⟩
    exact List.mem_append_left _ hf
  · have hfs : fs.lookup key = none := List.lookup_eq_none_iff.2 fun f hf => by
      have hne : key ≠ f.1 := by
        rintro rfl
        exact hkey (hnames ▸ List.mem_map_of_mem hf)
      simpa using hne
    have hpart : (Value.obj (fs ++ extra.entries)).part? key = extra.get? key := by
      rw [Value.part?, List.lookup_append, hfs, Option.none_or, TextMap.get?]
    rw [hpart]
    exact hothers key hkey

/-- The fields of an open record that is written are told apart again. -/
theorem filter_declares {es : List (String × Value)}
    (hfs : ∀ f ∈ fs, declares names (some f.1, f.2.toDocument) = true)
    (hes : ∀ e ∈ es, declares names (some e.1, e.2.toDocument) = false) :
    (Value.fieldDocuments (fs ++ es)).filter (declares names) =
        fs.map (fun f => (some f.1, f.2.toDocument)) ∧
      ((Value.fieldDocuments (fs ++ es)).filter fun f => !declares names f) =
        es.map fun e => (some e.1, e.2.toDocument) := by
  rw [Value.fieldDocuments_eq_map, List.map_append, List.filter_append, List.filter_append]
  constructor
  · rw [List.filter_eq_self.2 (List.forall_mem_map.2 hfs),
      List.filter_eq_nil_iff.2 (List.forall_mem_map.2 fun e he => by simp [hes e he]),
      List.append_nil]
  · rw [List.filter_eq_nil_iff.2 (List.forall_mem_map.2 fun f hf => by simp [hfs f hf]),
      List.filter_eq_self.2 (List.forall_mem_map.2 fun e he => by simp [hes e he]),
      List.nil_append]

/-- An open record is written with its own fields in front of what it keeps, and
read back if each of its own fields is. -/
theorem decodeOpen_obj {read : Record → Fields ε α} (fs : List (String × Value))
    (hnames : fs.map Prod.fst = names)
    (hnodup : names.Nodup) (hextra : Beside names extra)
    (hread : ∀ r : Record, r.Holds fs → r.others = (.good extra : Fields ε _) → read r = .good a) :
    decodeOpen names read (Value.obj (fs ++ extra.entries)).toDocument = .ok a := by
  have hkeys := hextra.nodup_keys hnames hnodup
  have hflaw : (collect names .keep 0 [] []
      (Value.fieldDocuments (fs ++ extra.entries))).flaw = none :=
    flaw_collect_eq_none (fun _ _ => .inr nofun) hkeys fun _ _ => List.lookup_nil
  obtain ⟨-, hknown, hunknown⟩ := collect_of_flaw_eq_none hflaw List.nodup_nil
  have hown : ∀ f ∈ fs, declares names (some f.1, f.2.toDocument) = true := fun f hf =>
    decide_eq_true (hnames ▸ List.mem_map_of_mem hf)
  have hkept : ∀ e ∈ extra.entries, declares names (some e.1, e.2.toDocument) = false :=
    fun e he => decide_eq_false (hextra.undeclared e he)
  obtain ⟨hfields, hothers⟩ := filter_declares hown hkept
  rw [Value.toDocument, decodeOpen, ofFields, finish_eq_ok_iff]
  refine ⟨hread _ ⟨hflaw, fun key => ?_⟩ ?_, hflaw⟩
  · rw [← lookup_map_some Prod.snd, ← lookup_map_some Value.toDocument, ← hfields]
    exact congrArg _ hknown
  · refine others_eq_good_iff.2 ⟨extra.entries, ?_, extra.ofList_entries⟩
    rw [hunknown rfl, hothers, List.map_nil, List.nil_append, Keyed, List.forall₂_map_left_iff,
      List.forall₂_same]
    exact fun e he => ⟨rfl, hextra.held e he⟩

end Record

end SolidityBuild.Json
