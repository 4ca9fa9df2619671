import Mathlib.Data.List.Forall2
import SolidityBuild.Proofs.Json.Sorting

/-!
Records as they are read and as they are written. A record that is read takes
each of its fields from a part of the document; a record that is written holds
each field under its key, so that reading it gives the same fields again.
-/

namespace SolidityBuild.Json

variable {ε α β : Type}

theorem exists_of_forall₂ {R : α → β → Prop} {as : List α} {bs : List β} {b : β}
    (h : List.Forall₂ R as bs) (hb : b ∈ bs) : ∃ a ∈ as, R a b := by
  induction h with
  | nil => cases hb
  | @cons a b' as bs hab _ ih =>
      rcases List.mem_cons.1 hb with rfl | hb
      · exact ⟨a, List.mem_cons_self, hab⟩
      · obtain ⟨a', ha', hR⟩ := ih hb
        exact ⟨a', List.mem_cons_of_mem a ha', hR⟩

namespace Fields

variable {x : Fields ε α} {g : Fields ε (α → β)} {f : α → β} {b : β}

theorem seq_eq_good : g <*> x = good b ↔ ∃ f a, g = good f ∧ x = good a ∧ f a = b := by
  constructor
  · intro h
    cases g with
    | good f =>
        cases x with
        | good a => exact ⟨f, a, rfl, rfl, Fields.good.inj h⟩
        | bad p e => cases h
    | bad p e =>
        cases x with
        | good a => cases h
        | bad q e' =>
            have hbad : (if p ≤ q then bad p e else bad q e' : Fields ε β) = good b := h
            split at hbad <;> cases hbad
  · rintro ⟨f, a, rfl, rfl, rfl⟩
    rfl

theorem map_eq_good : f <$> x = good b ↔ ∃ a, x = good a ∧ f a = b := by
  have hseq : f <$> x = (good f : Fields ε (α → β)) <*> x := rfl
  rw [hseq, seq_eq_good]
  constructor
  · rintro ⟨_, a, hf, rfl, rfl⟩
    cases hf
    exact ⟨a, rfl, rfl⟩
  · rintro ⟨a, rfl, rfl⟩
    exact ⟨f, a, rfl, rfl, rfl⟩

theorem ofExcept_eq_good {place : Nat} {outcome : Except (Fault ε) α} {a : α} :
    ofExcept place outcome = good a ↔ outcome = .ok a := by
  cases outcome <;> simp [ofExcept]

end Fields

namespace Decoder

variable {read : Decoder ε α} {d : Document} {a : α} {as : List α}

theorem mapM_eq_ok_iff {items : List Document} :
    items.mapM read = .ok as ↔ List.Forall₂ (fun d a => read d = .ok a) items as := by
  induction items generalizing as with
  | nil => cases as <;> simp [pure, Except.pure]
  | cons d items ih =>
      rw [List.mapM_cons]
      cases hd : read d with
      | error e => cases as <;> simp [bind, Except.bind, hd]
      | ok a =>
          cases hitems : items.mapM read with
          | error e => cases as <;> simp [bind, Except.bind, ← ih, hitems, hd]
          | ok rest =>
              cases as <;> simp [bind, Except.bind, pure, Except.pure, ← ih, hitems, hd]

theorem list_eq_ok_iff :
    list read d = .ok as ↔
      ∃ items, d = .arr items ∧ List.Forall₂ (fun d a => read d = .ok a) items as := by
  constructor
  · intro h
    cases d with
    | arr items => exact ⟨items, rfl, mapM_eq_ok_iff.1 h⟩
    | _ => cases h
  · rintro ⟨items, rfl, h⟩
    exact mapM_eq_ok_iff.2 h

theorem intIn_eq_ok {least greatest n : Int}
    (h : (intIn least greatest : Decoder ε Int) d = .ok n) : least ≤ n ∧ n ≤ greatest := by
  cases d with
  | int m =>
      rw [intIn, ofOption] at h
      by_cases hm : least ≤ m ∧ m ≤ greatest
      · simp only [if_pos hm] at h
        exact Except.ok.inj h ▸ hm
      · simp only [if_neg hm] at h
        cases h
  | _ => cases h

theorem keyed_of_entries {fields : List (Option String × Document)} {es : List (String × α)}
    (h : entries read fields = .ok es) : Keyed (fun d a => read d = .ok a) fields es := by
  induction fields generalizing es with
  | nil =>
      cases h
      exact .nil
  | cons f fields ih =>
      obtain ⟨key, d⟩ := f
      cases key with
      | none => cases h
      | some k =>
          simp only [entries, bind, Except.bind] at h
          split at h
          next => cases h
          next a ha =>
            split at h
            next => cases h
            next rest hrest =>
              cases h
              exact keyed_cons_iff.2 ⟨⟨rfl, ha⟩, ih hrest⟩

/-- A map that is read holds under each key what is read of the part under that key. -/
theorem rel_get?_of_map {m : TextMap α} (h : map read d = .ok m) (key : String) :
    Option.Rel (fun part a => read part = .ok a) (d.part? key) (m.get? key) := by
  cases d with
  | obj fields =>
      rw [map] at h
      cases hfields : entries read fields with
      | error e => rw [hfields] at h; cases h
      | ok es =>
          rw [hfields] at h
          cases h
          exact (keyed_of_entries hfields).rel_get? key
  | _ => cases h

/-- Each value of a map that is read was read of a part. -/
theorem exists_of_map {m : TextMap α} (h : map read d = .ok m) {e : String × α}
    (he : e ∈ m.entries) : ∃ part, d.part? e.1 = some part ∧ read part = .ok e.2 := by
  have hrel := rel_get?_of_map h e.1
  rw [m.mem_entries_iff.1 he] at hrel
  cases hpart : d.part? e.1 with
  | none => rw [hpart] at hrel; cases hrel
  | some part =>
      rw [hpart] at hrel
      cases hrel with
      | some hread => exact ⟨part, rfl, hread⟩

theorem optional_list (h : list read d = .ok as) : optional (list read) d = .ok (some as) := by
  obtain ⟨items, rfl, -⟩ := list_eq_ok_iff.1 h
  rw [optional, h]
  · rfl
  · exact fun hnull => by cases hnull

/-- A written list is read as what each of its members is read as. -/
theorem list_map {bs : List β} {write : β → Value} (restore : β → α)
    (h : ∀ b ∈ bs, read (write b).toDocument = .ok (restore b)) :
    list read (Value.arr (bs.map write)).toDocument = .ok (bs.map restore) := by
  rw [list_eq_ok_iff, Value.toDocument_arr]
  refine ⟨_, rfl, ?_⟩
  rw [List.map_map, List.forall₂_map_left_iff, List.forall₂_map_right_iff, List.forall₂_same]
  exact h

/-- A list is read back if each of its members is. -/
theorem list_arr {write : α → Value} (h : ∀ a ∈ as, read (write a).toDocument = .ok a) :
    list read (Value.arr (as.map write)).toDocument = .ok as := by
  have hlist := list_map id h
  rwa [List.map_id] at hlist

/-- Entries are read back if the value of each of them is. -/
theorem entries_fieldDocuments {es : List (String × α)} {write : α → Value}
    (h : ∀ e ∈ es, read (write e.2).toDocument = .ok e.2) :
    entries read (Value.fieldDocuments (es.map fun e => (e.1, write e.2))) = .ok es := by
  induction es with
  | nil => rfl
  | cons e es ih =>
      obtain ⟨he, hes⟩ := List.forall_mem_cons.1 h
      rw [List.map_cons, Value.fieldDocuments, entries, he]
      simp only [bind, Except.bind, ih hes]
      rfl

/-- A written map is read back if each of its values is. -/
theorem map_ofMap {map : TextMap α} (write : α → Value)
    (h : ∀ e ∈ map.entries, read (write e.2).toDocument = .ok e.2) :
    Decoder.map read (Value.ofMap write map).toDocument = .ok map := by
  rw [Value.ofMap, Value.toDocument, Decoder.map, entries_fieldDocuments h]
  exact congrArg Except.ok map.ofList_entries

/-- An object does not stand for nothing. -/
theorem optional_obj {fields : List (String × Value)}
    (h : read (Value.obj fields).toDocument = .ok a) :
    optional read (Value.obj fields).toDocument = .ok (some a) := by
  rw [optional, h]
  · rfl
  · exact fun hnull => by cases hnull

theorem intIn_int {least greatest n : Int} (hleast : least ≤ n) (hgreatest : n ≤ greatest) :
    (intIn least greatest : Decoder ε Int) (Value.int n).toDocument = .ok n := by
  rw [Value.toDocument, intIn, ofOption]
  simp only [if_pos (And.intro hleast hgreatest)]

theorem uint64_int (n : UInt64) :
    (uint64 : Decoder ε UInt64) (Value.int n.toNat).toDocument = .ok n := by
  have hlt := n.toNat_lt_size
  rw [uint64, intIn_int (by omega) (by omega)]
  exact congrArg Except.ok UInt64.ofNat_toNat

theorem uint32_int (n : UInt32) :
    (uint32 : Decoder ε UInt32) (Value.int n.toNat).toDocument = .ok n := by
  have hlt := n.toNat_lt_size
  rw [uint32, intIn_int (by omega) (by omega)]
  exact congrArg Except.ok UInt32.ofNat_toNat

end Decoder

/-- A text that holds one document is decoded as the document is. -/
theorem Reading.decode_eq_ok {text : String} {d : Document} {a : α} {read : Decoder ε α}
    (htext : Json.read text = ⟨d, true⟩) (h : read d = .ok a) :
    (Json.read text).decode read = .ok a := by
  rw [htext, Reading.decode]
  simp only [bind, Except.bind, h]
  rfl

namespace Record

variable {names : List String} {undeclared : Undeclared} {place : Nat} {r : Record}
  {known unknown : List (String × Nat × Document)} {fields : List (Option String × Document)}
  {fs : List (String × Value)} {name key : String} {p : Nat} {d : Document} {a : α}
  {read : Decoder ε α}

/-! ## Records that are read -/

theorem mem_of_lookup_collect
    (h : (collect names undeclared place known unknown fields).known.lookup key = some (p, d)) :
    known.lookup key = some (p, d) ∨ (some key, d) ∈ fields := by
  induction fields generalizing place known unknown with
  | nil => exact .inl h
  | cons field fields ih =>
      obtain ⟨k, d'⟩ := field
      cases k with
      | none => exact .inl h
      | some k =>
          have hskip : ∀ {place known unknown},
              (collect names undeclared place known unknown fields).known.lookup key =
                some (p, d) → known.lookup key = some (p, d) ∨ (some key, d) ∈
                  (some k, d') :: fields :=
            fun h => (ih h).imp_right (List.mem_cons_of_mem _)
          simp only [collect] at h
          split at h
          next =>
            split at h
            next => exact .inl h
            next =>
              rcases hskip h with hknown | hmem
              · rw [List.lookup_append, Option.or_eq_some_iff] at hknown
                rcases hknown with hknown | ⟨-, hnew⟩
                · exact .inl hknown
                · refine .inr ?_
                  rw [List.lookup_cons] at hnew
                  split at hnew
                  next hkey =>
                    obtain ⟨rfl, rfl⟩ := Prod.mk.inj (Option.some.inj hnew)
                    rw [eq_of_beq hkey]
                    exact List.mem_cons_self
                  next => cases hnew
              · exact .inr hmem
          next =>
            cases undeclared with
            | reject => exact .inl h
            | keep => exact hskip h
            | skip =>
                simp only at h
                split at h
                next => exact hskip h
                next => exact .inl h

theorem mem_of_mem_byPosition {items : List Document}
    (h : (some key, d) ∈ byPosition names items) : d ∈ items := by
  induction names generalizing items with
  | nil => cases items <;> simp [byPosition] at h
  | cons name names ih =>
      cases items with
      | nil => simp [byPosition] at h
      | cons d' items =>
          rw [byPosition, List.mem_cons] at h
          rcases h with heq | hmem
          · exact List.mem_cons.2 (.inl (Prod.mk.inj heq).2)
          · exact List.mem_cons_of_mem d' (ih hmem)

/-- The record was taken from a document that is nested more deeply than each of
the fields that it knows. -/
structure Inside (r : Record) (d : Document) : Prop where
  pos : 0 < d.nesting
  known : ∀ {key p part}, r.known.lookup key = some (p, part) → part.nesting < d.nesting

theorem finish_eq_ok_iff {outcome : Fields ε α} :
    r.finish outcome = .ok a ↔ outcome = .good a ∧ r.flaw = none := by
  constructor
  · intro h
    unfold finish at h
    split at h
    next hflaw => cases h; exact ⟨rfl, hflaw⟩
    all_goals cases h
  · rintro ⟨rfl, hflaw⟩
    simp only [finish, hflaw]

/-- What is read of a record is read of fields inside the document, and so is all else
that is read of that record. -/
theorem exists_inside {read : Record → Fields ε α}
    (h : decode names undeclared read d = .ok a) : ∃ r, r.Inside d ∧ read r = .good a ∧
      ∀ (read' : Record → Fields ε α) a', read' r = .good a' →
        decode names undeclared read' d = .ok a' := by
  have hcollect : ∀ fields, 0 < d.nesting →
      (∀ key part, (some key, part) ∈ fields → part.nesting < d.nesting) →
      ofFields names undeclared read fields = .ok a → ∃ r, r.Inside d ∧ read r = .good a ∧
        ∀ (read' : Record → Fields ε α) a', read' r = .good a' →
          ofFields names undeclared read' fields = .ok a' := by
    intro fields hpos hfields h
    obtain ⟨hread, hflaw⟩ := finish_eq_ok_iff.1 h
    refine ⟨_, ⟨hpos, fun hpart => ?_⟩, hread, fun read' a' hread' =>
      finish_eq_ok_iff.2 ⟨hread', hflaw⟩⟩
    rcases mem_of_lookup_collect hpart with hnone | hmem
    · cases hnone
    · exact hfields _ _ hmem
  cases d with
  | obj fields =>
      exact hcollect fields (Nat.succ_pos _)
        (fun key part hmem => Document.nesting_lt_of_mem_fields hmem) h
  | arr items =>
      exact hcollect _ (Nat.succ_pos _) (fun key part hmem =>
        Document.nesting_lt_of_mem_items (mem_of_mem_byPosition hmem)) h
  | _ => cases h

theorem decode_eq_ok {read : Record → Fields ε α}
    (h : decode names undeclared read d = .ok a) : ∃ r, r.Inside d ∧ read r = .good a := by
  obtain ⟨r, hinside, hread, -⟩ := exists_inside h
  exact ⟨r, hinside, hread⟩

theorem required_eq_good (h : r.required name read = .good a) :
    ∃ p d, r.known.lookup name = some (p, d) ∧ read d = .ok a := by
  unfold required at h
  split at h
  next p d hlookup => exact ⟨p, d, hlookup, Fields.ofExcept_eq_good.1 h⟩
  next => cases h

theorem optionalWith_eq_good {default : α} (h : r.optionalWith name default read = .good a) :
    (r.known.lookup name = none ∧ a = default) ∨
      ∃ p d, r.known.lookup name = some (p, d) ∧ read d = .ok a := by
  unfold optionalWith at h
  split at h
  next p d hlookup => exact .inr ⟨p, d, hlookup, Fields.ofExcept_eq_good.1 h⟩
  next hlookup => exact .inl ⟨hlookup, (Fields.good.inj h).symm⟩

/-- A field with a default is read of the part that the record has for it. -/
theorem optionalWith_of_part {default : α} {part : Option Document}
    (h : r.optionalWith name default read = .good a)
    (hpart : (r.known.lookup name).map Prod.snd = part) :
    (part = none ∧ a = default) ∨ ∃ d, part = some d ∧ read d = .ok a := by
  rcases optionalWith_eq_good h with ⟨hlookup, hdefault⟩ | ⟨p, d, hlookup, hread⟩
  · exact .inl ⟨by rw [← hpart, hlookup, Option.map_none], hdefault⟩
  · exact .inr ⟨d, by rw [← hpart, hlookup, Option.map_some], hread⟩

/-- What a document holds for a name of a record. -/
def partOf (names : List String) (name : String) : Document → Option Document
  | .obj fields => fields.reverse.lookup (some name)
  | .arr items => (byPosition names items).reverse.lookup (some name)
  | _ => none

theorem exists_of_decode {read : Record → Fields ε α}
    (h : decode names undeclared read d = .ok a) : ∃ r : Record, read r = .good a ∧
      ∀ name ∈ names, (r.known.lookup name).map Prod.snd = partOf names name d := by
  cases d with
  | obj fields =>
      obtain ⟨hread, hflaw⟩ := finish_eq_ok_iff.1 h
      exact ⟨_, hread, fun name hname => lookup_collect hflaw hname⟩
  | arr items =>
      obtain ⟨hread, hflaw⟩ := finish_eq_ok_iff.1 h
      exact ⟨_, hread, fun name hname => lookup_collect hflaw hname⟩
  | _ => cases h

theorem optional_eq_good (h : r.optional name read = .good (some a)) :
    ∃ p d, r.known.lookup name = some (p, d) ∧ read d = .ok a := by
  rcases optionalWith_eq_good h with ⟨-, hnone⟩ | ⟨p, d, hlookup, hread⟩
  · cases hnone
  · refine ⟨p, d, hlookup, ?_⟩
    unfold Decoder.optional at hread
    split at hread
    next => cases hread
    next =>
      cases hd : read d with
      | error e => rw [hd] at hread; cases hread
      | ok b => rw [hd] at hread; cases hread; rfl

/-- What is in a list among the fields stands two levels below the record. -/
theorem Inside.exists_of_list {container : Document} {as : List α} (hr : r.Inside container)
    (h : r.optionalWith name [] (.list read) = .good as) (ha : a ∈ as) :
    ∃ part, read part = .ok a ∧ part.nesting + 2 ≤ container.nesting := by
  rcases optionalWith_eq_good h with ⟨-, rfl⟩ | ⟨p, d, hlookup, hlist⟩
  · cases ha
  · obtain ⟨items, rfl, hitems⟩ := Decoder.list_eq_ok_iff.1 hlist
    obtain ⟨part, hpart, hread⟩ := exists_of_forall₂ hitems ha
    have hitem := Document.nesting_lt_of_mem_items hpart
    have hlist := hr.known hlookup
    exact ⟨part, hread, by omega⟩

/-! ## Records that are written -/

/-- The record knows the given fields and has no flaw. -/
structure Holds (r : Record) (fs : List (String × Value)) : Prop where
  flaw : r.flaw = none
  known : ∀ key, (r.known.lookup key).map Prod.snd = (fs.lookup key).map Value.toDocument

/-- A record that declares every written field holds what is written. -/
theorem holds_collect (hnames : ∀ f ∈ fs, f.1 ∈ names) (hnodup : (fs.map Prod.fst).Nodup) :
    (collect names undeclared 0 [] [] (Value.fieldDocuments fs)).Holds fs := by
  have hflaw : (collect names undeclared 0 [] [] (Value.fieldDocuments fs)).flaw = none :=
    flaw_collect_eq_none (fun f hf => .inl (hnames f hf)) hnodup fun _ _ => List.lookup_nil
  obtain ⟨-, hknown, -⟩ := collect_of_flaw_eq_none hflaw List.nodup_nil
  have hdeclared : (Value.fieldDocuments fs).filter (declares names) =
      fs.map fun f => (some f.1, f.2.toDocument) := by
    rw [Value.fieldDocuments_eq_map, List.filter_eq_self, List.forall_mem_map]
    exact fun f hf => decide_eq_true (hnames f hf)
  refine ⟨hflaw, fun key => ?_⟩
  rw [← lookup_map_some Prod.snd, ← lookup_map_some Value.toDocument, ← hdeclared]
  exact congrArg (List.lookup (some key)) hknown

/-- A written record is read from what its fields hold. -/
theorem decode_obj {read : Record → Fields ε α} (hnames : (fs.map Prod.fst).Sublist names)
    (hnodup : names.Nodup) (hread : ∀ r : Record, r.Holds fs → read r = .good a) :
    decode names undeclared read (Value.obj fs).toDocument = .ok a := by
  have hholds : (collect names undeclared 0 [] [] (Value.fieldDocuments fs)).Holds fs :=
    holds_collect (fun f hf => hnames.subset (List.mem_map_of_mem hf)) (hnames.nodup hnodup)
  rw [Value.toDocument, decode, ofFields, finish_eq_ok_iff]
  exact ⟨hread _ hholds, hholds.flaw⟩

namespace Holds

variable {v : Value}

theorem lookup (h : r.Holds fs) (hfs : fs.lookup name = some v) :
    ∃ p, r.known.lookup name = some (p, v.toDocument) := by
  have hknown := h.known name
  rw [hfs, Option.map_some, Option.map_eq_some_iff] at hknown
  obtain ⟨⟨p, d⟩, hlookup, rfl⟩ := hknown
  exact ⟨p, hlookup⟩

theorem lookup_none (h : r.Holds fs) (hfs : fs.lookup name = none) :
    r.known.lookup name = none := by
  have hknown := h.known name
  rwa [hfs, Option.map_none, Option.map_eq_none_iff] at hknown

theorem required (h : r.Holds fs) (hfs : fs.lookup name = some v)
    (hread : read v.toDocument = .ok a) : r.required name read = .good a := by
  obtain ⟨p, hlookup⟩ := h.lookup hfs
  rw [Record.required, hlookup]
  exact Fields.ofExcept_eq_good.2 hread

theorem optionalWith (h : r.Holds fs) (default : α) (hfs : fs.lookup name = some v)
    (hread : read v.toDocument = .ok a) : r.optionalWith name default read = .good a := by
  obtain ⟨p, hlookup⟩ := h.lookup hfs
  rw [Record.optionalWith, hlookup]
  exact Fields.ofExcept_eq_good.2 hread

theorem optional (h : r.Holds fs) {part : Option α} (hnone : fs.lookup name = none → part = none)
    (hread : ∀ v, fs.lookup name = some v → read.optional v.toDocument = .ok part) :
    r.optional name read = .good part := by
  cases hfs : fs.lookup name with
  | none => rw [hnone hfs, Record.optional, Record.optionalWith, h.lookup_none hfs]
  | some v => exact h.optionalWith none hfs (hread v hfs)

/-- A written part that is optional is read as what it is read as alone, if it is
not written as `null`. -/
theorem optional_restored (h : r.Holds fs) {part : Option β} (write : β → Value) (restore : β → α)
    (hfs : fs.lookup name = part.map write)
    (hread : ∀ b, part = some b → read.optional (write b).toDocument = .ok (some (restore b))) :
    r.optional name read = .good (part.map restore) := by
  refine h.optional (fun hnone => ?_) fun v hv => ?_
  · rw [hfs, Option.map_eq_none_iff] at hnone
    rw [hnone, Option.map_none]
  · rw [hfs, Option.map_eq_some_iff] at hv
    obtain ⟨b, rfl, rfl⟩ := hv
    exact hread b rfl

/-- An optional part is read back if it is not written as `null`. -/
theorem optional_map (h : r.Holds fs) {part : Option α} (write : α → Value)
    (hfs : fs.lookup name = part.map write)
    (hread : ∀ a, read.optional (write a).toDocument = .ok (some a)) :
    r.optional name read = .good part := by
  have hpart := h.optional_restored write id hfs fun a _ => hread a
  rwa [Option.map_id] at hpart

/-- A list that is left out when it is empty is read back. -/
theorem list_nonEmpty (h : r.Holds fs) {items : List α} (write : α → Value)
    (hfs : fs.lookup name = if items = [] then none else some (.arr (items.map write)))
    (hread : ∀ a ∈ items, read (write a).toDocument = .ok a) :
    r.optionalWith name [] (.list read) = .good items := by
  split at hfs
  next hempty => rw [Record.optionalWith, h.lookup_none hfs, hempty]
  next => exact h.optionalWith [] hfs (Decoder.list_arr hread)

end Holds

end Record

namespace Value

@[simp] theorem lookup_field? {key name : String} (write : α → Value) (part : Option α) :
    (field? key write part).lookup name = if name == key then part.map write else none := by
  cases part with
  | none => simp [field?]
  | some a =>
      rw [field?, List.lookup_cons]
      cases name == key <;> rfl

@[simp] theorem mem_field?_iff {key : String} {write : α → Value} {part : Option α}
    {f : String × Value} :
    f ∈ field? key write part ↔ ∃ a, part = some a ∧ f = (key, write a) := by
  cases part with
  | none => simp [field?]
  | some a => simp [field?]

@[simp] theorem lookup_nonEmptyField {key name : String} (write : α → Value) (items : List α) :
    (nonEmptyField key write items).lookup name =
      if name == key then if items = [] then none else some (.arr (items.map write))
      else none := by
  by_cases hempty : items = []
  · simp [nonEmptyField, hempty]
  · rw [nonEmptyField, if_neg (by simpa using hempty), if_neg hempty, List.lookup_cons]
    cases name == key <;> rfl

@[simp] theorem mem_nonEmptyField_iff {key : String} {write : α → Value} {items : List α}
    {f : String × Value} :
    f ∈ nonEmptyField key write items ↔ items ≠ [] ∧ f = (key, .arr (items.map write)) := by
  by_cases hempty : items = [] <;> simp [nonEmptyField, hempty]

theorem keys_nonEmptyField_sublist (key : String) (write : α → Value) (items : List α) :
    ((nonEmptyField key write items).map Prod.fst).Sublist [key] := by
  rw [nonEmptyField]
  split
  · exact List.nil_sublist _
  · exact List.Sublist.refl _

theorem keys_field?_sublist (key : String) (write : α → Value) (part : Option α) :
    ((field? key write part).map Prod.fst).Sublist [key] := by
  cases part with
  | none => exact List.nil_sublist _
  | some a => exact List.Sublist.refl _

end Value

end SolidityBuild.Json
