import SolidityBuild.Proofs.Abi.Field
import SolidityBuild.Proofs.Json.Nesting

/-!
Interfaces that are read, and written again. The entries of an interface that is
read have typed parameters only, so each of them is read back from the document
that is written for it; and the text of that document is read as the document,
since it is not nested more deeply than the text that the interface came from.
-/

namespace SolidityBuild.Abi

open Json

/-! ## Parameters of entries -/

/-- The parameters of an entry, results included. -/
def Entry.parameters : Entry → List Field
  | constructor c => c.inputs
  | function f => f.inputs ++ f.outputs
  | event e => e.inputs
  | error e => e.inputs
  | fallback _ | receive _ => []

/-- All parameters of an interface, those inside tuples included. -/
def parameters (abi : Abi) : List Field := abi.flatMap fun e => Field.nestedAll e.parameters

/-- Whether all parameters are typed, those inside tuples included. -/
def AllTyped (fs : List Field) : Prop := ∀ g ∈ Field.nestedAll fs, g.Typed

theorem allTyped_append {fs gs : List Field} :
    AllTyped (fs ++ gs) ↔ AllTyped fs ∧ AllTyped gs := by
  simp only [AllTyped, Field.mem_nestedAll_iff, List.mem_append]
  grind

/-! ## Entries that are written -/

section Written

variable {fs : List Field} {r : Record} {fields : List (String × Value)}

theorem list_writeAll (h : AllTyped fs) :
    Decoder.list Field.read (Value.arr (Field.writeAll fs)).toDocument = .ok fs := by
  rw [Field.writeAll_eq_map]
  exact Json.Decoder.list_arr fun f hf =>
    Field.read_write fun g hg => h g (Field.mem_nestedAll_iff.2 ⟨f, hf, hg⟩)

theorem inputsOf_written (hr : r.Holds fields) (h : AllTyped fs)
    (hfields : fields.lookup "inputs" = some (.arr (Field.writeAll fs))) :
    inputsOf r = .good fs :=
  hr.optionalWith [] hfields (list_writeAll h)

theorem Mutability.optional_write (m : Mutability) :
    Decoder.optional (Mutability.read : Decoder Mutability) (write m).toDocument =
      .ok (some m) := by
  cases m <;> rfl

theorem mutabilityOf_written (hr : r.Holds fields) (m : Option Mutability)
    (hfields : fields.lookup "stateMutability" = m.map Mutability.write) :
    mutabilityOf r = .good m :=
  hr.optional_map Mutability.write hfields Mutability.optional_write

theorem flag_written (hr : r.Holds fields) {name : String} (flag : Option Bool)
    (hfields : fields.lookup name = flag.map .bool) :
    r.optional name .bool = (.good flag : Fields InvalidType (Option Bool)) :=
  hr.optional_map .bool hfields fun _ => rfl

theorem name_written (hr : r.Holds fields) (name : String)
    (hfields : fields.lookup "name" = some (.str name)) :
    r.required "name" .text = (.good name : Fields InvalidType String) :=
  hr.required hfields rfl

theorem Function.keys_fields_sublist (f : Function) :
    (f.fields.map Prod.fst).Sublist
      ["name", "inputs", "outputs", "stateMutability", "constant", "payable"] := by
  simp only [fields, List.map_append]
  exact (((List.Sublist.refl ["name", "inputs", "outputs"]).append
    (Value.keys_field?_sublist _ _ _)).append (Value.keys_field?_sublist _ _ _)).append
    (Value.keys_field?_sublist _ _ _)

theorem Function.read_fields (f : Function) (h : AllTyped (f.inputs ++ f.outputs)) :
    Function.read (Value.obj f.fields).toDocument = .ok f := by
  obtain ⟨hinputs, houtputs⟩ := allTyped_append.1 h
  refine Record.decode_obj f.keys_fields_sublist (by decide) fun r hr => ?_
  have houtputsOf : r.optionalWith "outputs" [] (.list Field.read) = .good f.outputs :=
    hr.optionalWith [] (by simp [fields, List.lookup_cons]) (list_writeAll houtputs)
  rw [name_written hr f.name (by simp [fields]),
    inputsOf_written hr hinputs (by simp [fields, List.lookup_cons]), houtputsOf,
    mutabilityOf_written hr f.stateMutability
      (by simp [fields, List.lookup_append, List.lookup_cons]),
    flag_written hr f.constant (by simp [fields, List.lookup_append, List.lookup_cons]),
    flag_written hr f.payable (by simp [fields, List.lookup_append, List.lookup_cons])]
  rfl

theorem Constructor.keys_fields_sublist (c : Constructor) :
    (c.fields.map Prod.fst).Sublist ["inputs", "stateMutability", "payable"] := by
  simp only [fields, List.map_append]
  exact ((List.Sublist.refl ["inputs"]).append (Value.keys_field?_sublist _ _ _)).append
    (Value.keys_field?_sublist _ _ _)

theorem Constructor.read_fields (c : Constructor) (h : AllTyped c.inputs) :
    Constructor.read (Value.obj c.fields).toDocument = .ok c := by
  refine Record.decode_obj c.keys_fields_sublist (by decide) fun r hr => ?_
  rw [inputsOf_written hr h (by simp [fields]),
    mutabilityOf_written hr c.stateMutability
      (by simp [fields, List.lookup_append, List.lookup_cons]),
    flag_written hr c.payable (by simp [fields, List.lookup_append, List.lookup_cons])]
  rfl

theorem Event.read_fields (e : Event) (h : AllTyped e.inputs) :
    Event.read (Value.obj e.fields).toDocument = .ok e := by
  refine Record.decode_obj (.refl _) (by decide) fun r hr => ?_
  have hanonymous : r.optionalWith "anonymous" false .bool =
      (.good e.anonymous : Fields InvalidType Bool) :=
    hr.optionalWith (v := .bool e.anonymous) false (by simp [fields, List.lookup_cons]) rfl
  rw [name_written hr e.name (by simp [fields]),
    inputsOf_written hr h (by simp [fields, List.lookup_cons]), hanonymous]
  rfl

theorem ErrorCase.read_fields (e : ErrorCase) (h : AllTyped e.inputs) :
    ErrorCase.read (Value.obj e.fields).toDocument = .ok e := by
  refine Record.decode_obj (.refl _) (by decide) fun r hr => ?_
  rw [name_written hr e.name (by simp [fields]),
    inputsOf_written hr h (by simp [fields, List.lookup_cons])]
  rfl

theorem Special.keys_fields_sublist (s : Special) :
    (s.fields.map Prod.fst).Sublist ["stateMutability"] :=
  Value.keys_field?_sublist _ _ _

theorem Special.read_fields (s : Special) :
    Special.read (Value.obj s.fields).toDocument = .ok s := by
  refine Record.decode_obj s.keys_fields_sublist (by decide) fun r hr => ?_
  rw [mutabilityOf_written hr s.stateMutability (by simp [fields])]
  rfl

namespace Entry

/-- No field of an entry has the key that tells its kind. -/
theorem ne_tagName_of_mem_fields {e : Entry} {f : String × Value} (h : f ∈ e.fields) :
    f.1 ≠ tagName := by
  have hkey : f.1 ∈ e.fields.map Prod.fst := List.mem_map_of_mem h
  have habsent : ∀ {keys names : List String}, keys.Sublist names → tagName ∉ names →
      f.1 ∈ keys → f.1 ≠ tagName :=
    fun hsub htag hmem heq => htag (heq ▸ hsub.subset hmem)
  cases e with
  | constructor c => exact habsent c.keys_fields_sublist (by decide) hkey
  | function g => exact habsent g.keys_fields_sublist (by decide) hkey
  | event e => exact habsent (.refl ["name", "inputs", "anonymous"]) (by decide) hkey
  | error e => exact habsent (.refl ["name", "inputs"]) (by decide) hkey
  | fallback s => exact habsent s.keys_fields_sublist (by decide) hkey
  | receive s => exact habsent s.keys_fields_sublist (by decide) hkey

theorem readAs_fields (e : Entry) (h : AllTyped e.parameters) :
    readAs e.tag (Value.obj e.fields).toDocument = .ok e := by
  cases e with
  | constructor c => rw [readAs, fields, c.read_fields h]; rfl
  | function f => rw [readAs, fields, f.read_fields h]; rfl
  | event e => rw [readAs, fields, e.read_fields h]; rfl
  | error e => rw [readAs, fields, e.read_fields h]; rfl
  | fallback s => rw [readAs, fields, s.read_fields]; rfl
  | receive s => rw [readAs, fields, s.read_fields]; rfl

/-- An entry with typed parameters is read back as it was written. -/
theorem read_write (e : Entry) (h : AllTyped e.parameters) :
    read e.write.toDocument = .ok e := by
  have hother : ∀ f ∈ Value.fieldDocuments e.fields, f.1 ≠ some tagName := by
    rw [Value.fieldDocuments_eq_map, List.forall_mem_map]
    exact fun f hf htag => ne_tagName_of_mem_fields hf (Option.some.inj htag)
  have hdocument : e.write.toDocument =
      .obj ((some tagName, .str e.tag) :: Value.fieldDocuments e.fields) := by
    rw [write, Value.toDocument, Value.fieldDocuments, Value.toDocument]
  have htagged : ((some tagName, .str e.tag) :: Value.fieldDocuments e.fields).filter
      (·.1 = some tagName) = [(some tagName, .str e.tag)] := by
    rw [List.filter_cons_of_pos (by simp), List.filter_eq_nil_iff.2]
    exact fun f hf => by simpa using hother f hf
  have huntagged : ((some tagName, .str e.tag) :: Value.fieldDocuments e.fields).filter
      (·.1 ≠ some tagName) = Value.fieldDocuments e.fields := by
    rw [List.filter_cons_of_neg (by simp), List.filter_eq_self]
    exact fun f hf => by simpa using hother f hf
  have hreadable := Value.isReadable_toDocument e.write
  rw [hdocument] at hreadable ⊢
  rw [read, if_pos hreadable, htagged, huntagged]
  exact readAs_fields e h

end Entry

end Written

/-! ## Entries that are read -/

section Read

variable {d : Document} {abi : Abi}

/-- The parameter was read somewhere inside an entry. -/
def ReadInside (d : Document) (f : Field) : Prop :=
  ∃ part, Field.read part = .ok f ∧ part.nesting + 2 ≤ d.nesting

theorem exists_of_map_eq_ok {α β ε : Type} {outcome : Except ε α} {g : α → β} {b : β}
    (h : outcome.map g = .ok b) : ∃ a, outcome = .ok a ∧ g a = b := by
  cases outcome with
  | error e => cases h
  | ok a => exact ⟨a, rfl, Except.ok.inj h⟩

theorem Function.readInside_of_read {f : Function} (h : Function.read d = .ok f) :
    ∀ g ∈ f.inputs ++ f.outputs, ReadInside d g := by
  obtain ⟨r, hinside, hr⟩ := Record.decode_eq_ok h
  simp only [Fields.seq_eq_good, Fields.map_eq_good] at hr
  obtain ⟨_, payable, ⟨_, constant, ⟨_, mutability, ⟨_, outputs, ⟨_, inputs,
    ⟨name, -, rfl⟩, hinputs, rfl⟩, houtputs, rfl⟩, -, rfl⟩, -, rfl⟩, -, rfl⟩ := hr
  intro g hg
  rcases List.mem_append.1 hg with hg | hg
  · exact hinside.exists_of_list hinputs hg
  · exact hinside.exists_of_list houtputs hg

theorem Constructor.readInside_of_read {c : Constructor} (h : Constructor.read d = .ok c) :
    ∀ g ∈ c.inputs, ReadInside d g := by
  obtain ⟨r, hinside, hr⟩ := Record.decode_eq_ok h
  simp only [Fields.seq_eq_good, Fields.map_eq_good] at hr
  obtain ⟨_, payable, ⟨_, mutability, ⟨inputs, hinputs, rfl⟩, -, rfl⟩, -, rfl⟩ := hr
  exact fun g hg => hinside.exists_of_list hinputs hg

theorem Event.readInside_of_read {e : Event} (h : Event.read d = .ok e) :
    ∀ g ∈ e.inputs, ReadInside d g := by
  obtain ⟨r, hinside, hr⟩ := Record.decode_eq_ok h
  simp only [Fields.seq_eq_good, Fields.map_eq_good] at hr
  obtain ⟨_, anonymous, ⟨_, inputs, ⟨name, -, rfl⟩, hinputs, rfl⟩, -, rfl⟩ := hr
  exact fun g hg => hinside.exists_of_list hinputs hg

theorem ErrorCase.readInside_of_read {e : ErrorCase} (h : ErrorCase.read d = .ok e) :
    ∀ g ∈ e.inputs, ReadInside d g := by
  obtain ⟨r, hinside, hr⟩ := Record.decode_eq_ok h
  simp only [Fields.seq_eq_good, Fields.map_eq_good] at hr
  obtain ⟨_, inputs, ⟨name, -, rfl⟩, hinputs, rfl⟩ := hr
  exact fun g hg => hinside.exists_of_list hinputs hg

namespace Entry

variable {e : Entry}

theorem readInside_of_readAs {tag : String} (h : readAs tag d = .ok e) :
    ∀ g ∈ e.parameters, ReadInside d g := by
  unfold readAs at h
  split at h
  next =>
    obtain ⟨c, hc, rfl⟩ := exists_of_map_eq_ok h
    exact Constructor.readInside_of_read hc
  split at h
  next =>
    obtain ⟨f, hf, rfl⟩ := exists_of_map_eq_ok h
    exact Function.readInside_of_read hf
  split at h
  next =>
    obtain ⟨e, he, rfl⟩ := exists_of_map_eq_ok h
    exact Event.readInside_of_read he
  split at h
  next =>
    obtain ⟨e, he, rfl⟩ := exists_of_map_eq_ok h
    exact ErrorCase.readInside_of_read he
  split at h
  next =>
    obtain ⟨s, -, rfl⟩ := exists_of_map_eq_ok h
    exact fun g hg => by cases hg
  split at h
  next =>
    obtain ⟨s, -, rfl⟩ := exists_of_map_eq_ok h
    exact fun g hg => by cases hg
  next => cases h

/-- The parameters of an entry stand inside it, whichever way it is written. -/
theorem readInside_of_read (h : read d = .ok e) : ∀ g ∈ e.parameters, ReadInside d g := by
  have hwiden : ∀ {part : Document}, part.nesting ≤ d.nesting →
      (∀ g ∈ e.parameters, ReadInside part g) → ∀ g ∈ e.parameters, ReadInside d g := by
    intro part hpart hall g hg
    obtain ⟨field, hread, hnesting⟩ := hall g hg
    exact ⟨field, hread, Nat.le_trans hnesting hpart⟩
  unfold read at h
  split at h
  next =>
    split at h
    next =>
      split at h
      next =>
        exact hwiden (Document.nesting_obj_mono (List.filter_sublist.subset))
          (readInside_of_readAs h)
      next => cases h
    next =>
      exact hwiden (Document.nesting_arr_mono (List.subset_cons_self _ _))
        (readInside_of_readAs h)
    next => cases h
  next => cases h

end Entry

/-- The entries of an interface that is read stand in a list. -/
theorem exists_of_read (h : read d = .ok abi) :
    0 < d.nesting ∧ ∀ e ∈ abi, ∃ part, Entry.read part = .ok e ∧ part.nesting < d.nesting := by
  obtain ⟨items, rfl, hitems⟩ := Json.Decoder.list_eq_ok_iff.1 h
  refine ⟨Nat.succ_pos _, fun e he => ?_⟩
  obtain ⟨part, hpart, hread⟩ := exists_of_forall₂ hitems he
  exact ⟨part, hread, Document.nesting_lt_of_mem_items hpart⟩

theorem allTyped_of_read (h : read d = .ok abi) : ∀ e ∈ abi, AllTyped e.parameters := by
  intro e he g hg
  obtain ⟨part, hread, -⟩ := (exists_of_read h).2 e he
  obtain ⟨f, hf, hg⟩ := Field.mem_nestedAll_iff.1 hg
  obtain ⟨inner, hinner, -⟩ := Entry.readInside_of_read hread f hf
  exact Field.typed_of_read hinner g hg

/-- An interface that was read is read back from the document written for it. -/
theorem read_write (h : read d = .ok abi) : read (write abi).toDocument = .ok abi :=
  Json.Decoder.list_arr fun e he => e.read_write (allTyped_of_read h e he)

end Read

/-! ## The text of an interface -/

section Text

variable {d : Document} {abi : Abi} {e : Entry} {n : Nat}

/-- What holds of texts, flags and lists of parameters of the entry holds of
every field. -/
theorem Entry.forall_mem_fields (e : Entry) {P : Value → Prop} (htext : ∀ s, P (.str s))
    (hflag : ∀ b, P (.bool b))
    (hlist : ∀ fs : List Field, (∀ g ∈ fs, g ∈ e.parameters) → P (.arr (Field.writeAll fs))) :
    ∀ f ∈ e.fields, P f.2 := by
  intro f hf
  cases e with
  | constructor c =>
      simp only [fields, Constructor.fields, List.mem_append, List.mem_singleton,
        Value.mem_field?_iff] at hf
      rcases hf with (rfl | ⟨m, -, rfl⟩) | ⟨b, -, rfl⟩
      · exact hlist _ fun g hg => hg
      · exact htext _
      · exact hflag b
  | function g =>
      simp only [fields, Function.fields, List.mem_append, List.mem_cons, List.not_mem_nil,
        or_false, Value.mem_field?_iff] at hf
      rcases hf with (((rfl | rfl | rfl) | ⟨m, -, rfl⟩) | ⟨b, -, rfl⟩) | ⟨b, -, rfl⟩
      · exact htext _
      · exact hlist _ fun g hg => List.mem_append_left _ hg
      · exact hlist _ fun g hg => List.mem_append_right _ hg
      · exact htext _
      · exact hflag b
      · exact hflag b
  | event e =>
      simp only [fields, Event.fields, List.mem_cons, List.not_mem_nil, or_false] at hf
      rcases hf with rfl | rfl | rfl
      · exact htext _
      · exact hlist _ fun g hg => hg
      · exact hflag _
  | error e =>
      simp only [fields, ErrorCase.fields, List.mem_cons, List.not_mem_nil, or_false] at hf
      rcases hf with rfl | rfl
      · exact htext _
      · exact hlist _ fun g hg => hg
  | fallback s | receive s =>
      obtain ⟨m, -, rfl⟩ := Value.mem_field?_iff.1 hf
      exact htext _

theorem Entry.exact_write (e : Entry) : e.write.Exact := by
  rw [write, Value.Exact, Value.exactFields_iff, List.forall_mem_cons]
  exact ⟨trivial, e.forall_mem_fields (fun _ => trivial) (fun _ => trivial)
    fun fs _ => Field.exact_writeAll fs⟩

theorem Entry.nesting_write_le (e : Entry)
    (h : ∀ g ∈ e.parameters, g.write.toDocument.nesting ≤ n) :
    e.write.toDocument.nesting ≤ n + 2 := by
  rw [write, Value.nesting_obj_le_iff, List.forall_mem_cons]
  refine ⟨Nat.zero_le _, e.forall_mem_fields (P := (·.toDocument.nesting ≤ n + 1))
    (fun _ => Nat.zero_le _) (fun _ => Nat.zero_le _) fun fs hfs => ?_⟩
  rw [Field.writeAll_eq_map, Value.nesting_arr_le_iff, List.forall_mem_map]
  exact fun g hg => h g (hfs g hg)

theorem Entry.nesting_write_le_of_read (h : Entry.read d = .ok e) :
    e.write.toDocument.nesting ≤ max 2 d.nesting := by
  have hwrite := e.nesting_write_le (n := d.nesting - 2) fun g hg => by
    obtain ⟨part, hread, hpart⟩ := readInside_of_read h g hg
    obtain ⟨draft, hdraft, hfield⟩ := Field.read_eq_ok_iff.1 hread
    have hg := Field.nesting_write_le _ hdraft hfield
    omega
  omega

theorem exact_write (abi : Abi) : (write abi).Exact := by
  rw [write, Value.Exact, Value.exactItems_iff, List.forall_mem_map]
  exact fun e _ => e.exact_write

/-- Parameters that are left out are written as empty lists, which may make a
shallow interface deeper, but none that comes near the limit. -/
theorem nesting_write_le (h : read d = .ok abi) :
    (write abi).toDocument.nesting ≤ max 3 d.nesting := by
  obtain ⟨hpos, hparts⟩ := exists_of_read h
  have hwrite : (write abi).toDocument.nesting ≤ max 2 (d.nesting - 1) + 1 := by
    rw [write, Value.nesting_arr_le_iff, List.forall_mem_map]
    intro e he
    obtain ⟨part, hread, hpart⟩ := hparts e he
    have he := Entry.nesting_write_le_of_read hread
    omega
  omega

theorem nesting_write_le_nestingLimit (h : read d = .ok abi) (hd : d.nesting ≤ nestingLimit) :
    (write abi).toDocument.nesting ≤ nestingLimit := by
  have hwrite := nesting_write_le h
  have hlimit : 3 ≤ nestingLimit := by decide
  omega

/-- The two forms in which a value is written. -/
def forms : List (Value → String) := [Value.compact, Value.indented]

/-- The text of an interface is read as the document that it was written from. -/
theorem read_form {form : Value → String} (hform : form ∈ forms) (h : read d = .ok abi)
    (hd : d.nesting ≤ nestingLimit) :
    Json.read (form (write abi)) = ⟨(write abi).toDocument, true⟩ := by
  have hnesting := nesting_write_le_nestingLimit h hd
  simp only [forms, List.mem_cons, List.not_mem_nil, or_false] at hform
  rcases hform with rfl | rfl
  · exact Value.read_compact (exact_write abi) hnesting
  · exact Value.read_indented (exact_write abi) hnesting

/-- An interface that was read is written as a document from which it is read
back; the type string of each of its parameters, however deep inside tuples, is
read with its components as the same type. If it came from a text, or from a
part of one, it is read back from both forms of its own text, and these are the
same when they are written again. -/
theorem written_reads_back (h : read d = .ok abi) :
    read (write abi).toDocument = .ok abi ∧
    (∀ f ∈ abi.parameters, Field.ofType f.label f.typeString f.components? = .ok f) ∧
    ∀ text, d.nesting ≤ (Json.read text).document.nesting →
      ∀ form ∈ forms, ∃ again, (Json.read (form (write abi))).decode read = .ok again ∧
        again = abi ∧ form (write again) = form (write abi) := by
  refine ⟨read_write h, fun f hf => ?_, fun text htext form hform => ⟨abi, ?_, rfl, rfl⟩⟩
  · obtain ⟨e, he, hf⟩ := List.mem_flatMap.1 hf
    exact allTyped_of_read h e he f hf
  · rw [read_form hform h (Nat.le_trans htext (nesting_read text)), Reading.decode]
    simp only [bind, Except.bind, read_write h]
    rfl

/-! ## An interface with odd types -/

/-- Blanks around a type, a size with zeros in front, and a bracket that opens
nothing. The entry is an array, with its fields by position. -/
def oddValue : Value :=
  .arr [.arr [.str "function", .str "pay", .arr [.obj [("type", .str "tuple[]"),
    ("components", .arr [.obj [("type", .str " a [b[007][] ")]])]]]]

def odd : Abi :=
  [.function ⟨"pay", [.tuple Field.unnamed [.regular Field.unnamed "a [b" [.fixed 7, .dynamic]]
    [.dynamic]], [], none, none, none⟩]

theorem odd_reads_back :
    read oddValue.toDocument = .ok odd ∧
      (Json.read (write odd).compact).decode read = .ok odd ∧
      ∀ f ∈ odd.parameters, Field.ofType f.label f.typeString f.components? = .ok f := by
  have hread : read oddValue.toDocument = .ok odd := rfl
  have hexact : oddValue.Exact := by
    simp [oddValue, Value.Exact, Value.ExactItems, Value.ExactFields]
  have hdocument : (Json.read oddValue.compact).document = oddValue.toDocument := by
    rw [Value.read_compact hexact (by decide)]
  obtain ⟨-, hparameters, htext⟩ := written_reads_back hread
  obtain ⟨again, hagain, rfl, -⟩ := htext oddValue.compact (Nat.le_of_eq (by rw [hdocument]))
    Value.compact (by simp [forms])
  exact ⟨hread, hagain, hparameters⟩

end Text

end SolidityBuild.Abi
