import SolidityBuild.Abi.Entry
import SolidityBuild.Proofs.Abi.Type

/-!
Signatures. Types are told apart by their text, however tuples are nested in
them: a base type ends at a bracket or a comma, a tuple at its closing
parenthesis, and dimensions where no further bracket opens. So functions have
one signature exactly if they have one name and the same types of parameters.
-/

namespace SolidityBuild.Abi

variable {word word' rest rest' : List Char}

/-- The characters that separate the parts of a signature. -/
def delimiters : List Char := ['(', ')', ',', '[', ']']

/-- A text that can be told from what stands around it in a signature. Every
identifier and every alphanumeric name is one. -/
def IsWord (s : String) : Prop := s ≠ "" ∧ ∀ c ∈ s.toList, c ∉ delimiters

instance (s : String) : Decidable (IsWord s) :=
  letI := List.decidableBAll (· ∉ delimiters) s.toList
  inferInstanceAs (Decidable (s ≠ "" ∧ ∀ c ∈ s.toList, c ∉ delimiters))

/-- What may stand behind a word. -/
def Delimited (rest : List Char) : Prop := ∀ c, rest.head? = some c → c ∈ delimiters

theorem delimited_cons {c : Char} (hc : c ∈ delimiters) (cs : List Char) :
    Delimited (c :: cs) := by
  intro d hd
  obtain rfl := Option.some.inj hd
  exact hc

/-- A word ends at the first delimiter behind it. -/
theorem word_inj (hword : ∀ c ∈ word, c ∉ delimiters) (hword' : ∀ c ∈ word', c ∉ delimiters)
    (hrest : Delimited rest) (hrest' : Delimited rest') (h : word ++ rest = word' ++ rest') :
    word = word' ∧ rest = rest' := by
  induction word generalizing word' with
  | nil =>
      cases word' with
      | nil => exact ⟨rfl, h⟩
      | cons c word' =>
          have hc := hrest c (by rw [← List.nil_append rest, h]; rfl)
          exact absurd hc (hword' c List.mem_cons_self)
  | cons c word ih =>
      cases word' with
      | nil =>
          have hc := hrest' c (by rw [← List.nil_append rest', ← h]; rfl)
          exact absurd hc (hword c List.mem_cons_self)
      | cons c' word' =>
          obtain ⟨rfl, htail⟩ := List.cons.inj h
          obtain ⟨rfl, hrest⟩ := ih (fun d hd => hword d (List.mem_cons_of_mem c hd))
            (fun d hd => hword' d (List.mem_cons_of_mem c hd)) htail
          exact ⟨rfl, hrest⟩

/-- What may stand behind a type: the end, a comma or a closing parenthesis. -/
def Closed (rest : List Char) : Prop := ∀ c, rest.head? = some c → c = ',' ∨ c = ')'

theorem closed_comma (cs : List Char) : Closed (',' :: cs) := fun _ hc =>
  .inl (Option.some.inj hc).symm

theorem closed_parenthesis (cs : List Char) : Closed (')' :: cs) := fun _ hc =>
  .inr (Option.some.inj hc).symm

theorem Closed.head?_ne (h : Closed rest) : rest.head? ≠ some '[' := by
  intro hopen
  rcases h '[' hopen with hc | hc <;> cases hc

theorem Closed.delimited_texts (h : Closed rest) (dims : List Dim) :
    Delimited ((Dim.texts dims).toList ++ rest) := by
  intro c hc
  cases dims with
  | nil =>
      rcases h c hc with rfl | rfl <;> decide
  | cons d ds =>
      rw [Dim.head?_texts_cons] at hc
      obtain rfl := Option.some.inj hc
      decide

namespace Field

mutual

/-- The type of a parameter: what is left of it without its labels, those of its
components included. -/
def bare : Field → Field
  | regular _ typeName dims => regular unnamed typeName dims
  | tuple _ components dims => tuple unnamed (bareAll components) dims

def bareAll : List Field → List Field
  | [] => []
  | f :: fs => f.bare :: bareAll fs

end

mutual

/-- All base types in a parameter have words for names. -/
def Worded : Field → Prop
  | regular _ typeName _ => IsWord typeName
  | tuple _ components _ => WordedAll components

def WordedAll : List Field → Prop
  | [] => True
  | f :: fs => f.Worded ∧ WordedAll fs

end

/-- The types of further parameters, each behind a comma. -/
def furtherTypes : List Field → List Char
  | [] => []
  | f :: fs => ',' :: (f.canonicalType.toList ++ furtherTypes fs)

/-- The types of parameters, with commas between them. -/
def listedTypes : List Field → List Char
  | [] => []
  | f :: fs => f.canonicalType.toList ++ furtherTypes fs

/-! ## Texts of types -/

variable {f g : Field} {fs gs : List Field} {label label' : Label} {typeName typeName' : String}
  {dims dims' : List Dim} {components components' : List Field}

theorem toList_intercalate_canonicalTypes (fs : List Field) :
    (String.intercalate "," (canonicalTypes fs)).toList = listedTypes fs := by
  induction fs with
  | nil => rfl
  | cons f fs ih =>
      cases fs with
      | nil => simp [canonicalTypes, listedTypes, furtherTypes]
      | cons g fs =>
          simp only [canonicalTypes] at ih
          simp only [canonicalTypes, String.intercalate_cons_cons, String.toList_append, ih]
          simp [listedTypes, furtherTypes]

theorem toList_canonicalType_regular (label : Label) (typeName : String) (dims : List Dim) :
    (regular label typeName dims).canonicalType.toList =
      typeName.toList ++ (Dim.texts dims).toList := by
  rw [canonicalType, String.toList_append]

theorem toList_canonicalType_tuple (label : Label) (components : List Field) (dims : List Dim) :
    (tuple label components dims).canonicalType.toList =
      '(' :: (listedTypes components ++ ')' :: (Dim.texts dims).toList) := by
  rw [canonicalType, String.toList_append, String.toList_append, String.toList_append,
    toList_intercalate_canonicalTypes]
  simp

theorem closed_furtherTypes (fs : List Field) (rest : List Char) :
    Closed (furtherTypes fs ++ ')' :: rest) := by
  cases fs with
  | nil => exact closed_parenthesis rest
  | cons f fs => exact closed_comma _

/-- The text of a type is not empty, and does not begin with the end of a list. -/
theorem exists_head_of_worded (hf : f.Worded) :
    ∃ c cs, f.canonicalType.toList = c :: cs ∧ c ≠ ')' := by
  cases f with
  | regular label typeName dims =>
      rw [toList_canonicalType_regular]
      cases hname : typeName.toList with
      | nil => exact absurd (String.toList_eq_nil_iff.1 hname) hf.1
      | cons c cs =>
          refine ⟨c, cs ++ (Dim.texts dims).toList, rfl, ?_⟩
          rintro rfl
          exact hf.2 ')' (by simp [hname]) (by decide)
  | tuple label components dims =>
      exact ⟨'(', _, toList_canonicalType_tuple label components dims, by decide⟩

theorem regular_inj (hname : IsWord typeName) (hname' : IsWord typeName') (hrest : Closed rest)
    (hrest' : Closed rest')
    (h : (regular label typeName dims).canonicalType.toList ++ rest =
      (regular label' typeName' dims').canonicalType.toList ++ rest') :
    (regular label typeName dims).bare = (regular label' typeName' dims').bare ∧ rest = rest' := by
  rw [toList_canonicalType_regular, toList_canonicalType_regular, List.append_assoc,
    List.append_assoc] at h
  obtain ⟨hnames, hbehind⟩ := word_inj hname.2 hname'.2 (hrest.delimited_texts dims)
    (hrest'.delimited_texts dims') h
  obtain ⟨rfl, hend⟩ := Dim.texts_inj hrest.head?_ne hrest'.head?_ne hbehind
  exact ⟨by rw [bare, bare, String.toList_injective hnames], hend⟩

/-- A base type does not begin like a tuple. -/
theorem regular_ne_tuple (hname : IsWord typeName) :
    (regular label typeName dims).canonicalType.toList ++ rest ≠
      (tuple label' components dims').canonicalType.toList ++ rest' := by
  rw [toList_canonicalType_regular, toList_canonicalType_tuple]
  cases hlist : typeName.toList with
  | nil => exact absurd (String.toList_eq_nil_iff.1 hlist) hname.1
  | cons c cs =>
      intro h
      obtain rfl := (List.cons.inj h).1
      exact hname.2 '(' (by simp [hlist]) (by decide)

mutual

/-- A type can be told from what stands behind it. -/
theorem canonicalType_inj : ∀ (f g : Field) (rest rest' : List Char), f.Worded → g.Worded →
    Closed rest → Closed rest' →
    f.canonicalType.toList ++ rest = g.canonicalType.toList ++ rest' →
    f.bare = g.bare ∧ rest = rest'
  | regular _ _ _, regular _ _ _, _, _, hf, hg, hrest, hrest', h =>
      regular_inj hf hg hrest hrest' h
  | regular _ _ _, tuple _ _ _, _, _, hf, _, _, _, h => absurd h (regular_ne_tuple hf)
  | tuple _ _ _, regular _ _ _, _, _, _, hg, _, _, h => absurd h.symm (regular_ne_tuple hg)
  | tuple _ components dims, tuple _ components' dims', rest, rest', hf, hg, hrest, hrest', h => by
      simp only [toList_canonicalType_tuple, List.cons_append, List.append_assoc, List.cons.injEq,
        true_and] at h
      obtain ⟨hcomponents, hbehind⟩ := listedTypes_inj components components' _ _ hf hg h
      obtain ⟨rfl, hend⟩ := Dim.texts_inj hrest.head?_ne hrest'.head?_ne hbehind
      exact ⟨by rw [bare, bare, hcomponents], hend⟩

theorem listedTypes_inj : ∀ (fs gs : List Field) (rest rest' : List Char), WordedAll fs →
    WordedAll gs → listedTypes fs ++ ')' :: rest = listedTypes gs ++ ')' :: rest' →
    bareAll fs = bareAll gs ∧ rest = rest'
  | [], [], _, _, _, _, h => ⟨rfl, (List.cons.inj h).2⟩
  | [], g :: gs, _, _, _, hg, h => by
      obtain ⟨c, cs, hlist, hc⟩ := exists_head_of_worded hg.1
      rw [listedTypes, listedTypes, hlist] at h
      exact absurd (List.cons.inj h).1.symm hc
  | f :: fs, [], _, _, hf, _, h => by
      obtain ⟨c, cs, hlist, hc⟩ := exists_head_of_worded hf.1
      rw [listedTypes, listedTypes, hlist] at h
      exact absurd (List.cons.inj h).1 hc
  | f :: fs, g :: gs, rest, rest', hf, hg, h => by
      rw [listedTypes, listedTypes, List.append_assoc, List.append_assoc] at h
      obtain ⟨hfirst, hfurther⟩ := canonicalType_inj f g _ _ hf.1 hg.1
        (closed_furtherTypes fs rest) (closed_furtherTypes gs rest') h
      obtain ⟨hothers, hend⟩ := furtherTypes_inj fs gs _ _ hf.2 hg.2 hfurther
      exact ⟨by rw [bareAll, bareAll, hfirst, hothers], hend⟩

theorem furtherTypes_inj : ∀ (fs gs : List Field) (rest rest' : List Char), WordedAll fs →
    WordedAll gs → furtherTypes fs ++ ')' :: rest = furtherTypes gs ++ ')' :: rest' →
    bareAll fs = bareAll gs ∧ rest = rest'
  | [], [], _, _, _, _, h => ⟨rfl, (List.cons.inj h).2⟩
  | [], g :: gs, _, _, _, _, h => absurd (List.cons.inj h).1 (by decide)
  | f :: fs, [], _, _, _, _, h => absurd (List.cons.inj h).1 (by decide)
  | f :: fs, g :: gs, rest, rest', hf, hg, h => by
      simp only [furtherTypes, List.cons_append, List.append_assoc, List.cons.injEq,
        true_and] at h
      obtain ⟨hfirst, hfurther⟩ := canonicalType_inj f g _ _ hf.1 hg.1
        (closed_furtherTypes fs rest) (closed_furtherTypes gs rest') h
      obtain ⟨hothers, hend⟩ := furtherTypes_inj fs gs _ _ hf.2 hg.2 hfurther
      exact ⟨by rw [bareAll, bareAll, hfirst, hothers], hend⟩

end

mutual

theorem canonicalType_bare : ∀ f : Field, f.bare.canonicalType = f.canonicalType
  | regular _ _ _ => rfl
  | tuple _ components _ => by rw [bare, canonicalType, canonicalType, canonicalTypes_bareAll]

theorem canonicalTypes_bareAll : ∀ fs : List Field,
    canonicalTypes (bareAll fs) = canonicalTypes fs
  | [] => rfl
  | f :: fs => by
      rw [bareAll, canonicalTypes, canonicalTypes, canonicalType_bare f, canonicalTypes_bareAll fs]

end

end Field

namespace Function

/-- The name and all types of parameters are words. -/
structure Worded (f : Function) : Prop where
  name : IsWord f.name
  inputs : Field.WordedAll f.inputs

/-- Functions have one name and the same types of parameters. -/
def SameInputs (f g : Function) : Prop :=
  f.name = g.name ∧ Field.bareAll f.inputs = Field.bareAll g.inputs

theorem toList_signature (f : Function) :
    f.signature.toList = f.name.toList ++ '(' :: (Field.listedTypes f.inputs ++ [')']) := by
  rw [signature, String.toList_append, String.toList_append, String.toList_append,
    Field.toList_intercalate_canonicalTypes]
  simp

theorem signature_eq_iff {f g : Function} (hf : f.Worded) (hg : g.Worded) :
    f.signature = g.signature ↔ f.SameInputs g := by
  constructor
  · intro h
    have hlist := congrArg String.toList h
    rw [toList_signature, toList_signature] at hlist
    obtain ⟨hname, hbehind⟩ := word_inj hf.name.2 hg.name.2 (delimited_cons (by decide) _)
      (delimited_cons (by decide) _) hlist
    obtain ⟨hinputs, -⟩ :=
      Field.listedTypes_inj f.inputs g.inputs [] [] hf.inputs hg.inputs (List.cons.inj hbehind).2
    exact ⟨String.toList_injective hname, hinputs⟩
  · rintro ⟨hname, hinputs⟩
    rw [signature, signature, hname, ← Field.canonicalTypes_bareAll f.inputs, hinputs,
      Field.canonicalTypes_bareAll]

end Function

end SolidityBuild.Abi
