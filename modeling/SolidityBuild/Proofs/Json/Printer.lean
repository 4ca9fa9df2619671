import SolidityBuild.Proofs.Json.Spelling

/-!
Both forms in which values are written spell them, so a value is read back from
either. Only fractional numbers are in the way, and integers beyond the range
that the reader keeps.
-/

namespace SolidityBuild.Json

namespace Value

mutual

/-- Whether every number in the value is an integer that the reader keeps. -/
def Exact : Value → Prop
  | int n => leastInteger ≤ n ∧ n ≤ largestInteger
  | float _ => False
  | arr items => ExactItems items
  | obj fields => ExactFields fields
  | null | bool _ | str _ => True

def ExactItems : List Value → Prop
  | [] => True
  | v :: vs => v.Exact ∧ ExactItems vs

def ExactFields : List (String × Value) → Prop
  | [] => True
  | (_, v) :: fs => v.Exact ∧ ExactFields fs

end

theorem exactItems_iff {items : List Value} : ExactItems items ↔ ∀ v ∈ items, v.Exact := by
  induction items with
  | nil => simp [ExactItems]
  | cons v vs ih => rw [ExactItems, ih, List.forall_mem_cons]

theorem exactFields_iff {fields : List (String × Value)} :
    ExactFields fields ↔ ∀ f ∈ fields, f.2.Exact := by
  induction fields with
  | nil => simp [ExactFields]
  | cons f fs ih => rw [ExactFields, ih, List.forall_mem_cons]

/-! ## The compact form -/

theorem blank_nil : Blank [] := fun _ hc => by cases hc

theorem spellsKey_quote (k : String) : SpellsKey ((quote k).toList ++ [':']) k := by
  have h := SpellsKey.mk blank_nil k blank_nil
  rwa [List.nil_append, List.nil_append] at h

mutual

theorem spells_compact : ∀ v : Value, v.Exact → Spells v.compact.toList v
  | null, _ => by simpa [compact] using Spells.null
  | bool true, _ => by simpa [compact] using Spells.boolTrue
  | bool false, _ => by simpa [compact] using Spells.boolFalse
  | int n, h => by
      rw [Exact] at h
      rw [compact]
      exact .int h.1 h.2
  | str s, _ => by
      rw [compact]
      exact .str s
  | arr items, h => by
      rw [Exact] at h
      have htext : (arr items).compact.toList = '[' :: (compactItems items ++ "]").toList := by
        simp [compact]
      rw [htext]
      by_cases hne : items = []
      · simpa [hne, compactItems] using Spells.emptyArr blank_nil
      · exact .arr (spells_compactItems items h hne)
  | obj fields, h => by
      rw [Exact] at h
      have htext : (obj fields).compact.toList =
          '\x7b' :: (compactFields fields ++ "\x7d").toList := by simp [compact]
      rw [htext]
      by_cases hne : fields = []
      · simpa [hne, compactFields] using Spells.emptyObj blank_nil
      · exact .obj (spells_compactFields fields h hne)

theorem spells_compactItems : ∀ items : List Value, ExactItems items → items ≠ [] →
    SpellsItems (compactItems items ++ "]").toList items
  | [], _, hne => absurd rfl hne
  | [v], h, _ => by
      have htext : (compactItems [v] ++ "]").toList =
          [] ++ (v.compact.toList ++ ([] ++ [']'])) := by simp [compactItems]
      rw [htext]
      exact .last blank_nil (spells_compact v h.1) blank_nil
  | v :: w :: vs, h, _ => by
      have htext : (compactItems (v :: w :: vs) ++ "]").toList =
          [] ++ (v.compact.toList ++ ([] ++ ',' :: (compactItems (w :: vs) ++ "]").toList)) := by
        simp [compactItems]
      rw [htext]
      exact .more blank_nil (spells_compact v h.1) blank_nil
        (spells_compactItems (w :: vs) h.2 (List.cons_ne_nil w vs))

theorem spells_compactFields : ∀ fields : List (String × Value), ExactFields fields →
    fields ≠ [] → SpellsFields (compactFields fields ++ "\x7d").toList fields
  | [], _, hne => absurd rfl hne
  | [(k, v)], h, _ => by
      have htext : (compactFields [(k, v)] ++ "\x7d").toList =
          ((quote k).toList ++ [':']) ++ ([] ++ (v.compact.toList ++ ([] ++ ['\x7d']))) := by
        simp [compactFields]
      rw [htext]
      exact .last (spellsKey_quote k) blank_nil (spells_compact v h.1) blank_nil
  | (k, v) :: g :: fs, h, _ => by
      have htext : (compactFields ((k, v) :: g :: fs) ++ "\x7d").toList =
          ((quote k).toList ++ [':']) ++ ([] ++ (v.compact.toList ++
            ([] ++ ',' :: (compactFields (g :: fs) ++ "\x7d").toList))) := by
        simp [compactFields]
      rw [htext]
      exact .more (spellsKey_quote k) blank_nil (spells_compact v h.1) blank_nil
        (spells_compactFields (g :: fs) h.2 (List.cons_ne_nil g fs))

end

/-- A value is read back from its compact form. -/
theorem read_compact {v : Value} (h : v.Exact) (hdepth : v.toDocument.nesting ≤ nestingLimit) :
    read v.compact = ⟨v.toDocument, true⟩ :=
  read_of_spells blank_nil (spells_compact v h) blank_nil (by simp) hdepth

/-! ## The indented form -/

theorem blank_newline (level : Nat) : Blank (newline level).toList := by
  intro c hc
  simp only [newline, String.toList_append, String.toList_ofList, List.mem_append,
    List.mem_replicate] at hc
  rcases hc with hc | ⟨-, rfl⟩
  · obtain rfl : c = '\n' := by simpa using hc
    decide
  · decide

theorem blank_space : Blank [' '] := by
  intro c hc
  rw [List.mem_singleton.1 hc]
  decide

theorem spellsKey_newline (level : Nat) (k : String) :
    SpellsKey ((newline level).toList ++ ((quote k).toList ++ [':'])) k := by
  have h := SpellsKey.mk (blank_newline level) k blank_nil
  rwa [List.nil_append] at h

theorem toList_indentedAt_arr {level : Nat} {items : List Value} (h : items ≠ []) :
    ((arr items).indentedAt level).toList =
      '[' :: (indentedItems (level + 1) items ++ newline level ++ "]").toList := by
  obtain ⟨v, vs, rfl⟩ := List.exists_cons_of_ne_nil h
  simp [indentedAt]

theorem toList_indentedAt_obj {level : Nat} {fields : List (String × Value)} (h : fields ≠ []) :
    ((obj fields).indentedAt level).toList =
      '\x7b' :: (indentedFields (level + 1) fields ++ newline level ++ "\x7d").toList := by
  obtain ⟨f, fs, rfl⟩ := List.exists_cons_of_ne_nil h
  simp [indentedAt]

mutual

theorem spells_indentedAt (level : Nat) :
    ∀ v : Value, v.Exact → Spells (v.indentedAt level).toList v
  | null, _ => by simpa [indentedAt] using Spells.null
  | bool true, _ => by simpa [indentedAt] using Spells.boolTrue
  | bool false, _ => by simpa [indentedAt] using Spells.boolFalse
  | int n, h => by
      rw [Exact] at h
      rw [indentedAt]
      exact .int h.1 h.2
  | str s, _ => by
      rw [indentedAt]
      exact .str s
  | arr items, h => by
      rw [Exact] at h
      by_cases hne : items = []
      · rw [hne]
        simpa [indentedAt] using Spells.emptyArr blank_nil
      · rw [toList_indentedAt_arr hne]
        exact .arr (spells_indentedItems (level + 1) level items h hne)
  | obj fields, h => by
      rw [Exact] at h
      by_cases hne : fields = []
      · rw [hne]
        simpa [indentedAt] using Spells.emptyObj blank_nil
      · rw [toList_indentedAt_obj hne]
        exact .obj (spells_indentedFields (level + 1) level fields h hne)

theorem spells_indentedItems (level outer : Nat) :
    ∀ items : List Value, ExactItems items → items ≠ [] →
      SpellsItems (indentedItems level items ++ newline outer ++ "]").toList items
  | [], _, hne => absurd rfl hne
  | [v], h, _ => by
      have htext : (indentedItems level [v] ++ newline outer ++ "]").toList =
          (newline level).toList ++ ((v.indentedAt level).toList ++
            ((newline outer).toList ++ [']'])) := by simp [indentedItems]
      rw [htext]
      exact .last (blank_newline level) (spells_indentedAt level v h.1) (blank_newline outer)
  | v :: w :: vs, h, _ => by
      have htext : (indentedItems level (v :: w :: vs) ++ newline outer ++ "]").toList =
          (newline level).toList ++ ((v.indentedAt level).toList ++
            ([] ++ ',' :: (indentedItems level (w :: vs) ++ newline outer ++ "]").toList)) := by
        simp [indentedItems]
      rw [htext]
      exact .more (blank_newline level) (spells_indentedAt level v h.1) blank_nil
        (spells_indentedItems level outer (w :: vs) h.2 (List.cons_ne_nil w vs))

theorem spells_indentedFields (level outer : Nat) :
    ∀ fields : List (String × Value), ExactFields fields → fields ≠ [] →
      SpellsFields (indentedFields level fields ++ newline outer ++ "\x7d").toList fields
  | [], _, hne => absurd rfl hne
  | [(k, v)], h, _ => by
      have htext : (indentedFields level [(k, v)] ++ newline outer ++ "\x7d").toList =
          ((newline level).toList ++ ((quote k).toList ++ [':'])) ++
            ([' '] ++ ((v.indentedAt level).toList ++ ((newline outer).toList ++ ['\x7d']))) := by
        simp [indentedFields]
      rw [htext]
      exact .last (spellsKey_newline level k) blank_space (spells_indentedAt level v h.1)
        (blank_newline outer)
  | (k, v) :: g :: fs, h, _ => by
      have htext : (indentedFields level ((k, v) :: g :: fs) ++ newline outer ++ "\x7d").toList =
          ((newline level).toList ++ ((quote k).toList ++ [':'])) ++
            ([' '] ++ ((v.indentedAt level).toList ++
              ([] ++ ',' ::
                (indentedFields level (g :: fs) ++ newline outer ++ "\x7d").toList))) := by
        simp [indentedFields]
      rw [htext]
      exact .more (spellsKey_newline level k) blank_space (spells_indentedAt level v h.1) blank_nil
        (spells_indentedFields level outer (g :: fs) h.2 (List.cons_ne_nil g fs))

end

/-- A value is read back from its indented form. -/
theorem read_indented {v : Value} (h : v.Exact)
    (hdepth : v.toDocument.nesting ≤ nestingLimit) : read v.indented = ⟨v.toDocument, true⟩ :=
  read_of_spells blank_nil (spells_indentedAt 0 v h) blank_nil (by simp [indented]) hdepth

/-! ## Values that fit a depth -/

/-- A value whose text is read back wherever so many levels are left. -/
structure Fits (depth : Nat) (v : Value) : Prop where
  exact : v.Exact
  nesting : v.toDocument.nesting ≤ depth

variable {depth depth' : Nat}

theorem Fits.mono {v : Value} (h : v.Fits depth) (hdepth : depth ≤ depth') : v.Fits depth' :=
  ⟨h.exact, Nat.le_trans h.nesting hdepth⟩

@[simp] theorem fits_str (s : String) : (str s).Fits depth := ⟨trivial, Nat.zero_le _⟩

@[simp] theorem fits_bool (b : Bool) : (bool b).Fits depth := ⟨trivial, Nat.zero_le _⟩

theorem fits_int {n : Int} (hleast : leastInteger ≤ n) (hlargest : n ≤ largestInteger) :
    (int n).Fits depth :=
  ⟨⟨hleast, hlargest⟩, Nat.zero_le _⟩

theorem fits_uint64 (n : UInt64) : (int n.toNat).Fits depth := by
  have hleast : leastInteger ≤ 0 := by decide
  have hlargest : largestInteger = UInt64.size - 1 := rfl
  have hlt := n.toNat_lt_size
  exact fits_int (by omega) (by omega)

theorem fits_arr {items : List Value} (h : ∀ v ∈ items, v.Fits depth) :
    (arr items).Fits (depth + 1) :=
  ⟨exactItems_iff.2 fun v hv => (h v hv).exact, nesting_arr_le_iff.2 fun v hv => (h v hv).nesting⟩

theorem fits_obj {fields : List (String × Value)} (h : ∀ f ∈ fields, f.2.Fits depth) :
    (obj fields).Fits (depth + 1) :=
  ⟨exactFields_iff.2 fun f hf => (h f hf).exact, nesting_obj_le_iff.2 fun f hf => (h f hf).nesting⟩

theorem fits_ofMap {α : Type} {write : α → Value} {map : TextMap α}
    (h : ∀ e ∈ map.entries, (write e.2).Fits depth) : (ofMap write map).Fits (depth + 1) :=
  fits_obj (List.forall_mem_map.2 h)

end Value

end SolidityBuild.Json
