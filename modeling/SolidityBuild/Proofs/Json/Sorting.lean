import Mathlib.Data.List.Nodup
import SolidityBuild.Json.Record
import SolidityBuild.Proofs.Json.Held

/-!
How the fields of a record are sorted. Where no flaw is found, each field is either
one that the record declares, given once, or one of the others, and none is lost.
-/

namespace SolidityBuild.Json.Record

variable {names : List String} {undeclared : Undeclared} {place : Nat} {key : String}
  {known unknown : List (String × Nat × Document)} {fields : List (Option String × Document)}
  {fs : List (String × Value)} {d : Document}

/-- Whether a record declares a field. -/
def declares (names : List String) (f : Option String × Document) : Bool :=
  f.1.any fun key => decide (key ∈ names)

/-- A sorted field without its place. -/
def unplaced (f : String × Nat × Document) : Option String × Document := (some f.1, f.2.2)

theorem lookup_declared (fields : List (Option String × Document)) (hkey : key ∈ names) :
    (fields.filter (declares names)).lookup (some key) = fields.lookup (some key) := by
  have hfilter := TextMap.lookup_filter (fun k => k.any fun key => decide (key ∈ names)) fields
    (some key)
  rwa [Option.any_some, if_pos (decide_eq_true hkey)] at hfilter

theorem lookup_undeclared (fields : List (Option String × Document)) (hkey : key ∉ names) :
    (fields.filter fun f => !declares names f).lookup (some key) = fields.lookup (some key) := by
  have hfilter := TextMap.lookup_filter (fun k => !k.any fun key => decide (key ∈ names)) fields
    (some key)
  rwa [Option.any_some, decide_eq_false hkey] at hfilter

/-- What becomes of the first field if no flaw is found. -/
theorem collect_cons {key : Option String}
    (hflaw : (collect names undeclared place known unknown ((key, d) :: fields)).flaw = none) :
    ∃ k, key = some k ∧
      ((k ∈ names ∧ known.lookup k = none ∧
          collect names undeclared place known unknown ((key, d) :: fields) =
            collect names undeclared (place + 1) (known ++ [(k, place, d)]) unknown fields) ∨
        (k ∉ names ∧ undeclared = .keep ∧
          collect names undeclared place known unknown ((key, d) :: fields) =
            collect names undeclared (place + 1) known (unknown ++ [(k, place, d)]) fields) ∨
        (k ∉ names ∧ undeclared = .skip ∧
          collect names undeclared place known unknown ((key, d) :: fields) =
            collect names undeclared (place + 1) known unknown fields)) := by
  cases key with
  | none => cases hflaw
  | some k =>
      refine ⟨k, rfl, ?_⟩
      simp only [collect] at hflaw ⊢
      by_cases hmem : k ∈ names
      · rw [if_pos hmem] at hflaw ⊢
        by_cases hknown : (known.lookup k).isSome = true
        · rw [if_pos hknown] at hflaw
          cases hflaw
        · rw [if_neg hknown]
          exact .inl ⟨hmem, Option.not_isSome_iff_eq_none.1 hknown, rfl⟩
      · rw [if_neg hmem] at hflaw ⊢
        cases undeclared with
        | reject => cases hflaw
        | keep => exact .inr (.inl ⟨hmem, rfl, rfl⟩)
        | skip =>
            refine .inr (.inr ⟨hmem, rfl, ?_⟩)
            by_cases hintact : d.intact = true
            · exact if_pos hintact
            · rw [if_neg hintact] at hflaw
              cases hflaw

theorem nodup_keys_concat (hnodup : (known.map Prod.fst).Nodup)
    (hnew : known.lookup key = none) : ((known ++ [(key, place, d)]).map Prod.fst).Nodup := by
  have hmem : key ∉ known.map Prod.fst := by
    rintro hkey
    obtain ⟨f, hf, rfl⟩ := List.mem_map.1 hkey
    exact absurd (List.lookup_eq_none_iff.1 hnew f hf) (by simp)
  rw [List.map_append, List.map_singleton, List.nodup_append]
  refine ⟨hnodup, List.nodup_singleton key, fun k hk k' hk' heq => ?_⟩
  rw [List.mem_singleton] at hk'
  rw [heq, hk'] at hk
  exact hmem hk

/-- Without a flaw, each field is either among the declared ones, which have
distinct keys, or among the others. -/
theorem collect_of_flaw_eq_none
    (hflaw : (collect names undeclared place known unknown fields).flaw = none)
    (hnodup : (known.map Prod.fst).Nodup) :
    let r := collect names undeclared place known unknown fields
    (r.known.map Prod.fst).Nodup ∧
      r.known.map unplaced = known.map unplaced ++ fields.filter (declares names) ∧
      (undeclared = .keep → r.unknown.map unplaced =
        unknown.map unplaced ++ fields.filter fun f => !declares names f) := by
  induction fields generalizing place known unknown with
  | nil => exact ⟨hnodup, by simp [collect], by simp [collect]⟩
  | cons f fields ih =>
      obtain ⟨key, d⟩ := f
      obtain ⟨k, rfl, hcases⟩ := collect_cons hflaw
      rcases hcases with ⟨hmem, hnew, hnext⟩ | ⟨hmem, hkeep, hnext⟩ | ⟨hmem, hskip, hnext⟩
      · have hdeclares : declares names (some k, d) = true := decide_eq_true hmem
        rw [hnext] at hflaw ⊢
        obtain ⟨hkeys, hknown, hunknown⟩ := ih hflaw (nodup_keys_concat hnodup hnew)
        refine ⟨hkeys, ?_, fun hkeep => ?_⟩
        · rw [hknown, List.filter_cons_of_pos hdeclares, List.map_append, List.append_assoc]
          rfl
        · rw [hunknown hkeep, List.filter_cons_of_neg (by simp [hdeclares])]
      · have hdeclares : declares names (some k, d) = false := decide_eq_false hmem
        rw [hnext] at hflaw ⊢
        obtain ⟨hkeys, hknown, hunknown⟩ := ih hflaw hnodup
        rw [List.filter_cons_of_neg (by simp [hdeclares]),
          List.filter_cons_of_pos (by simp [hdeclares])]
        refine ⟨hkeys, hknown, fun hkeep => ?_⟩
        rw [hunknown hkeep, List.map_append, List.append_assoc]
        rfl
      · have hdeclares : declares names (some k, d) = false := decide_eq_false hmem
        rw [hnext] at hflaw ⊢
        obtain ⟨hkeys, hknown, -⟩ := ih hflaw hnodup
        rw [List.filter_cons_of_neg (by simp [hdeclares])]
        exact ⟨hkeys, hknown, fun hkeep => by rw [hskip] at hkeep; cases hkeep⟩

/-- Nothing is at fault in written fields with distinct keys, unless one of them is
rejected. -/
theorem flaw_collect_eq_none (hfs : ∀ f ∈ fs, f.1 ∈ names ∨ undeclared ≠ .reject)
    (hnodup : (fs.map Prod.fst).Nodup) (hnew : ∀ f ∈ fs, known.lookup f.1 = none) :
    (collect names undeclared place known unknown (Value.fieldDocuments fs)).flaw = none := by
  induction fs generalizing place known unknown with
  | nil => rfl
  | cons f fs ih =>
      obtain ⟨k, v⟩ := f
      obtain ⟨hmem, hfs⟩ := List.forall_mem_cons.1 hfs
      obtain ⟨hk, hnew⟩ := List.forall_mem_cons.1 hnew
      rw [List.map_cons, List.nodup_cons] at hnodup
      have hnext : ∀ f ∈ fs, (known ++ [(k, place, v.toDocument)]).lookup f.1 = none := by
        intro f hf
        have hne : f.1 ≠ k := by
          rintro rfl
          exact hnodup.1 (List.mem_map.2 ⟨f, hf, rfl⟩)
        rw [List.lookup_append, hnew f hf, Option.none_or, List.lookup_cons, beq_false_of_ne hne]
        rfl
      simp only [Value.fieldDocuments, collect]
      split
      next => rw [hk]; exact ih hfs hnodup.2 hnext
      next hnot =>
        cases undeclared with
        | reject => exact absurd rfl (hmem.resolve_left hnot)
        | keep => exact ih hfs hnodup.2 hnew
        | skip =>
            simp only [Value.intact_toDocument]
            exact ih hfs hnodup.2 hnew

/-- Under its names a record has what the fields hold. -/
theorem lookup_collect (hflaw : (collect names undeclared 0 [] [] fields).flaw = none)
    (hkey : key ∈ names) :
    ((collect names undeclared 0 [] [] fields).known.lookup key).map Prod.snd =
      fields.reverse.lookup (some key) := by
  obtain ⟨hnodup, hknown, -⟩ := collect_of_flaw_eq_none hflaw List.nodup_nil
  rw [← TextMap.lookup_reverse hnodup, ← lookup_map_some Prod.snd, List.map_reverse,
    ← lookup_declared fields.reverse hkey, List.filter_reverse]
  exact congrArg (fun fs => fs.reverse.lookup (some key)) hknown

end SolidityBuild.Json.Record
