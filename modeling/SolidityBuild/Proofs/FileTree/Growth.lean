import Mathlib.Data.List.Nodup
import SolidityBuild.Proofs.FileTree.Change

/-!
Trees that grow. Directories are put into vacant places, files where a file may stand,
and nothing is taken away. So a tree stays one, what a path led to it still leads to,
and an entry is as it was, unless it is a directory that has been made or a file that
has been written.
-/

namespace SolidityBuild.FileTree

/-- The one tree grows into the other, entry by entry. -/
inductive Grows (before : FileTree) : FileTree → Prop
  | refl : Grows before before
  | directory {between : FileTree} {here : Location} {name : String}
      (h : Grows before between) (hhere : between.isDirectoryAt here = true)
      (hname : isName name = true) (hvacant : between.entryAt (here ++ [name]) = none) :
      Grows before (between.insert (here ++ [name]) .directory)
  | file {between : FileTree} {here : Location} {name : String} {content : Content}
      {executable : Bool} (h : Grows before between)
      (hhere : between.isDirectoryAt here = true) (hname : isName name = true)
      (htakes : TakesFile between (here ++ [name])) :
      Grows before (between.insert (here ++ [name]) (.file content executable))

variable {t t' before between after : FileTree} {here location : Location} {name : String}
  {entry : Entry} {p : Path}

theorem Grows.trans (h : Grows before between) (h' : Grows between after) : Grows before after := by
  induction h' with
  | refl => exact h
  | directory _ hhere hname hvacant ih => exact .directory ih hhere hname hvacant
  | file _ hhere hname htakes ih => exact .file ih hhere hname htakes

/-! ## What one insertion keeps -/

theorem isTree_insert (htree : t.IsTree) (hhere : t.isDirectoryAt here = true)
    (hname : isName name = true)
    (hdirectory : ∀ other, t.isDirectoryAt other = true →
      (t.insert (here ++ [name]) entry).isDirectoryAt other = true) :
    (t.insert (here ++ [name]) entry).IsTree := by
  constructor
  case distinct =>
    have hkept := htree.distinct.sublist ((List.filter_sublist
      (p := fun entry => decide (entry.1 ≠ here ++ [name]))).map Prod.fst)
    rw [insert, List.map_append, List.nodup_append]
    refine ⟨hkept, by simp, ?_⟩
    intro other hother last hlast
    obtain ⟨entry, hentry, rfl⟩ := List.mem_map.1 hother
    simp only [List.map_cons, List.map_nil, List.mem_singleton] at hlast
    subst hlast
    simpa using (List.mem_filter.1 hentry).2
  case named =>
    intro entry hentry other hother
    rcases List.mem_append.1 hentry with hold | hnew
    · exact htree.named entry (List.mem_filter.1 hold).1 other hother
    · rw [List.mem_singleton.1 hnew] at hother
      rcases List.mem_append.1 hother with habove | hlast
      · have hnil : here ≠ [] := List.ne_nil_of_mem habove
        have hmem := mem_entries_of_entryAt hnil (isDirectoryAt_iff.1 hhere)
        exact htree.named _ hmem other habove
      · rw [List.mem_singleton.1 hlast]
        exact hname
  case grounded =>
    intro entry hentry
    apply hdirectory
    rcases List.mem_append.1 hentry with hold | hnew
    · exact htree.grounded entry (List.mem_filter.1 hold).1
    · rw [List.mem_singleton.1 hnew, List.dropLast_concat]
      exact hhere

theorem isTree_insert_directory (htree : t.IsTree) (hhere : t.isDirectoryAt here = true)
    (hname : isName name = true) : (t.insert (here ++ [name]) .directory).IsTree := by
  refine isTree_insert htree hhere hname fun other hother => ?_
  rw [isDirectoryAt_iff, entryAt_insert t (by simp)]
  split
  · rfl
  · exact isDirectoryAt_iff.1 hother

theorem keeps_insert (hne : location ≠ []) (hvacant : t.entryAt location = none) :
    Keeps t (t.insert location entry) := by
  intro other old hold
  rw [entryAt_insert_of_ne t hne]
  · exact hold
  · rintro rfl
    rw [hvacant] at hold
    cases hold

theorem length_le_length_insert (htree : t.IsTree) (location : Location) (entry : Entry) :
    t.entries.length ≤ (t.insert location entry).entries.length := by
  have hsubset : t.entries.map Prod.fst ⊆ (t.insert location entry).entries.map Prod.fst := by
    intro other hother
    obtain ⟨e, he, rfl⟩ := List.mem_map.1 hother
    rw [insert, List.map_append, List.mem_append]
    by_cases heq : e.1 = location
    · exact .inr (by simp [heq])
    · exact .inl (List.mem_map_of_mem (List.mem_filter.2 ⟨he, by simpa using heq⟩))
  have hle := htree.distinct.length_le_of_subset hsubset
  rwa [List.length_map, List.length_map] at hle

/-! ## What growing keeps -/

theorem Grows.isTree (h : Grows before after) (htree : before.IsTree) : after.IsTree := by
  induction h with
  | refl => exact htree
  | directory _ hhere hname _ ih => exact isTree_insert_directory ih hhere hname
  | file _ hhere hname htakes ih =>
      exact isTree_insert ih hhere hname fun other hother =>
        (isDirectoryAt_insert_file htakes other).trans hother

theorem Grows.length_le (h : Grows before after) (htree : before.IsTree) :
    before.entries.length ≤ after.entries.length := by
  induction h with
  | refl => exact Nat.le_refl _
  | directory h _ _ _ ih => exact Nat.le_trans ih (length_le_length_insert (h.isTree htree) _ _)
  | file h _ _ _ ih => exact Nat.le_trans ih (length_le_length_insert (h.isTree htree) _ _)

/-- What a path led to it still leads to. -/
theorem Grows.reach? (h : Grows before after) (hreach : before.reach? p = some (.entry location)) :
    after.reach? p = some (.entry location) := by
  induction h with
  | refl => exact hreach
  | directory _ _ _ hvacant ih => exact (keeps_insert (by simp) hvacant).reach? ih
  | file _ _ _ htakes ih => exact reach?_insert_file htakes ih

/-- An entry is as it was, or new. -/
theorem Grows.entryAt_cases (h : Grows before after) (location : Location) :
    after.entryAt location = before.entryAt location ∨
      before.entryAt location = none ∧ after.entryAt location = some .directory ∨
      TakesFile before location ∧
        ∃ content executable, after.entryAt location = some (.file content executable) := by
  induction h with
  | refl => exact .inl rfl
  | @directory between here name _ _ _ hvacant ih =>
      rw [entryAt_insert between (by simp)]
      split
      next heq =>
        subst heq
        rcases ih with hsame | ⟨-, hmade⟩ | ⟨-, content, executable, hwritten⟩
        · exact .inr (.inl ⟨hsame.symm.trans hvacant, rfl⟩)
        · rw [hvacant] at hmade
          cases hmade
        · rw [hvacant] at hwritten
          cases hwritten
      next => exact ih
  | @file between here name content executable _ _ _ htakes ih =>
      rw [entryAt_insert between (by simp)]
      split
      next heq =>
        subst heq
        refine .inr (.inr ⟨?_, content, executable, rfl⟩)
        rcases ih with hsame | ⟨hnone, -⟩ | ⟨htakes', -⟩
        · exact ⟨htakes.1, fun entry hentry => htakes.2 entry (hsame.trans hentry)⟩
        · exact ⟨htakes.1, fun entry hentry => by rw [hnone] at hentry; cases hentry⟩
        · exact htakes'
      next => exact ih

theorem Grows.exists_entryAt (h : Grows before after)
    (hentry : before.entryAt location = some entry) :
    ∃ entry, after.entryAt location = some entry := by
  rcases h.entryAt_cases location with hsame | ⟨hnone, -⟩ | ⟨-, content, executable, hwritten⟩
  · exact ⟨entry, hsame.trans hentry⟩
  · rw [hnone] at hentry
    cases hentry
  · exact ⟨_, hwritten⟩

theorem Grows.isDirectoryAt_eq (h : Grows before after)
    (hentry : before.entryAt location = some entry) :
    after.isDirectoryAt location = before.isDirectoryAt location := by
  rcases h.entryAt_cases location with hsame | ⟨hnone, -⟩ | ⟨htakes, content, executable, hwritten⟩
  · rw [isDirectoryAt, isDirectoryAt, hsame]
  · rw [hnone] at hentry
    cases hentry
  · obtain ⟨content', executable', rfl⟩ := htakes.2 entry hentry
    rw [isDirectoryAt, isDirectoryAt, hwritten, hentry]
    simp

theorem Grows.isDirectoryAt (h : Grows before after)
    (hdirectory : before.isDirectoryAt location = true) : after.isDirectoryAt location = true :=
  (h.isDirectoryAt_eq (isDirectoryAt_iff.1 hdirectory)).trans hdirectory

theorem Grows.locate? (h : Grows before after) (hlocate : before.locate? p = some location) :
    after.locate? p = some location := by
  have htarget := target?_of_locate? hlocate
  have hreach := h.reach? (reach?_of_target? htarget)
  unfold target? at htarget
  split at htarget
  next husable =>
    rw [FileTree.locate?, target?, if_pos husable, hreach]
    rfl
  next => cases htarget

/-! ## Writing -/

theorem grows_of_write? {text : String} (htree : t.IsTree) (h : t.write? p text = some t') :
    Grows t t' := by
  obtain ⟨location, executable, hspot, htakes, rfl⟩ := exists_of_write? h
  obtain ⟨here, name, rfl⟩ : ∃ here name, location = here ++ [name] :=
    ⟨_, _, (List.dropLast_concat_getLast htakes.1).symm⟩
  cases hentry : t.entryAt (here ++ [name]) with
  | some entry =>
      have hinside := isDirectoryAt_dropLast htree hentry
      rw [List.dropLast_concat] at hinside
      have hmem := mem_entries_of_entryAt htakes.1 hentry
      exact .file .refl hinside (htree.named _ hmem name (by simp)) htakes
  | none =>
      obtain ⟨target, htarget, hplace⟩ := Option.map_eq_some_iff.1 hspot
      rw [write?, htarget] at h
      cases target with
      | entry location =>
          obtain rfl : location = here ++ [name] := hplace
          simp only [hentry] at h
          cases h
      | vacant location =>
          obtain rfl : location = here ++ [name] := hplace
          have hinside := (target?_vacant htarget).inside
          rw [List.dropLast_concat] at hinside
          simp only [occupy?, List.getLast?_concat] at h
          split at h
          next hname => exact .file .refl hinside hname htakes
          next => cases h

end SolidityBuild.FileTree
