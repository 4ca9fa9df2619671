import SolidityBuild.Proofs.FileTree.Walk

/-!
Canonical paths. The canonical path of an entry is the path of its location, and
it leads to the entry by itself: it is of a length to be used, and so are those
of the directories on the way. A file that is written there changes none of this.
-/

namespace SolidityBuild.FileTree

open SolidityBuild.Path

variable {t : FileTree} {location : Location} {entry : Entry} {p : Path}

/-! ## The path of a location -/

theorem isUsable_pathOf_iff :
    isUsable (pathOf location) = true ↔ (joinSegments location).utf8ByteSize + 1 < pathLimit := by
  have hne : "/" ++ joinSegments location ≠ "" := by
    intro h
    have hsize := congrArg String.utf8ByteSize h
    rw [String.utf8ByteSize_append] at hsize
    have hslash : "/".utf8ByteSize = 1 := by decide
    simp [hslash] at hsize
  have hslash : "/".utf8ByteSize = 1 := by decide
  rw [isUsable, Bool.and_eq_true, decide_eq_true_iff, decide_eq_true_iff, pathOf,
    String.utf8ByteSize_append, hslash, Nat.add_comm]
  exact and_iff_right hne

theorem utf8ByteSize_joinSegments_dropLast_le (segments : List String) :
    (joinSegments segments.dropLast).utf8ByteSize ≤ (joinSegments segments).utf8ByteSize := by
  induction segments with
  | nil => exact Nat.le_refl _
  | cons segment rest ih =>
      by_cases hrest : rest = []
      · subst hrest
        exact Nat.zero_le _
      · rw [List.dropLast_cons_of_ne_nil hrest, joinSegments_cons hrest]
        simp only [String.utf8ByteSize_append]
        by_cases hlast : rest.dropLast = []
        · rw [hlast, joinSegments, String.intercalate_singleton]
          omega
        · rw [joinSegments_cons hlast]
          simp only [String.utf8ByteSize_append]
          omega

theorem isUsable_dropLast (h : isUsable (pathOf location) = true) :
    isUsable (pathOf location.dropLast) = true := by
  have hle := utf8ByteSize_joinSegments_dropLast_le location
  rw [isUsable_pathOf_iff] at h ⊢
  omega

theorem along_location (htree : t.IsTree) {onLink : Location → List String → Option Target}
    (hlink : ∀ target, entry ≠ .link target) {here : Location} {names : List String}
    (hentry : t.entryAt (here ++ names) = some entry) :
    t.along onLink here names = some (.entry (here ++ names)) := by
  induction names generalizing here with
  | nil => rw [along, List.append_nil]
  | cons name rest ih =>
      have hnext : (here ++ [name]) ++ rest = here ++ name :: rest := by simp
      have hhere := isDirectoryAt_of_append htree (List.cons_ne_nil name rest) hentry
      have hname : isName name = true :=
        htree.named _ (mem_entries_of_entryAt (by simp) hentry) name (by simp)
      -- what stands on the way is a directory, and what stands at the end is no link
      have hstep : ∃ other, t.entryAt (here ++ [name]) = some other ∧
          ∀ target, other ≠ .link target := by
        cases rest with
        | nil => exact ⟨entry, hentry, hlink⟩
        | cons second others =>
            have hdirectory := isDirectoryAt_of_append htree (List.cons_ne_nil second others)
              (hnext ▸ hentry)
            exact ⟨.directory, isDirectoryAt_iff.1 hdirectory, fun target h => by cases h⟩
      obtain ⟨other, hother, hplain⟩ := hstep
      rw [along_cons, move_name hhere hname, hother]
      cases other with
      | link target => exact absurd rfl (hplain target)
      | directory => exact hnext ▸ ih (hnext ▸ hentry)
      | file content executable => exact hnext ▸ ih (hnext ▸ hentry)

/-- An entry that is no link is led to by the path of its location. -/
theorem reach?_pathOf_of_entryAt (htree : t.IsTree) (hentry : t.entryAt location = some entry)
    (hlink : ∀ target, entry ≠ .link target) :
    t.reach? (pathOf location) = some (.entry location) := by
  have hslash : ∀ n ∈ location, '/' ∉ n.toList := by
    intro n hn
    have hmem := mem_entries_of_entryAt (List.ne_nil_of_mem hn) hentry
    exact (proper_of_isName (htree.named _ hmem n hn)).2.2.2
  obtain ⟨onLink, hfollow⟩ := exists_follow_eq_along t linkLimit
  have hroot : t.entryAt ([] ++ location) = some entry := hentry
  rw [reach?_pathOf t hslash, hfollow]
  exact along_location htree hlink hroot

/-! ## Where paths lead -/

section Leads

variable {onLink : Location → List String → Option Target} {here next start : Location}
  {segment : String} {segments : List String}

theorem exists_entryAt_of_move_onto (htree : t.IsTree) (hmove : t.move here segment = .onto next) :
    ∃ entry, t.entryAt next = some entry := by
  rcases t.move_cases here segment with
    h | ⟨hhere, h | h | ⟨-, h⟩ | ⟨target, -, h⟩ | ⟨entry, hentry, h⟩⟩ <;>
    rw [h] at hmove
  case inr.inl =>
    obtain rfl := Move.onto.inj hmove
    exact ⟨_, isDirectoryAt_iff.1 hhere⟩
  case inr.inr.inl =>
    obtain rfl := Move.onto.inj hmove
    exact ⟨_, isDirectoryAt_iff.1 (isDirectoryAt_dropLast htree (isDirectoryAt_iff.1 hhere))⟩
  case inr.inr.inr.inr.inr =>
    obtain rfl := Move.onto.inj hmove
    exact ⟨entry, hentry⟩
  all_goals cases hmove

theorem exists_entryAt_of_move_link (hmove : t.move here segment = .link start segments) :
    ∃ entry, t.entryAt start = some entry := by
  rcases t.move_cases here segment with
    h | ⟨hhere, h | h | ⟨-, h⟩ | ⟨target, -, h⟩ | ⟨entry, -, h⟩⟩ <;>
    rw [h] at hmove
  case inr.inr.inr.inr.inl =>
    obtain ⟨rfl, -⟩ := Move.link.inj hmove
    split
    · exact ⟨.directory, rfl⟩
    · exact ⟨.directory, isDirectoryAt_iff.1 hhere⟩
  all_goals cases hmove

theorem exists_entryAt_of_along (htree : t.IsTree)
    (hlink : ∀ start segments, (∃ entry, t.entryAt start = some entry) →
      onLink start segments = some (.entry location) → ∃ entry, t.entryAt location = some entry)
    (hhere : ∃ entry, t.entryAt here = some entry)
    (h : t.along onLink here segments = some (.entry location)) :
    ∃ entry, t.entryAt location = some entry := by
  induction segments generalizing here with
  | nil =>
      obtain rfl := Target.entry.inj (Option.some.inj h)
      exact hhere
  | cons segment rest ih =>
      rw [along_cons] at h
      cases hmove : t.move here segment with
      | blocked =>
          rw [hmove] at h
          cases h
      | vacant next =>
          rw [hmove] at h
          simp only at h
          split at h <;> cases h
      | onto next =>
          rw [hmove] at h
          exact ih (exists_entryAt_of_move_onto htree hmove) h
      | link start segments =>
          rw [hmove] at h
          exact hlink _ _ (exists_entryAt_of_move_link hmove) h

theorem exists_entryAt_of_follow (htree : t.IsTree) {links : Nat}
    (hhere : ∃ entry, t.entryAt here = some entry)
    (h : t.follow links here segments = some (.entry location)) :
    ∃ entry, t.entryAt location = some entry := by
  induction links generalizing here segments with
  | zero => exact exists_entryAt_of_along htree (fun _ _ _ h => by cases h) hhere h
  | succ links ih => exact exists_entryAt_of_along htree (fun _ _ => ih) hhere h

/-- A path leads to an entry of the tree. -/
theorem exists_entryAt_of_reach? (htree : t.IsTree) (h : t.reach? p = some (.entry location)) :
    ∃ entry, t.entryAt location = some entry := by
  unfold reach? at h
  split at h
  · exact exists_entryAt_of_follow htree ⟨.directory, rfl⟩ h
  · cases h

theorem textFrom?_eq_some_iff {directory : Path} {text : String} :
    t.textFrom? directory p = some text ↔
      isUsable p = true ∧ ∃ location executable,
        t.reach? (directory.join p) = some (.entry location) ∧
          t.entryAt location = some (.file (.text text) executable) := by
  rw [textFrom?, entryFrom?]
  by_cases husable : isUsable p = true
  · rw [if_pos husable]
    simp only [husable, true_and, Option.bind_eq_some_iff]
    constructor
    · rintro ⟨content, ⟨entry, ⟨location, ⟨target, hreach, hlocation⟩, hentry⟩, hcontent⟩, htext⟩
      cases target with
      | vacant other => cases hlocation
      | entry other =>
          cases hlocation
          cases entry with
          | directory => cases hcontent
          | link target => cases hcontent
          | file held executable =>
              cases hcontent
              cases content with
              | binary bytes => cases htext
              | text held =>
                  cases htext
                  exact ⟨location, executable, hreach, hentry⟩
    · rintro ⟨location, executable, hreach, hentry⟩
      exact ⟨_, ⟨_, ⟨_, ⟨_, hreach, rfl⟩, hentry⟩, rfl⟩, rfl⟩
  · simp [husable]

end Leads

/-! ## Entries in reach -/

theorem entryAt_inReach (t : FileTree) (hne : location ≠ []) :
    t.inReach.entryAt location =
      if isUsable (pathOf location) then t.entryAt location else none := by
  rw [entryAt_of_ne_nil _ hne, entryAt_of_ne_nil _ hne, inReach]
  exact TextMap.lookup_filter (fun l => isUsable (pathOf l)) t.entries location

theorem entryAt_inReach_of_isUsable (t : FileTree) (h : isUsable (pathOf location) = true) :
    t.inReach.entryAt location = t.entryAt location := by
  by_cases hne : location = []
  · rw [hne]
    rfl
  · rw [entryAt_inReach t hne, if_pos h]

theorem keeps_inReach (t : FileTree) : Keeps t.inReach t := by
  intro location entry hentry
  by_cases hne : location = []
  · rw [hne] at hentry ⊢
    exact hentry
  · rw [entryAt_inReach t hne] at hentry
    split at hentry
    · exact hentry
    · cases hentry

theorem isUsable_of_entryAt_inReach (hentry : t.inReach.entryAt location = some entry) :
    isUsable (pathOf location) = true := by
  by_cases hne : location = []
  · rw [hne]
    decide +kernel
  · rw [entryAt_inReach t hne] at hentry
    split at hentry
    next h => exact h
    next => cases hentry

theorem isTree_inReach (htree : t.IsTree) : t.inReach.IsTree where
  distinct := htree.distinct.sublist (List.filter_sublist.map Prod.fst)
  named entry hentry := htree.named entry (List.mem_filter.1 hentry).1
  grounded entry hentry := by
    obtain ⟨hmem, husable⟩ := List.mem_filter.1 hentry
    rw [isDirectoryAt_iff, entryAt_inReach_of_isUsable t (isUsable_dropLast husable)]
    exact isDirectoryAt_iff.1 (htree.grounded entry hmem)

theorem inReach_insert (t : FileTree) (h : isUsable (pathOf location) = true) (entry : Entry) :
    (t.insert location entry).inReach = t.inReach.insert location entry := by
  have hlast : [(location, entry)].filter (fun e => isUsable (pathOf e.1)) =
      [(location, entry)] := by
    simp [h]
  simp only [insert, inReach, List.filter_append, List.filter_filter, hlast, Bool.and_comm]

/-! ## Canonical paths -/

/-- The path leads to a location along places that are all in reach. -/
def Settles (t : FileTree) (p : Path) (location : Location) : Prop :=
  t.inReach.reach? p = some (.entry location)

theorem canonical?_eq_some_iff {canonical : Path} :
    t.canonical? p = some canonical ↔ ∃ location, t.Settles p location ∧
      canonical = pathOf location := by
  simp only [canonical?, physical?, Option.map_eq_some_iff, Option.bind_eq_some_iff, Settles]
  constructor
  · rintro ⟨location, ⟨target, htarget, hlocation⟩, rfl⟩
    cases target with
    | vacant other => cases hlocation
    | entry other =>
        cases hlocation
        exact ⟨location, htarget, rfl⟩
  · rintro ⟨location, hreach, rfl⟩
    exact ⟨location, ⟨_, hreach, rfl⟩, rfl⟩

theorem Settles.reach? (h : t.Settles p location) : t.reach? p = some (.entry location) :=
  (keeps_inReach t).reach? h

theorem Settles.usable (htree : t.IsTree) (h : t.Settles p location) :
    isUsable (pathOf location) = true := by
  obtain ⟨entry, hentry⟩ := exists_entryAt_of_reach? (isTree_inReach htree) h
  exact isUsable_of_entryAt_inReach hentry

/-- The path of a location in reach leads there. -/
theorem settles_pathOf (htree : t.IsTree) (husable : isUsable (pathOf location) = true)
    (hentry : t.entryAt location = some entry) (hlink : ∀ target, entry ≠ .link target) :
    t.Settles (pathOf location) location := by
  rw [← entryAt_inReach_of_isUsable t husable] at hentry
  exact reach?_pathOf_of_entryAt (isTree_inReach htree) hentry hlink

theorem Settles.insert_file {other : Location} {content : Content} {executable : Bool}
    (h : t.Settles p other) (husable : isUsable (pathOf location) = true)
    (htakes : TakesFile t location) :
    (t.insert location (.file content executable)).Settles p other := by
  have hreach : TakesFile t.inReach location :=
    ⟨htakes.1, fun entry hentry => htakes.2 entry (keeps_inReach t _ _ hentry)⟩
  rw [Settles, inReach_insert t husable]
  exact reach?_insert_file (t := t.inReach) hreach h

end SolidityBuild.FileTree
