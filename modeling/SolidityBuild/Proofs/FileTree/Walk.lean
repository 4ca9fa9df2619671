import SolidityBuild.FileTree.Walk
import SolidityBuild.Proofs.FileTree.Directories
import SolidityBuild.Proofs.TextMap

/-!
What a walk finds. Without links it finds regular files below the root only, each
under its names from there, and a walk that came to its end has found all of
them.
-/

namespace SolidityBuild.FileTree

open SolidityBuild.Path

variable {t : FileTree} {here : Location} {name : String} {entry : Entry}

/-! ## The entries of a directory -/

/-- An entry by its name, if it is one of a directory. -/
def childIn (here : Location) : Location × Entry → Option (String × Entry) :=
  fun (location, entry) =>
    match location.getLast? with
    | some name => if location.dropLast = here then some (name, entry) else none
    | none => none

theorem children_eq (t : FileTree) (here : Location) :
    t.children here = TextMap.ofList (t.entries.filterMap (childIn here)) := rfl

theorem childIn_eq_some_iff {child : Location × Entry} :
    childIn here child = some (name, entry) ↔ child = (here ++ [name], entry) := by
  obtain ⟨location, other⟩ := child
  constructor
  · intro hchild
    simp only [childIn] at hchild
    split at hchild
    next last hlast =>
      split at hchild
      next hhere =>
        obtain ⟨rfl, rfl⟩ := Prod.mk.inj (Option.some.inj hchild)
        obtain ⟨front, rfl⟩ := List.getLast?_eq_some_iff.1 hlast
        rw [← hhere, List.dropLast_concat]
      next => cases hchild
    next => cases hchild
  · rintro heq
    obtain ⟨rfl, rfl⟩ := Prod.mk.inj heq
    simp [childIn]

theorem mem_children_iff (htree : t.IsTree) :
    (name, entry) ∈ (t.children here).entries ↔ t.entryAt (here ++ [name]) = some entry := by
  have hnodup : ((t.entries.filterMap (childIn here)).map Prod.fst).Nodup := by
    rw [List.Nodup, List.pairwise_map, List.pairwise_filterMap]
    refine (List.pairwise_map.1 htree.distinct).imp fun {a b} hne => ?_
    rintro ⟨first, e⟩ hfirst ⟨second, e'⟩ hsecond rfl
    rw [childIn_eq_some_iff.1 hfirst, childIn_eq_some_iff.1 hsecond] at hne
    exact hne rfl
  rw [children_eq, TextMap.mem_entries_ofList hnodup, List.mem_filterMap,
    entryAt_of_ne_nil t (by simp), TextMap.lookup_eq_some_iff_mem htree.distinct]
  constructor
  · rintro ⟨child, hmem, hchild⟩
    rwa [childIn_eq_some_iff.1 hchild] at hmem
  · intro hmem
    exact ⟨_, hmem, childIn_eq_some_iff.2 rfl⟩

theorem isName_of_mem_children (htree : t.IsTree) (h : (name, entry) ∈ (t.children here).entries) :
    isName name = true :=
  htree.named _ (mem_entries_of_entryAt (by simp) ((mem_children_iff htree).1 h)) name (by simp)

/-! ## One directory of a walk -/

theorem walkFrom_succ (t : FileTree) (fuel : Nat) (above : List Location) (here : Location)
    (path : Path) (names : List String) :
    t.walkFrom (fuel + 1) above here path names =
      (t.children here).entries.foldl
        (fun walk child =>
          walk.andThen (t.childWalk (t.walkFrom fuel) above here path names child))
        .nothing := rfl

theorem childWalk_directory (t : FileTree)
    (descend : List Location → Location → Path → List String → Walk) (above : List Location)
    (here : Location) (path : Path) (names : List String) (name : String) :
    t.childWalk descend above here path names (name, .directory) =
      if isUsable (path.join ⟨name⟩) then
        descend (here :: above) (here ++ [name]) (path.join ⟨name⟩) (names ++ [name])
      else .brokenOff := rfl

theorem childWalk_link (t : FileTree)
    (descend : List Location → Location → Path → List String → Walk) (above : List Location)
    (here : Location) (path : Path) (names : List String) (name target : String) :
    t.childWalk descend above here path names (name, .link target) =
      match t.locate? (path.join ⟨name⟩) with
      | none => .brokenOff
      | some location =>
        if ¬ t.isDirectoryAt location then .file (path.join ⟨name⟩) (names ++ [name])
        else if location ∈ here :: above then .brokenOff
        else descend (here :: above) location (path.join ⟨name⟩) (names ++ [name]) := (rfl)

section Fold

variable {α : Type} {f : α → Walk} {found : Found}

theorem mem_files_foldl {children : List α} {before : Walk}
    (h : found ∈ (children.foldl (fun walk child => walk.andThen (f child)) before).files) :
    found ∈ before.files ∨ ∃ child ∈ children, found ∈ (f child).files := by
  induction children generalizing before with
  | nil => exact .inl h
  | cons child rest ih =>
      rcases ih h with hbefore | ⟨other, hother, hfound⟩
      · simp only [Walk.andThen] at hbefore
        split at hbefore
        · rcases List.mem_append.1 hbefore with hbefore | hchild
          · exact .inl hbefore
          · exact .inr ⟨child, List.mem_cons_self, hchild⟩
        · exact .inl hbefore
      · exact .inr ⟨other, List.mem_cons_of_mem child hother, hfound⟩

/-- A walk that came to its end has come to the end of each of its parts, and has
what they have. -/
theorem foldl_of_complete {children : List α} {before : Walk}
    (h : (children.foldl (fun walk child => walk.andThen (f child)) before).complete = true) :
    before.complete = true ∧ ∀ child ∈ children, (f child).complete = true ∧
      (∀ found ∈ (f child).files,
        found ∈ (children.foldl (fun walk child => walk.andThen (f child)) before).files) := by
  have hkeeps (children : List α) (before : Walk) : ∀ found ∈ before.files,
      found ∈ (children.foldl (fun walk child => walk.andThen (f child)) before).files := by
    induction children generalizing before with
    | nil => exact fun _ => id
    | cons child rest ih =>
        intro found hfound
        apply ih
        simp only [Walk.andThen]
        split
        · exact List.mem_append_left _ hfound
        · exact hfound
  induction children generalizing before with
  | nil => exact ⟨h, fun _ hchild => by cases hchild⟩
  | cons child rest ih =>
      obtain ⟨hcomplete, hrest⟩ := ih h
      simp only [Walk.andThen] at hcomplete
      split at hcomplete
      next hbefore =>
        refine ⟨hbefore, fun other hother => ?_⟩
        rcases List.mem_cons.1 hother with rfl | hother
        · refine ⟨hcomplete, fun found hfound => hkeeps rest _ found ?_⟩
          simp only [Walk.andThen, if_pos hbefore]
          exact List.mem_append_right _ hfound
        · exact hrest other hother
      next hbroken => exact absurd hcomplete hbroken

/-- Walks that all come to their end are one walk that finds what they find. -/
theorem foldl_andThen {children : List α} {before : Walk} (hbefore : before.complete = true)
    (h : ∀ child ∈ children, (f child).complete = true) :
    children.foldl (fun walk child => walk.andThen (f child)) before =
      ⟨before.files ++ children.flatMap fun child => (f child).files, true⟩ := by
  induction children generalizing before with
  | nil =>
      rw [List.foldl_nil, List.flatMap_nil, List.append_nil, ← hbefore]
  | cons child rest ih =>
      obtain ⟨hchild, hrest⟩ := List.forall_mem_cons.1 h
      have hnext : before.andThen (f child) = ⟨before.files ++ (f child).files, true⟩ := by
        rw [Walk.andThen, if_pos hbefore, hchild]
      rw [List.foldl_cons, hnext, ih rfl hrest, List.flatMap_cons, List.append_assoc]

end Fold

/-! ## Whole walks -/

/-- The path of a name below a path, for each of these names in turn. -/
def behind (path : Path) (below : List String) : Path :=
  below.foldl (fun path name => path.join ⟨name⟩) path

/-- A regular file stands at this location. -/
def IsFileAt (t : FileTree) (location : Location) : Prop :=
  ∃ content executable, t.entryAt location = some (.file content executable)

/-- What a walk finds has names below the root, also where links are followed. -/
theorem isName_of_mem_walkFrom (htree : t.IsTree) {fuel : Nat} {above : List Location}
    {path : Path} {names : List String} {found : Found} (hnames : ∀ n ∈ names, isName n = true)
    (h : found ∈ (t.walkFrom fuel above here path names).files) :
    found.names ≠ [] ∧ ∀ n ∈ found.names, isName n = true := by
  induction fuel generalizing above here path names with
  | zero => cases h
  | succ fuel ih =>
      rw [walkFrom_succ] at h
      rcases mem_files_foldl h with hnothing | ⟨⟨name, entry⟩, hchild, hfound⟩
      · cases hnothing
      have hnext : ∀ n ∈ names ++ [name], isName n = true := fun n hn => by
        rcases List.mem_append.1 hn with hn | hn
        · exact hnames n hn
        · rw [List.mem_singleton.1 hn]
          exact isName_of_mem_children htree hchild
      have hfile : ∀ {path : Path}, found ∈ (Walk.file path (names ++ [name])).files →
          found.names ≠ [] ∧ ∀ n ∈ found.names, isName n = true := fun hmem => by
        obtain rfl := List.mem_singleton.1 hmem
        exact ⟨by simp, hnext⟩
      cases entry with
      | file content executable => exact hfile hfound
      | directory =>
          rw [childWalk_directory] at hfound
          split at hfound
          · exact ih hnext hfound
          · cases hfound
      | link target =>
          rw [childWalk_link] at hfound
          split at hfound
          next => cases hfound
          next location hlocate =>
            split at hfound
            · exact hfile hfound
            · split at hfound
              · cases hfound
              · exact ih hnext hfound

theorem isName_of_mem_walk (htree : t.IsTree) {root : Path} {found : Found}
    (h : found ∈ (t.walk root).files) :
    found.names ≠ [] ∧ ∀ n ∈ found.names, isName n = true := by
  rw [walk] at h
  split at h
  next => cases h
  next =>
    split at h
    · exact isName_of_mem_walkFrom htree (by simp) h
    · cases h

/-- No link stands below a location. -/
def LinkFree (t : FileTree) (here : Location) : Prop :=
  ∀ below target, t.entryAt (here ++ below) ≠ some (.link target)

theorem Linkless.linkFree (h : Linkless t) (here : Location) : LinkFree t here := by
  intro below target
  by_cases hne : here ++ below = []
  · rw [hne]
    simp [entryAt]
  · exact h.entryAt_ne_link hne target

theorem LinkFree.concat (h : LinkFree t here) (name : String) : LinkFree t (here ++ [name]) := by
  intro below target
  rw [List.append_assoc]
  exact h _ target

theorem exists_below_of_mem_walkFrom (htree : t.IsTree) (hfree : LinkFree t here) {fuel : Nat}
    {above : List Location} {path : Path} {names : List String} {found : Found}
    (h : found ∈ (t.walkFrom fuel above here path names).files) :
    ∃ below, below ≠ [] ∧ found = ⟨behind path below, names ++ below⟩ ∧
      IsFileAt t (here ++ below) := by
  induction fuel generalizing above here path names with
  | zero => cases h
  | succ fuel ih =>
      rw [walkFrom_succ] at h
      rcases mem_files_foldl h with hnothing | ⟨⟨name, entry⟩, hchild, hfound⟩
      · cases hnothing
      have hentry := (mem_children_iff htree).1 hchild
      cases entry with
      | file content executable =>
          obtain rfl := List.mem_singleton.1 hfound
          exact ⟨[name], by simp, rfl, content, executable, hentry⟩
      | link target => exact absurd hentry (hfree [name] target)
      | directory =>
          rw [childWalk_directory] at hfound
          split at hfound
          · obtain ⟨below, -, rfl, hfile⟩ := ih (hfree.concat name) hfound
            refine ⟨name :: below, by simp, ?_, ?_⟩
            · rw [List.append_assoc, List.singleton_append]
              rfl
            · rwa [List.append_assoc, List.singleton_append] at hfile
          · cases hfound

theorem mem_walkFrom_of_complete (htree : t.IsTree) {fuel : Nat} {above : List Location}
    {path : Path} {names below : List String}
    (hcomplete : (t.walkFrom fuel above here path names).complete = true) (hne : below ≠ [])
    (hfile : IsFileAt t (here ++ below)) :
    ⟨behind path below, names ++ below⟩ ∈ (t.walkFrom fuel above here path names).files := by
  induction fuel generalizing above here path names below with
  | zero => cases hcomplete
  | succ fuel ih =>
      obtain ⟨name, rest, rfl⟩ := List.exists_cons_of_ne_nil hne
      rw [walkFrom_succ] at hcomplete ⊢
      obtain ⟨-, hchildren⟩ := foldl_of_complete hcomplete
      obtain ⟨content, executable, hentry⟩ := hfile
      by_cases hrest : rest = []
      · subst hrest
        obtain ⟨-, hfound⟩ := hchildren _ ((mem_children_iff htree).2 hentry)
        exact hfound _ (List.mem_singleton.2 rfl)
      · rw [List.append_cons] at hentry
        have hdirectory := isDirectoryAt_iff.1 (isDirectoryAt_of_append htree hrest hentry)
        obtain ⟨hends, hfound⟩ := hchildren _ ((mem_children_iff htree).2 hdirectory)
        apply hfound
        rw [childWalk_directory] at hends ⊢
        split at hends
        next husable =>
          rw [if_pos husable]
          have hmem := ih hends hrest ⟨content, executable, hentry⟩
          rw [List.append_assoc, List.singleton_append] at hmem
          exact hmem
        next => cases hends

/-- Without links a walk finds regular files below its root, each under its names
from there, and all of them if it came to its end. -/
theorem exists_below_of_mem_walk (htree : t.IsTree) (hlinkless : Linkless t) {root : Path}
    {found : Found} (h : found ∈ (t.walk root).files) :
    ∃ location below, t.locate? root = some location ∧ below ≠ [] ∧
      found = ⟨behind root below, below⟩ ∧ IsFileAt t (location ++ below) := by
  rw [walk] at h
  split at h
  next => cases h
  next location hlocate =>
    split at h
    · obtain ⟨below, hne, rfl, hfile⟩ :=
        exists_below_of_mem_walkFrom htree (hlinkless.linkFree location) h
      exact ⟨location, below, hlocate, hne, rfl, hfile⟩
    · cases h

theorem mem_walk_of_complete (htree : t.IsTree) {root : Path}
    {location : Location} {below : List String} (hcomplete : (t.walk root).complete = true)
    (hlocate : t.locate? root = some location) (hne : below ≠ [])
    (hfile : IsFileAt t (location ++ below)) :
    ⟨behind root below, below⟩ ∈ (t.walk root).files := by
  obtain ⟨content, executable, hentry⟩ := hfile
  have hdirectory := isDirectoryAt_of_append htree hne hentry
  rw [walk, hlocate] at hcomplete ⊢
  simp only [hdirectory, if_true] at hcomplete ⊢
  exact mem_walkFrom_of_complete htree hcomplete hne ⟨content, executable, hentry⟩

end SolidityBuild.FileTree
