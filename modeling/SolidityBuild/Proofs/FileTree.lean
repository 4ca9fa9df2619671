import SolidityBuild.FileTree.Basic
import SolidityBuild.Proofs.Path.Stack

/-!
Trees without links. There a path leads to the location that its normal form
spells out, and every directory on the way to it is one of the tree.
-/

namespace SolidityBuild.FileTree

open SolidityBuild.Path

/-- No entry of the tree is a link. -/
def Linkless (t : FileTree) : Prop := ∀ entry ∈ t.entries, ∀ target, entry.2 ≠ .link target

variable {t : FileTree}

theorem mem_entries_of_entryAt {location : Location} {entry : Entry} (hne : location ≠ [])
    (h : t.entryAt location = some entry) : (location, entry) ∈ t.entries := by
  unfold entryAt at h
  split at h
  next => exact absurd rfl hne
  next =>
    obtain ⟨front, back, hentries, -⟩ := List.lookup_eq_some_iff.1 h
    rw [hentries]
    simp

theorem Linkless.entryAt_ne_link (h : Linkless t) {location : Location} (hne : location ≠ [])
    (target : String) : t.entryAt location ≠ some (.link target) :=
  fun hentry => h _ (mem_entries_of_entryAt hne hentry) target rfl

/-- All directories of a stack, the innermost one included, are in the tree. -/
def DirectoriesOf (t : FileTree) (stack : List String) : Prop :=
  ∀ n, t.isDirectoryAt (stack.drop n).reverse = true

theorem DirectoriesOf.drop {stack : List String} (h : DirectoriesOf t stack) (count : Nat) :
    DirectoriesOf t (stack.drop count) := fun n => by
  rw [List.drop_drop]
  exact h (count + n)

theorem DirectoriesOf.cons {stack : List String} (h : DirectoriesOf t stack) {name : String}
    (hname : t.isDirectoryAt (name :: stack).reverse = true) : DirectoriesOf t (name :: stack)
  | 0 => hname
  | n + 1 => h n

theorem directoriesOf_nil : DirectoriesOf t [] := fun n => by
  rw [List.drop_nil]
  rfl

section Along

variable {onLink : Location → List String → Option Target} {stack : List String}
  {segment : String} {rest : List String} {target : Target}

theorem isDirectoryAt_of_along (h : t.along onLink stack.reverse (segment :: rest) = some target) :
    t.isDirectoryAt stack.reverse = true := by
  rw [along] at h
  split at h
  next => cases h
  next hdirectory => simpa using hdirectory

theorem along_idle (h : t.along onLink stack.reverse (segment :: rest) = some target)
    (hidle : segment = "" ∨ segment = ".") : t.along onLink stack.reverse rest = some target := by
  rwa [along, if_neg (not_not_intro (isDirectoryAt_of_along h)), if_pos hidle] at h

theorem along_up (h : t.along onLink stack.reverse (".." :: rest) = some target) :
    t.along onLink (stack.drop 1).reverse rest = some target := by
  rw [along, if_neg (not_not_intro (isDirectoryAt_of_along h)), if_neg (by decide), if_pos rfl,
    List.dropLast_reverse, ← List.drop_one] at h
  exact h

/-- A name that is not the last one is that of a directory, if it is not that of a
link. -/
theorem along_name (hlinkless : Linkless t)
    (h : t.along onLink stack.reverse (segment :: rest) = some target) (hempty : segment ≠ "")
    (hdot : segment ≠ ".") (hup : segment ≠ "..") :
    t.along onLink (segment :: stack).reverse rest = some target ∨
      rest = [] ∧ target = .vacant (segment :: stack).reverse := by
  have hnext : stack.reverse ++ [segment] = (segment :: stack).reverse := by simp
  rw [along, if_neg (not_not_intro (isDirectoryAt_of_along h)), if_neg (by simp [hempty, hdot]),
    if_neg hup, hnext] at h
  simp only at h
  split at h
  next =>
    split at h
    next hrest => exact .inr ⟨List.isEmpty_iff.1 hrest, (Option.some.inj h).symm⟩
    next => cases h
  next link hlink => exact absurd hlink (hlinkless.entryAt_ne_link (by simp) link)
  next => exact .inl h

end Along

/-- Without links the segments before the last one lead to a directory, which is
that of their normal form. -/
theorem along_append (hlinkless : Linkless t) {onLink : Location → List String → Option Target}
    {stack front : List String} {last : String} {location : Location} (hup : ".." ∉ stack)
    (hdirectories : DirectoriesOf t stack)
    (h : t.along onLink stack.reverse (front ++ [last]) = some (.entry location)) :
    t.along onLink (front.foldl (cleanStep true) stack).reverse [last] = some (.entry location) ∧
      DirectoriesOf t (front.foldl (cleanStep true) stack) := by
  induction front generalizing stack with
  | nil => exact ⟨h, hdirectories⟩
  | cons segment rest ih =>
    rw [List.cons_append] at h
    rw [List.foldl_cons]
    by_cases hidle : segment = "" ∨ segment = "."
    · rw [cleanStep_idle hidle]
      exact ih hup hdirectories (along_idle h hidle)
    · obtain ⟨hempty, hdot⟩ := not_or.1 hidle
      by_cases hsegment : segment = ".."
      · subst hsegment
        have hpop : cleanStep true stack ".." = stack.drop 1 := pops_rooted hup 1
        rw [hpop]
        exact ih (fun hmem => hup (List.mem_of_mem_drop hmem)) (hdirectories.drop 1) (along_up h)
      · rw [cleanStep_name hempty hdot hsegment]
        rcases along_name hlinkless h hempty hdot hsegment with hnext | ⟨_, hvacant⟩
        · obtain ⟨next, others, hothers⟩ := List.exists_cons_of_ne_nil (l := rest ++ [last])
            (by simp)
          have hhere : t.isDirectoryAt (segment :: stack).reverse = true := by
            rw [hothers] at hnext
            exact isDirectoryAt_of_along hnext
          exact ih (by simp [hup, Ne.symm hsegment]) (hdirectories.cons hhere) hnext
        · cases hvacant

/-- Without links a path that leads to an entry leads to the location of its
normal form. -/
theorem location_of_along (hlinkless : Linkless t)
    {onLink : Location → List String → Option Target} {stack segments : List String}
    {location : Location} (hup : ".." ∉ stack)
    (h : t.along onLink stack.reverse segments = some (.entry location)) :
    location = (segments.foldl (cleanStep true) stack).reverse := by
  induction segments generalizing stack with
  | nil => exact (Target.entry.inj (Option.some.inj h)).symm
  | cons segment rest ih =>
    rw [List.foldl_cons]
    by_cases hidle : segment = "" ∨ segment = "."
    · rw [cleanStep_idle hidle]
      exact ih hup (along_idle h hidle)
    · obtain ⟨hempty, hdot⟩ := not_or.1 hidle
      by_cases hsegment : segment = ".."
      · subst hsegment
        have hpop : cleanStep true stack ".." = stack.drop 1 := pops_rooted hup 1
        rw [hpop]
        exact ih (fun hmem => hup (List.mem_of_mem_drop hmem)) (along_up h)
      · rw [cleanStep_name hempty hdot hsegment]
        rcases along_name hlinkless h hempty hdot hsegment with hnext | ⟨-, hvacant⟩
        · exact ih (by simp [hup, Ne.symm hsegment]) hnext
        · cases hvacant

theorem isDirectoryAt_of_along_nil {onLink : Location → List String → Option Target}
    {stack : List String} {location : Location} (hdirectories : DirectoriesOf t stack)
    (h : t.along onLink stack.reverse [] = some (.entry location)) :
    t.isDirectoryAt location = true := by
  obtain rfl := Target.entry.inj (Option.some.inj h)
  have hdirectory := hdirectories 0
  rwa [List.drop_zero] at hdirectory

theorem target?_of_locate? {p : Path} {location : Location} (h : t.locate? p = some location) :
    t.target? p = some (.entry location) := by
  obtain ⟨target, htarget, hsome⟩ := Option.bind_eq_some_iff.1 h
  cases target with
  | entry other => rw [htarget, Option.some.inj hsome]
  | vacant other => cases hsome

theorem reach?_of_target? {p : Path} {target : Target} (h : t.target? p = some target) :
    t.reach? p = some target := by
  unfold target? at h
  split at h
  · exact h
  · cases h

theorem location_of_locate? (hlinkless : Linkless t) {p : Path} {location : Location}
    (h : t.locate? p = some location) :
    location = ((segmentsOf p.text).foldl (cleanStep true) []).reverse := by
  have hreach := reach?_of_target? (target?_of_locate? h)
  unfold reach? at hreach
  split at hreach
  · have hup : ".." ∉ ([] : List String) := by simp
    exact location_of_along hlinkless hup hreach
  · cases hreach

/-- The content under a path is that of the entry which its segments lead to. -/
theorem exists_along_of_content? {p : Path} {content : Content} (h : t.content? p = some content) :
    ∃ onLink front name location, segmentsOf p.text = "" :: (front ++ [name]) ∧
      t.along onLink ([] : List String).reverse (front ++ [name]) = some (.entry location) ∧
      (t.entryAt location).bind Entry.content? = some content := by
  obtain ⟨entry, hentry, hcontent⟩ := Option.bind_eq_some_iff.1 h
  obtain ⟨location, hlocation, hat⟩ := Option.bind_eq_some_iff.1 hentry
  have htarget := reach?_of_target? (target?_of_locate? hlocation)
  unfold reach? at htarget
  split at htarget
  case isFalse => cases htarget
  next habsolute =>
    obtain ⟨rest, hrest, hsegments⟩ := isRooted_iff.1 habsolute
    rw [hsegments] at htarget
    obtain ⟨front, name, rfl⟩ : ∃ front name, rest = front ++ [name] :=
      ⟨rest.dropLast, rest.getLast hrest, (List.dropLast_concat_getLast hrest).symm⟩
    exact ⟨_, front, name, location, hsegments, along_idle htarget (.inl rfl), by rwa [hat]⟩

/-- A path of a file ends with its name. What stands before it leads to the
directory of its normal form, and that of the file is its location. -/
theorem exists_name_of_content? (hlinkless : Linkless t) {p : Path} {content : Content}
    (h : t.content? p = some content) :
    ∃ front name, segmentsOf p.text = "" :: (front ++ [name]) ∧
      name ≠ "" ∧ name ≠ "." ∧ name ≠ ".." ∧
      DirectoriesOf t (front.foldl (cleanStep true) []) ∧
      (t.entryAt (name :: front.foldl (cleanStep true) []).reverse).bind Entry.content? =
        some content := by
  obtain ⟨onLink, front, name, location, hsegments, hwalk, hcontent⟩ := exists_along_of_content? h
  have hfile : t.isDirectoryAt location = false := by
    rw [isDirectoryAt, decide_eq_false_iff_not]
    intro hdirectory
    rw [hdirectory] at hcontent
    cases hcontent
  obtain ⟨hlast, hdirectories⟩ := along_append hlinkless (by simp) directoriesOf_nil hwalk
  have hnone {stack : List String} (hstack : DirectoriesOf t stack)
      (hend : t.along onLink stack.reverse [] = some (.entry location)) : False := by
    rw [isDirectoryAt_of_along_nil hstack hend] at hfile
    cases hfile
  have hempty : name ≠ "" := fun hname => hnone hdirectories (along_idle hlast (.inl hname))
  have hdot : name ≠ "." := fun hname => hnone hdirectories (along_idle hlast (.inr hname))
  have hup : name ≠ ".." := by
    rintro rfl
    exact hnone (hdirectories.drop 1) (along_up hlast)
  refine ⟨front, name, hsegments, hempty, hdot, hup, hdirectories, ?_⟩
  rcases along_name hlinkless hlast hempty hdot hup with hend | ⟨_, hvacant⟩
  · obtain rfl := Target.entry.inj (Option.some.inj hend)
    exact hcontent
  · cases hvacant

end SolidityBuild.FileTree
