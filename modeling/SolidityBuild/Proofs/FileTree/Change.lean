import SolidityBuild.Proofs.FileTree
import SolidityBuild.Proofs.TextMap

/-!
Trees that change while paths are followed through them. One segment of a path
moves from a directory to another place, and `move` says where; everything here
follows from what an insertion does to the moves. Where a file is put into a
tree, every path still ends where it did, and only the vacant place of the file
is vacant no more. Where entries are added, paths that led to an entry still
lead to it.
-/

namespace SolidityBuild

/-- The location of an entry, or of the place where there is none yet. -/
def Target.spot : Target → Location
  | entry location => location
  | vacant location => location

namespace FileTree

open SolidityBuild.Path

/-- The entries are those of a file system: no location has two, the names in
locations are names, and every entry stands in a directory. -/
structure IsTree (t : FileTree) : Prop where
  distinct : (t.entries.map Prod.fst).Nodup
  named : ∀ entry ∈ t.entries, ∀ name ∈ entry.1, isName name = true
  grounded : ∀ entry ∈ t.entries, t.isDirectoryAt entry.1.dropLast = true

variable {t t' : FileTree} {location : Location} {entry : Entry}

theorem isDirectoryAt_dropLast (htree : t.IsTree) (hentry : t.entryAt location = some entry) :
    t.isDirectoryAt location.dropLast = true := by
  by_cases hnil : location = []
  · rw [hnil]
    rfl
  · exact htree.grounded _ (mem_entries_of_entryAt hnil hentry)

theorem isDirectoryAt_iff :
    t.isDirectoryAt location = true ↔ t.entryAt location = some .directory := by
  rw [isDirectoryAt, decide_eq_true_iff]

/-- Above every entry there are directories. -/
theorem isDirectoryAt_of_append (htree : t.IsTree) {here : Location} {below : List String}
    (hne : below ≠ []) (hentry : t.entryAt (here ++ below) = some entry) :
    t.isDirectoryAt here = true := by
  induction below generalizing here with
  | nil => exact absurd rfl hne
  | cons name rest ih =>
      have hnext : t.entryAt (here ++ [name]) ≠ none := by
        by_cases hrest : rest = []
        · rw [hrest] at hentry
          rw [hentry]
          simp
        · have hrestEntry : t.entryAt ((here ++ [name]) ++ rest) = some entry := by
            rwa [List.append_assoc]
          rw [isDirectoryAt_iff.1 (ih hrest hrestEntry)]
          simp
      obtain ⟨next, hnext⟩ := Option.ne_none_iff_exists'.1 hnext
      have hparent := isDirectoryAt_dropLast htree hnext
      rwa [List.dropLast_concat] at hparent

/-- Where nothing stands, nothing stands below. -/
theorem entryAt_append_of_none (htree : t.IsTree) {here : Location}
    (hnone : t.entryAt here = none) (below : List String) : t.entryAt (here ++ below) = none := by
  by_cases hbelow : below = []
  · rwa [hbelow, List.append_nil]
  · cases hentry : t.entryAt (here ++ below) with
    | none => rfl
    | some entry =>
        have hdirectory := isDirectoryAt_of_append htree hbelow hentry
        rw [isDirectoryAt_iff, hnone] at hdirectory
        cases hdirectory

/-! ## Insertions -/

theorem lookup_filter_ne (entries : List (Location × Entry)) (other : Location) :
    (entries.filter (·.1 ≠ location)).lookup other =
      if other = location then none else entries.lookup other := by
  rw [TextMap.lookup_filter fun l => l ≠ location]
  by_cases hother : other = location <;> simp [hother]

theorem entryAt_of_ne_nil (t : FileTree) (hne : location ≠ []) :
    t.entryAt location = t.entries.lookup location := by
  obtain ⟨name, rest, rfl⟩ := List.exists_cons_of_ne_nil hne
  rfl

theorem entryAt_insert (t : FileTree) (hne : location ≠ []) (entry : Entry) (other : Location) :
    (t.insert location entry).entryAt other =
      if other = location then some entry else t.entryAt other := by
  by_cases hother : other = []
  · subst hother
    rw [if_neg (Ne.symm hne)]
    rfl
  · rw [entryAt_of_ne_nil _ hother, entryAt_of_ne_nil _ hother, insert, List.lookup_append,
      lookup_filter_ne]
    split
    next heq => simp [heq]
    next hdiffer => simp [List.lookup_cons, beq_false_of_ne hdiffer]

theorem entryAt_insert_self (t : FileTree) (hne : location ≠ []) (entry : Entry) :
    (t.insert location entry).entryAt location = some entry := by
  rw [entryAt_insert t hne, if_pos rfl]

theorem entryAt_insert_of_ne (t : FileTree) (hne : location ≠ []) (entry : Entry)
    {other : Location} (hother : other ≠ location) :
    (t.insert location entry).entryAt other = t.entryAt other := by
  rw [entryAt_insert t hne, if_neg hother]

/-- Of two entries at one location the later stays. -/
theorem insert_insert (t : FileTree) (entry other : Entry) :
    (t.insert location entry).insert location other = t.insert location other := by
  simp [insert, List.filter_append, List.filter_filter]

/-- A place in a directory where there is nothing. -/
structure IsVacant (t : FileTree) (location : Location) : Prop where
  none : t.entryAt location = none
  ne_nil : location ≠ []
  inside : t.isDirectoryAt location.dropLast = true

/-! ## One segment of a path -/

/-- Where one segment leads from a directory. -/
inductive Move where
  | blocked
  | onto (next : Location)
  | vacant (next : Location)
  /-- A link leads on from a directory along the segments of its target. -/
  | link (start : Location) (segments : List String)

def move (t : FileTree) (here : Location) (segment : String) : Move :=
  if ¬ t.isDirectoryAt here then .blocked
  else if segment = "" ∨ segment = "." then .onto here
  else if segment = ".." then .onto here.dropLast
  else
    match t.entryAt (here ++ [segment]) with
    | none => .vacant (here ++ [segment])
    | some (.link target) =>
      if target = "" then .blocked
      else .link (if isRooted target then [] else here) (segmentsOf target)
    | some _ => .onto (here ++ [segment])

section Moves

variable {onLink : Location → List String → Option Target} {here next : Location}
  {segment : String} {rest : List String}

theorem along_cons (t : FileTree) (onLink : Location → List String → Option Target)
    (here : Location) (segment : String) (rest : List String) :
    t.along onLink here (segment :: rest) =
      match t.move here segment with
      | .blocked => none
      | .onto next => t.along onLink next rest
      | .vacant next => if rest.isEmpty then some (.vacant next) else none
      | .link start segments => onLink start (segments ++ rest) := by
  rw [along, move]
  by_cases hhere : t.isDirectoryAt here = true
  · rw [if_neg (not_not_intro hhere), if_neg (not_not_intro hhere)]
    by_cases hidle : segment = "" ∨ segment = "."
    · rw [if_pos hidle, if_pos hidle]
    · rw [if_neg hidle, if_neg hidle]
      by_cases hup : segment = ".."
      · rw [if_pos hup, if_pos hup]
      · rw [if_neg hup, if_neg hup]
        cases hentry : t.entryAt (here ++ [segment]) with
        | none => simp [hentry]
        | some entry =>
            cases entry with
            | file content executable => simp [hentry]
            | directory => simp [hentry]
            | link target => by_cases htarget : target = "" <;> simp [hentry, htarget]
  · rw [if_pos hhere, if_pos hhere]

/-- All that a segment can do. -/
theorem move_cases (t : FileTree) (here : Location) (segment : String) :
    t.move here segment = .blocked ∨ t.isDirectoryAt here = true ∧
      (t.move here segment = .onto here ∨ t.move here segment = .onto here.dropLast ∨
        t.entryAt (here ++ [segment]) = none ∧ t.move here segment = .vacant (here ++ [segment]) ∨
        (∃ target, t.entryAt (here ++ [segment]) = some (.link target) ∧
          t.move here segment =
            .link (if isRooted target then [] else here) (segmentsOf target)) ∨
        ∃ entry, t.entryAt (here ++ [segment]) = some entry ∧
          t.move here segment = .onto (here ++ [segment])) := by
  by_cases hhere : t.isDirectoryAt here = true
  · rw [move, if_neg (not_not_intro hhere)]
    by_cases hidle : segment = "" ∨ segment = "."
    · exact .inr ⟨hhere, .inl (if_pos hidle)⟩
    · rw [if_neg hidle]
      by_cases hup : segment = ".."
      · exact .inr ⟨hhere, .inr (.inl (if_pos hup))⟩
      · rw [if_neg hup]
        cases hentry : t.entryAt (here ++ [segment]) with
        | none => exact .inr ⟨hhere, .inr (.inr (.inl ⟨rfl, rfl⟩))⟩
        | some entry =>
            cases entry with
            | link target =>
                by_cases htarget : target = ""
                · exact .inl (if_pos htarget)
                · exact .inr ⟨hhere, .inr (.inr (.inr (.inl ⟨target, rfl, if_neg htarget⟩)))⟩
            | directory => exact .inr ⟨hhere, .inr (.inr (.inr (.inr ⟨_, rfl, rfl⟩)))⟩
            | file content executable => exact .inr ⟨hhere, .inr (.inr (.inr (.inr ⟨_, rfl, rfl⟩)))⟩
  · exact .inl (by rw [move, if_pos hhere])

theorem move_vacant (hmove : t.move here segment = .vacant next) : IsVacant t next := by
  rcases t.move_cases here segment with
    h | ⟨hhere, h | h | ⟨hnone, h⟩ | ⟨target, hlink, h⟩ | ⟨entry, hentry, h⟩⟩
  case inr.inr.inr.inl =>
    obtain rfl := Move.vacant.inj (h.symm.trans hmove)
    exact ⟨hnone, by simp, by rwa [List.dropLast_concat]⟩
  all_goals rw [h] at hmove; cases hmove

theorem proper_of_isName (hname : isName segment = true) :
    segment ≠ "" ∧ segment ≠ "." ∧ segment ≠ ".." ∧ '/' ∉ segment.toList := by
  simp only [isName, Bool.and_eq_true, decide_eq_true_eq] at hname
  obtain ⟨⟨⟨⟨-, hslash⟩, hempty⟩, hdot⟩, hup⟩ := hname
  exact ⟨hempty, hdot, hup, by simpa using hslash⟩

/-- A segment that names an entry of a directory moves to it, unless it is a
link. -/
theorem move_name (hhere : t.isDirectoryAt here = true) (hname : isName segment = true) :
    t.move here segment =
      match t.entryAt (here ++ [segment]) with
      | none => .vacant (here ++ [segment])
      | some (.link target) =>
        if target = "" then .blocked
        else .link (if isRooted target then [] else here) (segmentsOf target)
      | some _ => .onto (here ++ [segment]) := by
  obtain ⟨hempty, hdot, hup, -⟩ := proper_of_isName hname
  rw [move, if_neg (not_not_intro hhere), if_neg (by simp [hempty, hdot]), if_neg hup]

end Moves

/-! ## Putting a file in its place -/

/-- A place for a file: there is a file, or nothing. -/
def TakesFile (t : FileTree) (location : Location) : Prop :=
  location ≠ [] ∧ ∀ entry, t.entryAt location = some entry →
    ∃ content executable, entry = .file content executable

section Files

variable {content : Content} {executable : Bool}

theorem isDirectoryAt_insert_file (htakes : TakesFile t location) (other : Location) :
    (t.insert location (.file content executable)).isDirectoryAt other =
      t.isDirectoryAt other := by
  by_cases hother : other = location
  · subst hother
    have hbefore : t.isDirectoryAt other = false := by
      rw [Bool.eq_false_iff]
      intro hdirectory
      obtain ⟨c, x, hfile⟩ := htakes.2 _ (isDirectoryAt_iff.1 hdirectory)
      cases hfile
    rw [hbefore, isDirectoryAt, entryAt_insert_self t htakes.1]
    simp
  · rw [isDirectoryAt, isDirectoryAt, entryAt_insert_of_ne t htakes.1 _ hother]

theorem move_insert_file (htakes : TakesFile t location) (here : Location) (segment : String) :
    (t.insert location (.file content executable)).move here segment =
      match t.move here segment with
      | .vacant next => if next = location then .onto next else .vacant next
      | other => other := by
  rw [move, move, isDirectoryAt_insert_file htakes]
  split
  · rfl
  · split
    · rfl
    · split
      · rfl
      · by_cases hnext : here ++ [segment] = location
        · rw [hnext, entryAt_insert_self t htakes.1]
          cases hentry : t.entryAt location with
          | none => simp
          | some entry =>
              obtain ⟨c, x, rfl⟩ := htakes.2 entry hentry
              rfl
        · rw [entryAt_insert_of_ne t htakes.1 _ hnext]
          cases t.entryAt (here ++ [segment]) with
          | none => simp [hnext]
          | some entry =>
              cases entry with
              | file c x => rfl
              | directory => rfl
              | link target => by_cases htarget : target = "" <;> simp [htarget]

/-- A place that a file has been put in is that of an entry. -/
def settle (location : Location) : Target → Target
  | .entry other => .entry other
  | .vacant other => if other = location then .entry other else .vacant other

theorem along_insert_file (htakes : TakesFile t location)
    {onLink onLink' : Location → List String → Option Target}
    (hlink : ∀ start segments,
      onLink' start segments = (onLink start segments).map (settle location))
    (here : Location) (segments : List String) :
    (t.insert location (.file content executable)).along onLink' here segments =
      (t.along onLink here segments).map (settle location) := by
  induction segments generalizing here with
  | nil => rfl
  | cons segment rest ih =>
      rw [along_cons, along_cons, move_insert_file htakes]
      cases t.move here segment with
      | blocked => rfl
      | onto next => exact ih next
      | link start segments => exact hlink start (segments ++ rest)
      | vacant next =>
          by_cases hnext : next = location
          · subst hnext
            cases rest with
            | nil => simp [along, settle]
            | cons other rest =>
                -- a file has nothing below it
                have hfile : (t.insert next (.file content executable)).isDirectoryAt next =
                    false := by
                  rw [isDirectoryAt, entryAt_insert_self t htakes.1]
                  simp
                simp [along, hfile]
          · cases rest with
            | nil => simp [hnext, settle]
            | cons other rest => simp [hnext]

theorem follow_insert_file (htakes : TakesFile t location) (links : Nat) (here : Location)
    (segments : List String) :
    (t.insert location (.file content executable)).follow links here segments =
      (t.follow links here segments).map (settle location) := by
  induction links generalizing here segments with
  | zero =>
      have hnone (_ : Location) (_ : List String) :
          (none : Option Target) = none.map (settle location) := rfl
      exact along_insert_file htakes hnone here segments
  | succ links ih => exact along_insert_file htakes ih here segments

theorem reach?_insert_file_eq (htakes : TakesFile t location) (p : Path) :
    (t.insert location (.file content executable)).reach? p =
      (t.reach? p).map (settle location) := by
  unfold reach?
  split
  · exact follow_insert_file htakes _ _ _
  · rfl

/-- What a path leads to it still leads to. -/
theorem reach?_insert_file (htakes : TakesFile t location) {p : Path} {other : Location}
    (hreach : t.reach? p = some (.entry other)) :
    (t.insert location (.file content executable)).reach? p = some (.entry other) := by
  rw [reach?_insert_file_eq htakes, hreach]
  rfl

theorem target?_insert_file (htakes : TakesFile t location) (p : Path) :
    (t.insert location (.file content executable)).target? p =
      (t.target? p).map (settle location) := by
  unfold target?
  split
  · exact reach?_insert_file_eq htakes p
  · rfl

end Files

/-! ## Where paths end -/

/-- Where a path ends, whether or not there is an entry. -/
def spot? (t : FileTree) (p : Path) : Option Location := (t.target? p).map Target.spot

theorem spot_settle (location : Location) (target : Target) :
    (settle location target).spot = target.spot := by
  cases target with
  | entry other => rfl
  | vacant other =>
      rw [settle]
      split <;> rfl

theorem spot?_insert_file {content : Content} {executable : Bool}
    (htakes : TakesFile t location) (p : Path) :
    (t.insert location (.file content executable)).spot? p = t.spot? p := by
  rw [spot?, spot?, target?_insert_file htakes, Option.map_map]
  congr 1
  funext target
  exact spot_settle location target

theorem along_vacant {onLink : Location → List String → Option Target}
    (hlink : ∀ start segments, onLink start segments = some (.vacant location) →
      IsVacant t location)
    {here : Location} {segments : List String}
    (h : t.along onLink here segments = some (.vacant location)) : IsVacant t location := by
  induction segments generalizing here with
  | nil => cases h
  | cons segment rest ih =>
      rw [along_cons] at h
      cases hmove : t.move here segment with
      | blocked =>
          rw [hmove] at h
          cases h
      | onto next =>
          rw [hmove] at h
          exact ih h
      | link start segments =>
          rw [hmove] at h
          exact hlink _ _ h
      | vacant next =>
          rw [hmove] at h
          simp only at h
          split at h
          · obtain rfl := Target.vacant.inj (Option.some.inj h)
            exact move_vacant hmove
          · cases h

theorem follow_vacant {links : Nat} {here : Location} {segments : List String}
    (h : t.follow links here segments = some (.vacant location)) : IsVacant t location := by
  induction links generalizing here segments with
  | zero => exact along_vacant (fun _ _ h => by cases h) h
  | succ links ih => exact along_vacant (fun _ _ => ih) h

theorem target?_vacant {p : Path} (h : t.target? p = some (.vacant location)) :
    IsVacant t location := by
  unfold target? reach? at h
  split at h
  · split at h
    · exact follow_vacant h
    · cases h
  · cases h

theorem spot?_of_locate? {p : Path} (hlocate : t.locate? p = some location) :
    t.spot? p = some location := by
  rw [spot?, target?_of_locate? hlocate]
  rfl

theorem locate?_of_spot? {p : Path} (hspot : t.spot? p = some location)
    (hentry : t.entryAt location = some entry) : t.locate? p = some location := by
  obtain ⟨target, htarget, rfl⟩ := Option.map_eq_some_iff.1 hspot
  cases target with
  | entry other => rw [locate?, htarget]; rfl
  | vacant other =>
      have hnone := (target?_vacant htarget).none
      rw [Target.spot, hnone] at hentry
      cases hentry

theorem text?_of_spot? {p : Path} {text : String} {executable : Bool}
    (hspot : t.spot? p = some location)
    (hentry : t.entryAt location = some (.file (.text text) executable)) :
    t.text? p = some text := by
  have hlocate := locate?_of_spot? hspot hentry
  simp [text?, content?, entry?, hlocate, hentry, Entry.content?, Content.text?]

section Linkless

variable {onLink : Location → List String → Option Target} {here : Location}
  {front : List String} {name : String}

theorem Linkless.move_ne_link (h : Linkless t) (here : Location) (segment : String)
    (start : Location) (segments : List String) : t.move here segment ≠ .link start segments := by
  intro hmove
  rcases t.move_cases here segment with
    heq | ⟨-, heq | heq | ⟨-, heq⟩ | ⟨target, hlink, -⟩ | ⟨entry, -, heq⟩⟩
  case inr.inr.inr.inr.inl => exact h.entryAt_ne_link (by simp) target hlink
  all_goals rw [heq] at hmove; cases hmove

/-- Without links the last segment of a path starts from where those before it
lead. -/
theorem Linkless.along_concat (h : Linkless t) {target : Target}
    (halong : t.along onLink here (front ++ [name]) = some target) :
    ∃ directory, t.along onLink here front = some (.entry directory) ∧
      t.along onLink directory [name] = some target := by
  induction front generalizing here with
  | nil => exact ⟨here, rfl, halong⟩
  | cons segment rest ih =>
      rw [List.cons_append, along_cons] at halong
      cases hmove : t.move here segment with
      | blocked =>
          rw [hmove] at halong
          cases halong
      | vacant next =>
          rw [hmove] at halong
          simp at halong
      | link start segments => exact absurd hmove (h.move_ne_link here segment start segments)
      | onto next =>
          rw [hmove] at halong
          obtain ⟨directory, hfront, hlast⟩ := ih halong
          exact ⟨directory, by rw [along_cons, hmove]; exact hfront, hlast⟩

theorem Linkless.along_append (h : Linkless t) {directory : Location}
    (halong : t.along onLink here front = some (.entry directory)) (back : List String) :
    t.along onLink here (front ++ back) = t.along onLink directory back := by
  induction front generalizing here with
  | nil =>
      obtain rfl := Target.entry.inj (Option.some.inj halong)
      rfl
  | cons segment rest ih =>
      rw [along_cons] at halong
      rw [List.cons_append, along_cons]
      cases hmove : t.move here segment with
      | blocked =>
          rw [hmove] at halong
          cases halong
      | vacant next =>
          rw [hmove] at halong
          simp only at halong
          split at halong <;> cases halong
      | link start segments => exact absurd hmove (h.move_ne_link here segment start segments)
      | onto next =>
          rw [hmove] at halong
          exact ih halong

/-- Without links a path whose last segment is a name ends at that name, in the
directory that it is joined to. -/
theorem Linkless.spot?_join (h : Linkless t) {directory : Path} (hslash : '/' ∉ name.toList)
    (hempty : name ≠ "") (hdot : name ≠ ".") (hup : name ≠ "..")
    (hspot : t.spot? (directory.join ⟨name⟩) = some location) :
    ∃ here, t.reach? directory = some (.entry here) ∧ location = here ++ [name] := by
  obtain ⟨target, htarget, rfl⟩ := Option.map_eq_some_iff.1 hspot
  have hplain := isAbsolute_of_slash_not_mem hslash
  have hname := segmentsOf_of_slash_not_mem hslash
  obtain ⟨front, hjoined, hdirectory⟩ := exists_segmentsOf_join directory hplain
  have hreach := reach?_of_target? htarget
  unfold reach? at hreach ⊢
  rw [isAbsolute_join directory hplain, hjoined, hname] at hreach
  split at hreach
  case isFalse => cases hreach
  next habsolute =>
    rw [if_pos habsolute]
    have hfollow : t.follow linkLimit = t.along (t.follow 39) := rfl
    rw [hfollow] at hreach ⊢
    obtain ⟨here, hfront, hlast⟩ := h.along_concat hreach
    rw [along_cons] at hlast
    have hhere : t.isDirectoryAt here = true := by
      refine Classical.byContradiction fun hnot => ?_
      rw [move, if_pos hnot] at hlast
      cases hlast
    refine ⟨here, ?_, ?_⟩
    · rcases hdirectory with hsame | hidle
      · rw [hsame]
        exact hfront
      · rw [hidle, h.along_append hfront, along_cons, move, if_neg (not_not_intro hhere)]
        rfl
    · rw [move, if_neg (not_not_intro hhere), if_neg (by simp [hempty, hdot]), if_neg hup] at hlast
      cases hentry : t.entryAt (here ++ [name]) with
      | none =>
          obtain rfl := Option.some.inj (by simpa [hentry] using hlast)
          rfl
      | some entry =>
          cases entry with
          | link target => exact absurd hentry (h.entryAt_ne_link (by simp) target)
          | directory =>
              obtain rfl := Option.some.inj (by simpa [hentry, FileTree.along] using hlast)
              rfl
          | file content executable =>
              obtain rfl := Option.some.inj (by simpa [hentry, FileTree.along] using hlast)
              rfl

end Linkless

/-- Writing puts a file where the path ends. -/
theorem exists_of_write? {p : Path} {text : String} (h : t.write? p text = some t') :
    ∃ location executable, t.spot? p = some location ∧ TakesFile t location ∧
      t' = t.insert location (.file (.text text) executable) := by
  rw [write?] at h
  cases htarget : t.target? p with
  | none => simp [htarget] at h
  | some target =>
      cases target with
      | entry location =>
          simp only [htarget] at h
          split at h
          next content executable hfile =>
            have hne : location ≠ [] := by
              rintro rfl
              cases hfile
            refine ⟨location, executable, by rw [spot?, htarget]; rfl, ⟨hne, ?_⟩,
              (Option.some.inj h).symm⟩
            intro entry hentry
            rw [hfile] at hentry
            exact ⟨content, executable, (Option.some.inj hentry).symm⟩
          next => cases h
      | vacant location =>
          obtain ⟨hnone, hne, -⟩ := target?_vacant htarget
          simp only [htarget, occupy?] at h
          split at h
          next name hname =>
            split at h
            · refine ⟨location, false, by rw [spot?, htarget]; rfl, ⟨hne, ?_⟩,
                (Option.some.inj h).symm⟩
              intro entry hentry
              rw [hnone] at hentry
              cases hentry
            · cases h
          next => cases h

/-! ## Adding entries -/

/-- One tree has every entry of another. -/
def Keeps (before after : FileTree) : Prop :=
  ∀ location entry, before.entryAt location = some entry → after.entryAt location = some entry

theorem Keeps.isDirectoryAt (h : Keeps t t') (hdirectory : t.isDirectoryAt location = true) :
    t'.isDirectoryAt location = true :=
  isDirectoryAt_iff.2 (h _ _ (isDirectoryAt_iff.1 hdirectory))

theorem Keeps.move_eq (h : Keeps t t') {here : Location} {segment : String}
    (hblocked : t.move here segment ≠ .blocked)
    (hvacant : ∀ next, t.move here segment ≠ .vacant next) :
    t'.move here segment = t.move here segment := by
  have hhere : t.isDirectoryAt here = true := by
    refine Classical.byContradiction fun hnot => hblocked ?_
    rw [move, if_pos hnot]
  rw [move, if_neg (not_not_intro hhere)] at hvacant
  rw [move, move, if_neg (not_not_intro hhere), if_neg (not_not_intro (h.isDirectoryAt hhere))]
  split
  · rfl
  · split
    · rfl
    next hidle hup =>
      rw [if_neg hidle, if_neg hup] at hvacant
      cases hentry : t.entryAt (here ++ [segment]) with
      | none => simp [hentry] at hvacant
      | some entry => rw [h _ _ hentry]

theorem Keeps.along {onLink onLink' : Location → List String → Option Target} (h : Keeps t t')
    (hlink : ∀ start segments, onLink start segments = some (.entry location) →
      onLink' start segments = some (.entry location))
    {here : Location} {segments : List String}
    (halong : t.along onLink here segments = some (.entry location)) :
    t'.along onLink' here segments = some (.entry location) := by
  induction segments generalizing here with
  | nil => exact halong
  | cons segment rest ih =>
      rw [along_cons] at halong ⊢
      cases hmove : t.move here segment with
      | blocked =>
          rw [hmove] at halong
          cases halong
      | vacant next =>
          rw [hmove] at halong
          simp only at halong
          split at halong <;> cases halong
      | onto next =>
          rw [h.move_eq (by simp [hmove]) (by simp [hmove]), hmove]
          rw [hmove] at halong
          exact ih halong
      | link start segments =>
          rw [h.move_eq (by simp [hmove]) (by simp [hmove]), hmove]
          rw [hmove] at halong
          exact hlink _ _ halong

theorem Keeps.follow (h : Keeps t t') {links : Nat} {here : Location} {segments : List String}
    (hfollow : t.follow links here segments = some (.entry location)) :
    t'.follow links here segments = some (.entry location) := by
  induction links generalizing here segments with
  | zero => exact h.along (fun _ _ h => by cases h) hfollow
  | succ links ih => exact h.along (fun _ _ => ih) hfollow

theorem Keeps.reach? (h : Keeps t t') {p : Path} (hreach : t.reach? p = some (.entry location)) :
    t'.reach? p = some (.entry location) := by
  unfold FileTree.reach? at hreach ⊢
  split at hreach
  next habsolute =>
    rw [if_pos habsolute]
    exact h.follow hreach
  next => cases hreach

end FileTree

end SolidityBuild
