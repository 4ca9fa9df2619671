import SolidityBuild.Project.Config
import SolidityBuild.Proofs.Path.Ancestors

/-!
The nearest configuration. The search goes upwards from a directory, one parent after
the other, and comes to an end in the first directory that has a regular file of the
name, or above the root. The directories that it has passed have no such file, so that
it ends in the longest one that has.
-/

namespace SolidityBuild.Project.Config

open SolidityBuild.Path

variable {t : FileTree} {name : String} {start directory parent : Path} {turns : Nat}
  {answer : Except ConfigError Path}

/-- A regular file has the name in a directory, links followed. -/
def HasFile (t : FileTree) (name : String) (directory : Path) : Prop :=
  ∃ content executable, t.entry? (directory.join ⟨name⟩) = some (.file content executable)

theorem isFile_iff : t.isFile (directory.join ⟨name⟩) = true ↔ HasFile t name directory := by
  rw [FileTree.isFile, FileTree.content?, HasFile]
  cases t.entry? (directory.join ⟨name⟩) with
  | none => simp
  | some entry => cases entry <;> simp [Entry.content?]

/-! ## Turns -/

/-- The search from a directory, with the number of its turns. A turn looks into one
directory; the search goes on from the parent if the file is not there. -/
inductive Searches (t : FileTree) (name : String) :
    (directory : Path) → (turns : Nat) → Except ConfigError Path → Prop
  | found {directory : Path} (h : t.isFile (directory.join ⟨name⟩) = true) :
      Searches t name directory 1 (.ok (directory.join ⟨name⟩))
  | up {directory parent : Path} {turns : Nat} {answer : Except ConfigError Path}
      (h : t.isFile (directory.join ⟨name⟩) = false) (hparent : directory.parent? = some parent)
      (hrest : Searches t name parent turns answer) : Searches t name directory (turns + 1) answer
  | missing {directory : Path} (h : t.isFile (directory.join ⟨name⟩) = false)
      (hparent : directory.parent? = none) : Searches t name directory 1 (.error .notFound)

theorem findFile_of_isFile (hdirectory : directory.isAbsolute = true)
    (h : t.isFile (directory.join ⟨name⟩) = true) :
    findFile t name directory = .ok (directory.join ⟨name⟩) := by
  obtain ⟨others, hothers⟩ : ∃ others, directory.ancestors = directory :: others := by
    cases hparent : directory.parent? with
    | none => exact ⟨[], ancestors_of_none hparent⟩
    | some parent => exact ⟨parent.ancestors, ancestors_of_some hdirectory hparent⟩
  rw [findFile, hothers, List.map_cons, List.find?_cons_of_pos h]

theorem findFile_of_parent (hdirectory : directory.isAbsolute = true)
    (h : t.isFile (directory.join ⟨name⟩) = false) (hparent : directory.parent? = some parent) :
    findFile t name directory = findFile t name parent := by
  rw [findFile, ancestors_of_some hdirectory hparent, List.map_cons,
    List.find?_cons_of_neg (by simp [h])]
  rfl

theorem findFile_of_none (h : t.isFile (directory.join ⟨name⟩) = false)
    (hparent : directory.parent? = none) : findFile t name directory = .error .notFound := by
  rw [findFile, ancestors_of_none hparent, List.map_cons, List.find?_cons_of_neg (by simp [h])]
  rfl

/-- The search ends, with what is found. Each turn but the last goes on from a shorter
path. -/
theorem searches_findFile (t : FileTree) (name : String) (hstart : start.isAbsolute = true) :
    ∃ turns ≤ start.text.length, Searches t name start turns (findFile t name start) := by
  induction hlength : start.text.length using Nat.strongRecOn generalizing start with
  | ind length ih =>
    subst hlength
    have hpositive := length_pos_of_isAbsolute hstart
    by_cases hfile : t.isFile (start.join ⟨name⟩) = true
    · rw [findFile_of_isFile hstart hfile]
      exact ⟨1, hpositive, .found hfile⟩
    rw [Bool.not_eq_true] at hfile
    cases hparent : start.parent? with
    | none =>
      rw [findFile_of_none hfile hparent]
      exact ⟨1, hpositive, .missing hfile hparent⟩
    | some parent =>
      have hstands := StandsIn.of_parent? hstart hparent
      have hlt := hstands.length_lt
      obtain ⟨turns, hturns, hrest⟩ := ih _ hlt hstands.isAbsolute rfl
      rw [findFile_of_parent hstart hfile hparent]
      exact ⟨turns + 1, by omega, .up hfile hparent hrest⟩

/-! ## What has been passed -/

/-- A directory that the search has come to: whatever has the file is still ahead. -/
structure Reaches (t : FileTree) (name : String) (start directory : Path) : Prop where
  within : start.Within directory
  ahead : ∀ other, start.Within other → HasFile t name other → directory.Within other

theorem Reaches.refl (t : FileTree) (name : String) (start : Path) :
    Reaches t name start start :=
  ⟨.inl rfl, fun _ hother _ => hother⟩

theorem Reaches.up (h : Reaches t name start directory)
    (habsolute : directory.isAbsolute = true) (hfile : ¬ HasFile t name directory)
    (hparent : directory.parent? = some parent) : Reaches t name start parent := by
  refine ⟨h.within.trans (.of_parent? habsolute hparent), fun other hother hhas => ?_⟩
  rcases h.ahead other hother hhas with rfl | hstands
  · exact absurd hhas hfile
  · exact hstands.within_parent habsolute hparent

/-- The longest directory with the file among those that a path is within. -/
structure IsNearest (t : FileTree) (name : String) (start directory : Path) : Prop where
  within : start.Within directory
  hasFile : HasFile t name directory
  longest : ∀ other, start.Within other → HasFile t name other →
    other.text.length ≤ directory.text.length

theorem IsNearest.unique {directory' : Path} (h : IsNearest t name start directory)
    (h' : IsNearest t name start directory') : directory = directory' := by
  have hlength : directory.text.length = directory'.text.length :=
    Nat.le_antisymm (h'.longest _ h.within h.hasFile) (h.longest _ h'.within h'.hasFile)
  exact h.within.eq_of_length h'.within hlength

/-- The answer to a search: the file in the nearest directory, or that there is none. -/
def Answers (t : FileTree) (name : String) (start : Path) : Except ConfigError Path → Prop
  | .ok path => ∃ directory, IsNearest t name start directory ∧ path = directory.join ⟨name⟩
  | .error e => e = .notFound ∧ ∀ directory, start.Within directory → ¬ HasFile t name directory

theorem Searches.answers (h : Searches t name directory turns answer)
    (hreaches : Reaches t name start directory) (hdirectory : directory.isAbsolute = true) :
    Answers t name start answer := by
  induction h with
  | @found directory hfile =>
    refine ⟨directory, ⟨hreaches.within, isFile_iff.1 hfile, fun other hother hhas => ?_⟩, rfl⟩
    exact (hreaches.ahead other hother hhas).length_le
  | @up directory parent turns answer hfile hparent _ ih =>
    have hnot : ¬ HasFile t name directory := by
      rw [← isFile_iff, hfile]
      exact Bool.false_ne_true
    have hstands := StandsIn.of_parent? hdirectory hparent
    exact ih (hreaches.up hdirectory hnot hparent) hstands.isAbsolute
  | @missing directory hfile hparent =>
    refine ⟨rfl, fun other hother hhas => ?_⟩
    rcases hreaches.ahead other hother hhas with rfl | hstands
    · rw [isFile_iff.2 hhas] at hfile
      cases hfile
    · exact not_standsIn_of_parent? hdirectory hparent hstands

/-- Whatever a search ends with is what is found. -/
theorem Searches.eq_findFile (h : Searches t name directory turns answer)
    (hdirectory : directory.isAbsolute = true) : answer = findFile t name directory := by
  induction h with
  | found hfile => exact (findFile_of_isFile hdirectory hfile).symm
  | up hfile hparent _ ih =>
    have hstands := StandsIn.of_parent? hdirectory hparent
    rw [findFile_of_parent hdirectory hfile hparent]
    exact ih hstands.isAbsolute
  | missing hfile hparent => exact (findFile_of_none hfile hparent).symm

/-- The search from a directory ends, and with one answer only. It gives the file in the
longest directory, among the one it starts from and those this stands in, that has a
regular file of the name; and it fails, the file not found, exactly if none has. -/
theorem nearest_file_found (t : FileTree) (name : String) {start : Path}
    (hstart : start.isAbsolute = true) :
    (∃ turns ≤ start.text.length, Searches t name start turns (findFile t name start)) ∧
    (∀ turns answer, Searches t name start turns answer → answer = findFile t name start) ∧
    (∀ path, findFile t name start = .ok path ↔
      ∃ directory, IsNearest t name start directory ∧ path = directory.join ⟨name⟩) ∧
    (∀ e, findFile t name start = .error e ↔
      e = .notFound ∧ ∀ directory, start.Within directory → ¬ HasFile t name directory) := by
  obtain ⟨turns, hturns, hsearches⟩ := searches_findFile t name hstart
  have hanswers := hsearches.answers (.refl t name start) hstart
  refine ⟨⟨turns, hturns, hsearches⟩, fun _ _ h => h.eq_findFile hstart, fun path => ?_,
    fun e => ?_⟩
  · constructor
    · intro h
      rwa [h] at hanswers
    · rintro ⟨directory, hnearest, rfl⟩
      cases hfound : findFile t name start with
      | ok path =>
        rw [hfound] at hanswers
        obtain ⟨directory', hnearest', rfl⟩ := hanswers
        rw [hnearest.unique hnearest']
      | error e =>
        rw [hfound] at hanswers
        exact absurd hnearest.hasFile (hanswers.2 directory hnearest.within)
  · constructor
    · intro h
      rwa [h] at hanswers
    · rintro ⟨rfl, hnone⟩
      cases hfound : findFile t name start with
      | ok path =>
        rw [hfound] at hanswers
        obtain ⟨directory, hnearest, -⟩ := hanswers
        exact absurd hnearest.hasFile (hnone directory hnearest.within)
      | error e =>
        rw [hfound] at hanswers
        rw [hanswers.1]

/-- A project with a configuration file, and in it a directory that is named like one. -/
def nested : FileTree :=
  ⟨[(["work"], .directory), (["work", "steelshards.json"], .file (.text "{}") false),
    (["work", "app"], .directory), (["work", "app", "steelshards.json"], .directory),
    (["work", "app", "src"], .directory)]⟩

/-- The directory is passed over, and the file further up is found. -/
theorem file_above_directory_found :
    isAbsolute ⟨"/work//app/src/."⟩ = true ∧
    nested.isDirectory ⟨"/work//app/steelshards.json"⟩ = true ∧
    (∃ directory, IsNearest nested configName ⟨"/work//app/src/."⟩ directory ∧
      ⟨"/work/steelshards.json"⟩ = directory.join ⟨configName⟩) ∧
    ∀ directory, Path.Within ⟨"/work//app/src/."⟩ directory →
      ¬ HasFile nested "missing.json" directory := by
  have hstart : isAbsolute ⟨"/work//app/src/."⟩ = true := by decide
  have hfound : findFile nested configName ⟨"/work//app/src/."⟩ =
      .ok ⟨"/work/steelshards.json"⟩ := by
    decide +kernel
  have hmissing : findFile nested "missing.json" ⟨"/work//app/src/."⟩ = .error .notFound := by
    decide +kernel
  obtain ⟨-, -, hnearest, -⟩ := nearest_file_found nested configName hstart
  obtain ⟨-, -, -, hnone⟩ := nearest_file_found nested "missing.json" hstart
  exact ⟨hstart, by decide +kernel, (hnearest _).1 hfound, ((hnone _).1 hmissing).2⟩

end SolidityBuild.Project.Config
