import SolidityBuild.Project.Build
import SolidityBuild.Proofs.FileTree.Directories

/-!
Writing outputs. Whether or not all of them can be written, a tree is changed
only where the path of an output ends, and there a file with its content is put.
Of outputs whose paths end at one place, the last one stays. Which directories
and files a project writes is read off its configuration and the names of the
contracts.
-/

namespace SolidityBuild.Project

open SolidityBuild.Path FileTree
open Compiler (Artifact Contracts)

variable {t t' : FileTree} {files : List OutputFile} {location : Location} {f : OutputFile}

/-! ## Writing files -/

/-- All that is new in a tree are files that were to be written. -/
structure Written (files : List OutputFile) (before after : FileTree) : Prop where
  linkless : Linkless before → Linkless after
  spot? : ∀ p, after.spot? p = before.spot? p
  reach? : ∀ p location, before.reach? p = some (.entry location) →
    after.reach? p = some (.entry location)
  entryAt : ∀ location, after.entryAt location = before.entryAt location ∨
    TakesFile before location ∧ ∃ f ∈ files, before.spot? f.path = some location ∧
      ∃ executable, after.entryAt location = some (.file (.text f.content) executable)

theorem Written.refl (files : List OutputFile) (t : FileTree) : Written files t t :=
  ⟨id, fun _ => rfl, fun _ _ => id, fun _ => .inl rfl⟩

theorem written_of_write? {rest : List OutputFile} (hwrite : t.write? f.path f.content = some t') :
    Written (f :: rest) t t' := by
  obtain ⟨location, executable, hspot, htakes, rfl⟩ := exists_of_write? hwrite
  refine ⟨fun hlinkless => linkless_insert hlinkless (by simp), spot?_insert_file htakes,
    fun p _ => reach?_insert_file htakes, fun other => ?_⟩
  by_cases hother : other = location
  · subst hother
    exact .inr ⟨htakes, f, List.mem_cons_self, hspot, executable,
      entryAt_insert_self t htakes.1 _⟩
  · exact .inl (entryAt_insert_of_ne t htakes.1 _ hother)

theorem Written.trans {before between after : FileTree} {rest : List OutputFile}
    (h : Written files before between) (h' : Written rest between after)
    (hrest : ∀ f ∈ rest, f ∈ files) : Written files before after := by
  refine ⟨h'.linkless ∘ h.linkless, fun p => (h'.spot? p).trans (h.spot? p),
    fun p location hreach => h'.reach? p location (h.reach? p location hreach),
    fun location => ?_⟩
  rcases h'.entryAt location with hsame | ⟨htakes, f, hf, hspot, hfile⟩
  · rw [hsame]
    exact h.entryAt location
  · rw [h.spot?] at hspot
    refine .inr ⟨?_, f, hrest f hf, hspot, hfile⟩
    rcases h.entryAt location with hsame | ⟨htakes', -⟩
    · refine ⟨htakes.1, fun entry hentry => htakes.2 entry ?_⟩
      rw [hsame]
      exact hentry
    · exact htakes'

theorem writeAll_written (t : FileTree) (files : List OutputFile) :
    Written files t (writeAll t files).1 := by
  induction files generalizing t with
  | nil => exact .refl [] t
  | cons f rest ih =>
      rw [writeAll]
      cases hwrite : t.write? f.path f.content with
      | none => exact .refl _ t
      | some next =>
          exact (written_of_write? hwrite).trans (ih next) fun g => List.mem_cons_of_mem f

/-- The files whose paths end at a place. -/
def filesAt (t : FileTree) (location : Location) (files : List OutputFile) : List OutputFile :=
  files.filter fun f => t.spot? f.path = some location

theorem entryAt_of_getLast? (hwrite : writeAll t files = (t', .ok ()))
    (hlast : (filesAt t location files).getLast? = some f) :
    ∃ executable, t'.entryAt location = some (.file (.text f.content) executable) := by
  induction files generalizing t with
  | nil => simp [filesAt] at hlast
  | cons g rest ih =>
      rw [writeAll] at hwrite
      cases hnext : t.write? g.path g.content with
      | none =>
          rw [hnext] at hwrite
          cases hwrite
      | some next =>
          rw [hnext] at hwrite
          have hspots : filesAt next location rest = filesAt t location rest := by
            have hwritten : Written (g :: rest) t next := written_of_write? hnext
            simp only [filesAt, hwritten.spot?]
          cases hrest : (filesAt next location rest).getLast? with
          | some last =>
              refine ih hwrite ?_
              rw [hspots] at hrest ⊢
              rw [filesAt, List.filter_cons] at hlast
              split at hlast
              · rw [List.getLast?_cons, ← filesAt, hrest] at hlast
                rw [hrest]
                exact hlast
              · exact hlast
          | none =>
              have hempty : filesAt next location rest = [] := List.getLast?_eq_none_iff.1 hrest
              rw [hspots] at hempty
              rw [filesAt, List.filter_cons, ← filesAt, hempty] at hlast
              split at hlast
              next hspot =>
                obtain rfl : g = f := by simpa using hlast
                obtain ⟨place, executable, hplace, htakes, rfl⟩ := exists_of_write? hnext
                obtain rfl : place = location := by simpa [hplace] using hspot
                have hrun : writeAll (t.insert place (.file (.text g.content) executable)) rest =
                    (t', .ok ()) := hwrite
                have hkept := (writeAll_written (t.insert place (.file (.text g.content)
                  executable)) rest).entryAt place
                rw [hrun, entryAt_insert_self t htakes.1] at hkept
                rcases hkept with hkept | ⟨-, other, hother, hspot', -⟩
                · exact ⟨executable, hkept⟩
                · -- nothing that is written later ends here
                  have hmem : other ∈ filesAt t place rest := by
                    rw [spot?_insert_file htakes] at hspot'
                    exact List.mem_filter.2 ⟨hother, by simpa using hspot'⟩
                  rw [hempty] at hmem
                  cases hmem
              next => cases hlast

theorem exists_spot_of_writeAll (hwrite : writeAll t files = (t', .ok ())) (hf : f ∈ files) :
    ∃ location, t.spot? f.path = some location := by
  induction files generalizing t with
  | nil => cases hf
  | cons g rest ih =>
      rw [writeAll] at hwrite
      cases hnext : t.write? g.path g.content with
      | none =>
          rw [hnext] at hwrite
          cases hwrite
      | some next =>
          rw [hnext] at hwrite
          rcases List.mem_cons.1 hf with rfl | hf
          · obtain ⟨location, -, hspot, -⟩ := exists_of_write? hnext
            exact ⟨location, hspot⟩
          · have hwritten : Written (g :: rest) t next := written_of_write? hnext
            obtain ⟨location, hspot⟩ := ih hwrite hf
            exact ⟨location, (hwritten.spot? f.path).symm.trans hspot⟩

/-- The path of a file that was written leads to the last of the files whose paths
end at the same place. -/
theorem exists_getLast?_of_writeAll (hwrite : writeAll t files = (t', .ok ())) (hf : f ∈ files) :
    ∃ location last, t'.spot? f.path = some location ∧
      (filesAt t' location files).getLast? = some last ∧ t'.text? f.path = some last.content := by
  have hwritten := writeAll_written t files
  rw [hwrite] at hwritten
  obtain ⟨location, hspot⟩ := exists_spot_of_writeAll hwrite hf
  have hmem : f ∈ filesAt t location files := List.mem_filter.2 ⟨hf, by simpa using hspot⟩
  have hspot' : t'.spot? f.path = some location := (hwritten.spot? f.path).trans hspot
  cases hlast : (filesAt t location files).getLast? with
  | none =>
      rw [List.getLast?_eq_none_iff.1 hlast] at hmem
      cases hmem
  | some last =>
      obtain ⟨executable, hentry⟩ := entryAt_of_getLast? hwrite hlast
      refine ⟨location, last, hspot', ?_, text?_of_spot? hspot' hentry⟩
      simp only [filesAt, hwritten.spot?] at hlast ⊢
      exact hlast

/-! ## Making the directories -/

/-- All that is new in a tree are directories on the way to some paths. -/
structure MadeFor (directories : List Path) (before after : FileTree) : Prop where
  isTree : after.IsTree
  linkless : Linkless before → Linkless after
  entryAt : ∀ location, after.entryAt location = before.entryAt location ∨
    before.entryAt location = none ∧ after.entryAt location = some .directory ∧
      ∃ directory ∈ directories, ∃ front, front <+: namesOf directory ∧
        after.reach? (pathOf front) = some (.entry location)

theorem MadeFor.refl (htree : t.IsTree) (directories : List Path) : MadeFor directories t t :=
  ⟨htree, id, fun _ => .inl rfl⟩

theorem MadeFor.keeps {directories : List Path} (h : MadeFor directories t t') : Keeps t t' := by
  intro location entry hentry
  rcases h.entryAt location with hsame | ⟨hnone, -, -⟩
  · exact hsame.trans hentry
  · rw [hnone] at hentry
    cases hentry

theorem MadeFor.cons {before between after : FileTree} {p : Path} {directories : List Path}
    (h : MadeAlong (namesOf p) before between) (h' : MadeFor directories between after) :
    MadeFor (p :: directories) before after := by
  refine ⟨h'.isTree, h'.linkless ∘ h.linkless, fun location => ?_⟩
  rcases h.entryAt location with hsame | ⟨hnone, hmade, front, hfront, hreach⟩
  · rcases h'.entryAt location with hsame' | ⟨hnone, hmade, directory, hdirectory, hfront⟩
    · exact .inl (hsame'.trans hsame)
    · exact .inr ⟨hsame.symm.trans hnone, hmade, directory,
        List.mem_cons_of_mem p hdirectory, hfront⟩
  · exact .inr ⟨hnone, h'.keeps _ _ hmade, p, List.mem_cons_self, front, hfront,
      h'.keeps.reach? hreach⟩

theorem makeAll_made (htree : t.IsTree) (directories : List Path) :
    MadeFor directories t (makeAll t directories).1 := by
  induction directories generalizing t with
  | nil => exact .refl htree []
  | cons p rest ih =>
      have hmade := makeDirectories_made htree p
      rw [makeAll]
      rcases hrun : t.makeDirectories p with ⟨next, done⟩
      rw [hrun] at hmade
      cases done with
      | true => exact .cons hmade (ih hmade.isTree)
      | false => exact .cons hmade (.refl hmade.isTree rest)

/-! ## What is written -/

/-- The contracts with their names, in the order of files and names. -/
def listed (contracts : Contracts) : List (String × Artifact) :=
  contracts.values.flatMap TextMap.entries

variable {c : Config} {contracts : Contracts} {directory : Path} {name extension : String}

theorem outputs_eq_flatMap (c : Config) (contracts : Contracts) :
    outputs c contracts =
      (listed contracts).flatMap fun (name, artifact) => contractOutputs c name artifact := by
  rw [outputs, listed, List.flatMap_assoc]

theorem contractNames_eq_map (b : Build) :
    b.contractNames = (listed b.contracts).map Prod.fst := by
  rw [Build.contractNames, listed, List.map_flatMap]
  rfl

theorem contract?_eq_lookup (b : Build) (name : String) :
    b.contract? name = (listed b.contracts).lookup name := by
  rw [Build.contract?, listed]
  induction b.contracts.values with
  | nil => rfl
  | cons first rest ih =>
      rw [List.findSome?_cons, List.flatMap_cons, List.lookup_append, ih, TextMap.get?]
      cases first.entries.lookup name <;> rfl

/-- The file for the artifact of a contract. -/
def jsonFile (directory : Path) (contract : String × Artifact) : OutputFile :=
  ⟨directory.join ⟨contract.1 ++ ".json"⟩, contract.2.write.indented⟩

theorem contractOutputs_eq (hdir : c.jsonDir = some directory) (name : String)
    (artifact : Artifact) :
    contractOutputs c name artifact =
      jsonFile directory (name, artifact) :: (c.tsDir.map fun directory =>
        OutputFile.mk (directory.join ⟨name ++ ".ts"⟩)
          (tsText c.file.target name artifact)).toList := by
  rw [contractOutputs, hdir]
  rfl

theorem jsonFile_mem_outputs (hdir : c.jsonDir = some directory) {contract : String × Artifact}
    (hmem : contract ∈ listed contracts) : jsonFile directory contract ∈ outputs c contracts := by
  obtain ⟨name, artifact⟩ := contract
  rw [outputs_eq_flatMap]
  refine List.mem_flatMap.2 ⟨(name, artifact), hmem, ?_⟩
  simp only [contractOutputs_eq hdir]
  exact List.mem_cons_self

/-- Outputs are `.json` files behind the one directory and `.ts` files behind the
other, for the contracts. -/
def IsOutputPath (c : Config) (names : List String) (p : Path) : Prop :=
  ∃ name ∈ names, ∃ directory,
    c.jsonDir = some directory ∧ p = directory.join ⟨name ++ ".json"⟩ ∨
      c.tsDir = some directory ∧ p = directory.join ⟨name ++ ".ts"⟩

theorem isOutputPath_of_mem (hf : f ∈ outputs c contracts) :
    IsOutputPath c ((listed contracts).map Prod.fst) f.path := by
  rw [outputs_eq_flatMap] at hf
  obtain ⟨⟨name, artifact⟩, hmem, hf⟩ := List.mem_flatMap.1 hf
  refine ⟨name, List.mem_map_of_mem hmem, ?_⟩
  rcases List.mem_append.1 hf with hjson | hts
  · obtain ⟨directory, hdir, rfl⟩ := Option.map_eq_some_iff.1 (Option.mem_toList.1 hjson)
    exact ⟨directory, .inl ⟨hdir, rfl⟩⟩
  · obtain ⟨directory, hdir, rfl⟩ := Option.map_eq_some_iff.1 (Option.mem_toList.1 hts)
    exact ⟨directory, .inr ⟨hdir, rfl⟩⟩

/-- Without links an output for a name without slashes stands in its directory. -/
theorem spot?_output (hlinkless : Linkless t) (hslash : '/' ∉ name.toList)
    (hextension : extension = ".json" ∨ extension = ".ts")
    (hspot : t.spot? (directory.join ⟨name ++ extension⟩) = some location) :
    ∃ here, t.reach? directory = some (.entry here) ∧ location = here ++ [name ++ extension] := by
  have hlong : 3 ≤ extension.length ∧ '/' ∉ extension.toList := by
    rcases hextension with rfl | rfl <;> decide
  have hshort (other : String) (hother : other.length < 3) : name ++ extension ≠ other := by
    rintro rfl
    rw [String.length_append] at hother
    omega
  have hslash' : '/' ∉ (name ++ extension).toList := by
    rw [String.toList_append, List.mem_append]
    exact not_or.2 ⟨hslash, hlong.2⟩
  exact hlinkless.spot?_join hslash' (hshort "" (by decide)) (hshort "." (by decide))
    (hshort ".." (by decide)) hspot

theorem json_ne_ts (name other : String) : name ++ ".json" ≠ other ++ ".ts" := by
  intro heq
  have hlast := congrArg (fun text => text.toList.getLast?) heq
  simp at hlast

theorem filesAt_contractOutputs (hlinkless : Linkless t) (hdir : c.jsonDir = some directory)
    (hname : '/' ∉ name.toList)
    (hspot : t.spot? (directory.join ⟨name ++ ".json"⟩) = some location) {other : String}
    (hother : '/' ∉ other.toList) (artifact : Artifact) :
    filesAt t location (contractOutputs c other artifact) =
      if other = name then [jsonFile directory (other, artifact)] else [] := by
  obtain ⟨here, -, rfl⟩ := spot?_output hlinkless hname (.inl rfl) hspot
  have hjson : t.spot? (jsonFile directory (other, artifact)).path =
      some (here ++ [name ++ ".json"]) ↔ other = name := by
    constructor
    · intro hends
      obtain ⟨there, -, hplace⟩ := spot?_output hlinkless hother (.inl rfl) hends
      have hlast := List.singleton_inj.1 (List.append_inj' hplace rfl).2
      exact (String.append_left_inj ".json").1 hlast.symm
    · rintro rfl
      exact hspot
  have hts : filesAt t (here ++ [name ++ ".json"])
      (c.tsDir.map fun directory =>
        OutputFile.mk (directory.join ⟨other ++ ".ts"⟩)
          (tsText c.file.target other artifact)).toList = [] := by
    refine List.filter_eq_nil_iff.2 fun f hf hends => ?_
    obtain ⟨directory, -, rfl⟩ := Option.map_eq_some_iff.1 (Option.mem_toList.1 hf)
    obtain ⟨there, -, hplace⟩ := spot?_output hlinkless hother (.inr rfl) (by simpa using hends)
    exact json_ne_ts name other (List.singleton_inj.1 (List.append_inj' hplace rfl).2)
  rw [contractOutputs_eq hdir, filesAt, List.filter_cons, ← filesAt, hts]
  by_cases heq : other = name
  · rw [if_pos (decide_eq_true (hjson.2 heq)), if_pos heq]
  · rw [if_neg (mt (fun hends => hjson.1 (of_decide_eq_true hends)) heq), if_neg heq]

/-- Without links the outputs that end where the artifact of a contract goes are
the artifacts of the contracts with its name. -/
theorem filesAt_outputs (hlinkless : Linkless t) (hdir : c.jsonDir = some directory)
    (hslash : ∀ contract ∈ listed contracts, '/' ∉ contract.1.toList) (hname : '/' ∉ name.toList)
    (hspot : t.spot? (directory.join ⟨name ++ ".json"⟩) = some location) :
    filesAt t location (outputs c contracts) =
      ((listed contracts).filter (·.1 = name)).map (jsonFile directory) := by
  rw [outputs_eq_flatMap]
  revert hslash
  induction listed contracts with
  | nil => exact fun _ => rfl
  | cons contract rest ih =>
      intro hslash
      obtain ⟨other, artifact⟩ := contract
      have hrest := ih fun contract hmem => hslash contract (List.mem_cons_of_mem _ hmem)
      have hhead := filesAt_contractOutputs hlinkless hdir hname hspot
        (hslash _ List.mem_cons_self) artifact
      rw [filesAt] at hrest hhead ⊢
      rw [List.flatMap_cons, List.filter_append, hhead, hrest, List.filter_cons]
      by_cases heq : other = name <;> simp [heq]

/-! ## Emission -/

/-- The directories of outputs. -/
def outputDirs (c : Config) : List Path := c.jsonDir.toList ++ c.tsDir.toList

/-- Whether or not it comes to its end, emission makes directories and then
writes outputs. -/
theorem emit_changes (htree : t.IsTree) (c : Config) (contracts : Contracts) :
    ∃ made, MadeFor (outputDirs c) t made ∧
      Written (outputs c contracts) made (emit c contracts t).1 := by
  have hmade := makeAll_made htree (outputDirs c)
  rw [emit, ← outputDirs]
  rcases hdirs : makeAll t (outputDirs c) with ⟨made, done⟩
  rw [hdirs] at hmade
  refine ⟨made, hmade, ?_⟩
  cases done with
  | error p => exact .refl _ made
  | ok _ =>
      have hwritten := writeAll_written made (outputs c contracts)
      rcases hfiles : writeAll made (outputs c contracts) with ⟨after, done⟩
      rw [hfiles] at hwritten
      cases done with
      | error p => simpa only [hfiles] using hwritten
      | ok _ => simpa only [hfiles] using hwritten

theorem exists_of_emit {emitted : List Path} (h : emit c contracts t = (t', .ok emitted)) :
    ∃ made, makeAll t (outputDirs c) = (made, .ok ()) ∧
      writeAll made (outputs c contracts) = (t', .ok ()) ∧
      emitted = (outputs c contracts).map (·.path) := by
  rw [emit, ← outputDirs] at h
  rcases hdirs : makeAll t (outputDirs c) with ⟨made, done⟩
  rw [hdirs] at h
  cases done with
  | error p => cases h
  | ok _ =>
      rcases hfiles : writeAll made (outputs c contracts) with ⟨after, done⟩
      simp only [hfiles] at h
      cases done with
      | error p => cases h
      | ok _ =>
          cases h
          exact ⟨made, rfl, hfiles, rfl⟩

end SolidityBuild.Project
