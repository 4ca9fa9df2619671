import Mathlib.Data.List.Nodup
import SolidityBuild.Project.Session
import SolidityBuild.Proofs.Project.Build

/-!
The artifacts of a session and those in files. Of contracts with one name a
session takes the first, in the order of files, and the last one is what stays
in the file of that name. So they agree, and no file is written twice, as long
as the contracts of a build have different names.
-/

namespace SolidityBuild.Project

open SolidityBuild.Path FileTree
open Compiler (Artifact Backend Contracts)

variable {c : Config} {backend : Backend} {b : Build} {t tree : FileTree} {directory : Path}
  {name : String} {artifact : Artifact} {names : List String}

namespace Build

/-- The artifact of the last contract with a name, in the order of files. -/
def lastContract? (b : Build) (name : String) : Option Artifact :=
  ((listed b.contracts).filter (·.1 = name)).getLast?.map Prod.snd

theorem exists_contracts (hname : name ∈ b.contractNames) :
    ∃ first last, b.contract? name = some first ∧ b.lastContract? name = some last := by
  rw [contractNames_eq_map] at hname
  obtain ⟨contract, hmem, rfl⟩ := List.mem_map.1 hname
  have hfirst : (b.contract? contract.1).isSome = true := by
    rw [contract?_eq_lookup, List.lookup_isSome_iff]
    exact ⟨contract, hmem, by simp⟩
  have hkept : contract ∈ (listed b.contracts).filter (·.1 = contract.1) :=
    List.mem_filter.2 ⟨hmem, by simp⟩
  obtain ⟨first, hfirst⟩ := Option.isSome_iff_exists.1 hfirst
  cases hlast : ((listed b.contracts).filter (·.1 = contract.1)).getLast? with
  | none =>
      rw [List.getLast?_eq_none_iff.1 hlast] at hkept
      cases hkept
  | some last => exact ⟨first, last.2, hfirst, by rw [lastContract?, hlast]; rfl⟩

theorem mem_of_contract? (h : b.contract? name = some artifact) :
    (name, artifact) ∈ listed b.contracts := by
  rw [contract?_eq_lookup] at h
  obtain ⟨front, back, heq, -⟩ := List.lookup_eq_some_iff.1 h
  rw [heq]
  exact List.mem_append_right front List.mem_cons_self

theorem getLast?_of_lastContract? (h : b.lastContract? name = some artifact) :
    ((listed b.contracts).filter (·.1 = name)).getLast? = some (name, artifact) := by
  obtain ⟨⟨other, last⟩, hlast, rfl⟩ := Option.map_eq_some_iff.1 h
  have hkept := List.mem_filter.1 (List.mem_of_getLast? hlast)
  obtain rfl : other = name := by simpa using hkept.2
  exact hlast

theorem mem_of_lastContract? (h : b.lastContract? name = some artifact) :
    (name, artifact) ∈ listed b.contracts :=
  (List.mem_filter.1 (List.mem_of_getLast? (getLast?_of_lastContract? h))).1

/-- The first and the last contract of a name are one if no name is used twice. -/
theorem contract?_eq_lastContract? (hnodup : b.contractNames.Nodup)
    (hname : name ∈ b.contractNames) : b.contract? name = b.lastContract? name := by
  obtain ⟨first, last, hfirst, hlast⟩ := exists_contracts hname
  rw [contractNames_eq_map] at hnodup
  have heq := List.inj_on_of_nodup_map hnodup (mem_of_contract? hfirst)
    (mem_of_lastContract? hlast) rfl
  rw [hfirst, hlast, (Prod.mk.inj heq).2]

end Build

/-! ## Paths of outputs -/

theorem exists_text_join (directory : Path) :
    ∃ front, ∀ name : String, '/' ∉ name.toList →
      (directory.join ⟨name⟩).text = front ++ name := by
  by_cases hends : directory.text = "" ∨ directory.text.toList.getLast? = some '/'
  · refine ⟨directory.text, fun name hslash => ?_⟩
    rw [join, isAbsolute_of_slash_not_mem hslash, if_neg Bool.false_ne_true, if_pos hends]
  · refine ⟨directory.text ++ "/", fun name hslash => ?_⟩
    rw [join, isAbsolute_of_slash_not_mem hslash, if_neg Bool.false_ne_true, if_neg hends]

theorem slash_not_mem_extension {extension : String} (hslash : '/' ∉ name.toList)
    (hextension : '/' ∉ extension.toList) : '/' ∉ (name ++ extension).toList := by
  rw [String.toList_append, List.mem_append]
  exact not_or.2 ⟨hslash, hextension⟩

theorem name_eq_of_join_eq {extension other : String} (hextension : '/' ∉ extension.toList)
    (hname : '/' ∉ name.toList) (hother : '/' ∉ other.toList)
    (h : directory.join ⟨name ++ extension⟩ = directory.join ⟨other ++ extension⟩) :
    name = other := by
  obtain ⟨front, hfront⟩ := exists_text_join directory
  have htext := congrArg Path.text h
  rw [hfront _ (slash_not_mem_extension hname hextension),
    hfront _ (slash_not_mem_extension hother hextension)] at htext
  exact (String.append_left_inj extension).1 ((String.append_right_inj front).1 htext)

theorem json_path_ne_ts_path {other : String} (jsonDirectory tsDirectory : Path)
    (hname : '/' ∉ name.toList) (hother : '/' ∉ other.toList) :
    jsonDirectory.join ⟨name ++ ".json"⟩ ≠ tsDirectory.join ⟨other ++ ".ts"⟩ := by
  obtain ⟨front, hfront⟩ := exists_text_join jsonDirectory
  obtain ⟨front', hfront'⟩ := exists_text_join tsDirectory
  intro heq
  have htext := congrArg Path.text heq
  rw [hfront _ (slash_not_mem_extension hname (by decide)),
    hfront' _ (slash_not_mem_extension hother (by decide)), ← String.append_assoc,
    ← String.append_assoc] at htext
  exact json_ne_ts _ _ htext

/-- The paths of the outputs for one contract. -/
def pathsFor (c : Config) (name : String) : List Path :=
  (c.jsonDir.map (·.join ⟨name ++ ".json"⟩)).toList ++
    (c.tsDir.map (·.join ⟨name ++ ".ts"⟩)).toList

theorem map_path_outputs (c : Config) (contracts : Contracts) :
    (outputs c contracts).map (·.path) =
      ((listed contracts).map Prod.fst).flatMap (pathsFor c) := by
  rw [outputs_eq_flatMap, List.map_flatMap, List.flatMap_map]
  congr 1
  funext ⟨name, artifact⟩
  simp only [contractOutputs, pathsFor]
  cases c.jsonDir <;> cases c.tsDir <;> rfl

theorem mem_pathsFor_iff {p : Path} :
    p ∈ pathsFor c name ↔ (∃ directory, c.jsonDir = some directory ∧
        directory.join ⟨name ++ ".json"⟩ = p) ∨
      ∃ directory, c.tsDir = some directory ∧ directory.join ⟨name ++ ".ts"⟩ = p := by
  rw [pathsFor, List.mem_append, Option.mem_toList, Option.mem_toList,
    Option.map_eq_some_iff, Option.map_eq_some_iff]

theorem nodup_pathsFor (c : Config) (hname : '/' ∉ name.toList) : (pathsFor c name).Nodup := by
  rw [pathsFor]
  cases c.jsonDir with
  | none => cases c.tsDir <;> simp
  | some directory =>
      cases c.tsDir with
      | none => simp
      | some tsDirectory => simpa using json_path_ne_ts_path directory tsDirectory hname hname

/-- Outputs for different names have different paths. -/
theorem disjoint_pathsFor_iff {other : String} (hdir : c.jsonDir = some directory)
    (hname : '/' ∉ name.toList) (hother : '/' ∉ other.toList) :
    (pathsFor c name).Disjoint (pathsFor c other) ↔ name ≠ other := by
  constructor
  · rintro hdisjoint rfl
    have hmem : directory.join ⟨name ++ ".json"⟩ ∈ pathsFor c name :=
      mem_pathsFor_iff.2 (.inl ⟨directory, hdir, rfl⟩)
    exact hdisjoint hmem hmem
  · intro hne p hp hp'
    rcases mem_pathsFor_iff.1 hp with ⟨d, hd, rfl⟩ | ⟨d, hd, rfl⟩ <;>
      rcases mem_pathsFor_iff.1 hp' with ⟨d', hd', heq⟩ | ⟨d', hd', heq⟩
    · obtain rfl := Option.some.inj (hd.symm.trans hd')
      exact hne (name_eq_of_join_eq (by decide) hother hname heq).symm
    · exact json_path_ne_ts_path d d' hname hother heq.symm
    · exact json_path_ne_ts_path d' d hother hname heq
    · obtain rfl := Option.some.inj (hd.symm.trans hd')
      exact hne (name_eq_of_join_eq (by decide) hother hname heq).symm

/-- No path is written to twice if and only if no name is used twice. -/
theorem nodup_paths_iff (hdir : c.jsonDir = some directory)
    (hnames : ∀ name ∈ names, '/' ∉ name.toList) :
    (names.flatMap (pathsFor c)).Nodup ↔ names.Nodup := by
  have hdisjoint : names.Pairwise (Function.onFun List.Disjoint (pathsFor c)) ↔
      names.Pairwise (· ≠ ·) := by
    refine List.Pairwise.iff_of_mem fun hname hother => ?_
    exact disjoint_pathsFor_iff hdir (hnames _ hname) (hnames _ hother)
  rw [List.nodup_flatMap, hdisjoint]
  constructor
  · exact fun h => h.2
  · exact fun h => ⟨fun name hname => nodup_pathsFor c (hnames name hname), h⟩

/-! ## What a build leaves -/

/-- A build that succeeds and emits has written all of its outputs. -/
theorem exists_of_ok_build (htree : t.IsTree)
    (h : (build c backend false t).outcome = .ok b) :
    ∃ made, MadeFor (c.inputsDir :: outputDirs c) t made ∧
      writeAll made (outputs c b.contracts) = ((build c backend false t).tree, .ok ()) ∧
      b.emitted = (outputs c b.contracts).map (·.path) := by
  have hinputs := makeDirectories_made htree c.inputsDir
  have hruns := runs c backend false t
  generalize build c backend false t = run at hruns h
  cases hruns with
  | unmade => cases h
  | unresolved => cases h
  | unanswered => cases h
  | rejected => cases h
  | withheld _ _ _ hnoEmit => cases hnoEmit
  | halted => cases h
  | emitted hprepares _ _ _ hemit =>
      cases h
      rw [hprepares.makes] at hinputs
      obtain ⟨made, hmake, hwrite, hemitted⟩ := exists_of_emit hemit
      have hmade := makeAll_made hinputs.isTree (outputDirs c)
      rw [hmake] at hmade
      exact ⟨made, .cons hinputs hmade, hwrite, hemitted⟩

/-- Without links the file for a name holds the last of its contracts. -/
theorem text?_of_lastContract? {made : FileTree} (hlinkless : Linkless tree)
    (hwrite : writeAll made (outputs c b.contracts) = (tree, .ok ()))
    (hdir : c.jsonDir = some directory) (hnames : ∀ name ∈ b.contractNames, '/' ∉ name.toList)
    (hlast : b.lastContract? name = some artifact) :
    tree.text? (directory.join ⟨name ++ ".json"⟩) = some artifact.write.indented := by
  have hmem := Build.mem_of_lastContract? hlast
  have hslash : ∀ contract ∈ listed b.contracts, '/' ∉ contract.1.toList := by
    intro contract hcontract
    apply hnames
    rw [contractNames_eq_map]
    exact List.mem_map_of_mem hcontract
  obtain ⟨location, last, hspot, hfile, htext⟩ :=
    exists_getLast?_of_writeAll hwrite (jsonFile_mem_outputs hdir hmem)
  rw [filesAt_outputs hlinkless hdir hslash (hslash _ hmem) hspot, List.getLast?_map,
    Build.getLast?_of_lastContract? hlast] at hfile
  rw [← Option.some.inj hfile] at htext
  exact htext

/-- A session remembers the build that it has just made. -/
theorem run_of_session {s after : Session} {run : BuildRun} {noEmit : Bool}
    (hrun : s.build backend noEmit t = (after, run)) :
    build s.config backend noEmit t = run ∧ after.lastBuild = run.outcome.toOption := by
  simp only [Session.build, Prod.mk.injEq] at hrun
  obtain ⟨hafter, hbuild⟩ := hrun
  refine ⟨hbuild, ?_⟩
  rw [← hafter, hbuild]

theorem exists_session_run (s : Session) (backend : Backend) (noEmit : Bool) (t : FileTree) :
    ∃ after run, s.build backend noEmit t = (after, run) := by
  rw [Session.build]
  exact ⟨_, _, rfl⟩

theorem artifact_of_lastBuild {s : Session} (hlast : s.lastBuild = some b)
    (hcontract : b.contract? name = some artifact) : s.artifact name = .ok artifact := by
  rw [Session.artifact, hlast]
  simp only [hcontract]

/-- After a build that emits, the files and the session agree on every artifact
if no two contracts have the same name. Otherwise the file of the name has the
last of its contracts, and the session the first. -/
theorem emitted_agree_iff {s after : Session} {backend : Backend} {t : FileTree} {run : BuildRun}
    {b : Build} {directory : Path} (htree : t.IsTree) (hdir : s.config.jsonDir = some directory)
    (hrun : s.build backend false t = (after, run)) (hbuild : run.outcome = .ok b) :
    -- where links lead paths to one place, the last output stays there
    (∀ f ∈ outputs s.config b.contracts, ∃ location last, run.tree.spot? f.path = some location ∧
      (filesAt run.tree location (outputs s.config b.contracts)).getLast? = some last ∧
      run.tree.text? f.path = some last.content) ∧
    ((∀ name ∈ b.contractNames, '/' ∉ name.toList) →
      (b.emitted.Nodup ↔ b.contractNames.Nodup) ∧
      (Linkless t → ∀ name ∈ b.contractNames, ∃ first last,
        after.artifact name = .ok first ∧ b.lastContract? name = some last ∧
        run.tree.text? (directory.join ⟨name ++ ".json"⟩) = some last.write.indented ∧
        (b.contractNames.Nodup → first = last))) := by
  obtain ⟨hruns, hlastBuild⟩ := run_of_session hrun
  rw [hbuild] at hlastBuild
  obtain ⟨made, hmade, hwrite, hemitted⟩ := exists_of_ok_build htree (hruns.symm ▸ hbuild)
  rw [hruns] at hwrite
  refine ⟨fun f hf => exists_getLast?_of_writeAll hwrite hf, fun hnames => ⟨?_, ?_⟩⟩
  · rw [hemitted, map_path_outputs, ← contractNames_eq_map]
    exact nodup_paths_iff hdir hnames
  · intro hlinkless name hname
    obtain ⟨first, last, hfirst, hlast⟩ := Build.exists_contracts hname
    have hwritten := writeAll_written made (outputs s.config b.contracts)
    rw [hwrite] at hwritten
    have hkept := hwritten.linkless (hmade.linkless hlinkless)
    refine ⟨first, last, artifact_of_lastBuild hlastBuild hfirst, hlast,
      text?_of_lastContract? hkept hwrite hdir hnames hlast, ?_⟩
    intro hnodup
    rw [Build.contract?_eq_lastContract? hnodup hname, hlast] at hfirst
    exact (Option.some.inj hfirst).symm

/-- A compilation with two contracts of one name. -/
def tokens : Compiler.Result :=
  ⟨[], .empty, .ofList [("A.sol", .ofList [("Token", ⟨[], ⟨⟨"01", .empty⟩, .empty⟩, .empty⟩)]),
    ("B.sol", .ofList [("Token", ⟨[], ⟨⟨"02", .empty⟩, .empty⟩, .empty⟩)])]⟩

theorem tokens_disagree :
    ∃ after run b, (Session.start projectConfig).build (fun _ => .ok tokens) false project =
        (after, run) ∧ project.IsTree ∧ Linkless project ∧ run.outcome = .ok b ∧
      b.contractNames = ["Token", "Token"] ∧ ¬ b.emitted.Nodup ∧
      ∃ first last : Artifact, after.artifact "Token" = .ok first ∧
        run.tree.text? (Path.join ⟨"/p/out"⟩ ⟨"Token" ++ ".json"⟩) = some last.write.indented ∧
        first.bytecode = "01" ∧ last.bytecode = "02" := by
  have hshape : (build (Session.start projectConfig).config (fun _ => .ok tokens) false
      project).outcome.toOption.map (fun b => (b.contractNames,
        (b.contract? "Token").map Artifact.bytecode,
        (b.lastContract? "Token").map Artifact.bytecode)) =
      some (["Token", "Token"], some "01", some "02") := by
    decide +kernel
  obtain ⟨after, run, hrun⟩ :=
    exists_session_run (Session.start projectConfig) (fun _ => .ok tokens) false project
  rw [(run_of_session hrun).1] at hshape
  obtain ⟨b, hb, hvalues⟩ := Option.map_eq_some_iff.1 hshape
  have hok : run.outcome = .ok b := by
    cases houtcome : run.outcome with
    | error e =>
        rw [houtcome] at hb
        cases hb
    | ok other =>
        rw [houtcome] at hb
        rw [Option.some.inj hb]
  obtain ⟨hnames, hfirst, hlast⟩ : b.contractNames = ["Token", "Token"] ∧
      (b.contract? "Token").map Artifact.bytecode = some "01" ∧
      (b.lastContract? "Token").map Artifact.bytecode = some "02" := by
    simpa using hvalues
  have hlinkless : Linkless project := by simp [Linkless, project]
  have hdir : (Session.start projectConfig).config.jsonDir = some ⟨"/p/out"⟩ := by
    decide +kernel
  obtain ⟨-, hplain⟩ := emitted_agree_iff isTree_project hdir hrun hok
  obtain ⟨hpaths, hfiles⟩ := hplain (by simp [hnames])
  obtain ⟨first, last, hartifact, hstays, htext, -⟩ := hfiles hlinkless "Token" (by simp [hnames])
  refine ⟨after, run, b, hrun, isTree_project, hlinkless, hok, hnames, ?_, first, last, hartifact,
    htext, ?_, ?_⟩
  · rw [hpaths, hnames]
    simp
  · obtain ⟨token, htoken, hcode⟩ := Option.map_eq_some_iff.1 hfirst
    have hlastBuild := (run_of_session hrun).2
    rw [hok] at hlastBuild
    rw [artifact_of_lastBuild hlastBuild htoken] at hartifact
    rw [← Except.ok.inj hartifact]
    exact hcode
  · rw [hstays] at hlast
    exact Option.some.inj hlast

end SolidityBuild.Project
