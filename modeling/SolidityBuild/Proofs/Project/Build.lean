import SolidityBuild.Proofs.Project.Output

/-!
What a build does to a project. It asks the compiler at most once, for exactly
the resolved sources, and any error that the compiler reports ends it. Until
then it has made the directory of the inputs at most. Outputs are written behind
the output directories under the names of contracts. A name is not looked at, so
one with slashes leads out of them.
-/

namespace SolidityBuild.Project

open FileTree
open Compiler (Backend CompilerError Contracts Report Request Result)

variable {c : Config} {backend : Backend} {noEmit : Bool} {t made after : FileTree}
  {sources : SourceSet} {result : Result} {names : List String} {location : Location}

/-! ## The ways a build can go -/

/-- The inputs directory is there, and what stands below it resolves. -/
structure Prepares (c : Config) (t made : FileTree) (sources : SourceSet) : Prop where
  makes : t.makeDirectories c.inputsDir = (made, true)
  resolves : (resolverFor c).resolve made c.inputsDir = .ok sources

/-- One rule for each way that a build can end. -/
inductive Runs (c : Config) (backend : Backend) (noEmit : Bool) (t : FileTree) : BuildRun → Prop
  | unmade {made : FileTree} (hmade : t.makeDirectories c.inputsDir = (made, false)) :
      Runs c backend noEmit t ⟨made, none, .error (.unwritable c.inputsDir)⟩
  | unresolved {made : FileTree} {e : ResolveError}
      (hmade : t.makeDirectories c.inputsDir = (made, true))
      (hfails : (resolverFor c).resolve made c.inputsDir = .error e) :
      Runs c backend noEmit t ⟨made, none, .error (.resolve e)⟩
  | unanswered {made : FileTree} {sources : SourceSet} {e : CompilerError}
      (hprepares : Prepares c t made sources)
      (hanswer : backend (requestFor c sources) = .error e) :
      Runs c backend noEmit t ⟨made, some (requestFor c sources), .error (.compiler e)⟩
  | rejected {made : FileTree} {sources : SourceSet} {result : Result}
      (hprepares : Prepares c t made sources)
      (hanswer : backend (requestFor c sources) = .ok result)
      (herrors : result.hasErrors = true) :
      Runs c backend noEmit t
        ⟨made, some (requestFor c sources), .error (.diagnostics ⟨result.reports sources⟩)⟩
  | withheld {made : FileTree} {sources : SourceSet} {result : Result}
      (hprepares : Prepares c t made sources)
      (hanswer : backend (requestFor c sources) = .ok result)
      (hclean : result.hasErrors = false) (hnoEmit : noEmit = true) :
      Runs c backend noEmit t
        ⟨made, some (requestFor c sources),
          .ok ⟨sources, result.artifacts, result.reports sources, []⟩⟩
  | halted {made after : FileTree} {sources : SourceSet} {result : Result} {p : Path}
      (hprepares : Prepares c t made sources)
      (hanswer : backend (requestFor c sources) = .ok result)
      (hclean : result.hasErrors = false) (hnoEmit : noEmit = false)
      (hemit : emit c result.artifacts made = (after, .error p)) :
      Runs c backend noEmit t
        ⟨after, some (requestFor c sources), .error (.unwritable p)⟩
  | emitted {made after : FileTree} {sources : SourceSet} {result : Result}
      {paths : List Path} (hprepares : Prepares c t made sources)
      (hanswer : backend (requestFor c sources) = .ok result)
      (hclean : result.hasErrors = false) (hnoEmit : noEmit = false)
      (hemit : emit c result.artifacts made = (after, .ok paths)) :
      Runs c backend noEmit t
        ⟨after, some (requestFor c sources),
          .ok ⟨sources, result.artifacts, result.reports sources, paths⟩⟩

theorem build_of_prepares {outcome : Except BuildError Build} (h : Prepares c t made sources)
    (hfinish : finishBuild c noEmit (requestFor c sources) (backend (requestFor c sources)) made =
      (after, outcome)) :
    build c backend noEmit t = ⟨after, some (requestFor c sources), outcome⟩ := by
  unfold build
  rw [h.makes]
  simp only
  rw [h.resolves]
  simp only
  rw [hfinish]

theorem finishBuild_of_hasErrors (request : Request) (herrors : result.hasErrors = true) :
    finishBuild c noEmit request (.ok result) made =
      (made, .error (.diagnostics ⟨result.reports request.sources⟩)) := by
  rw [finishBuild, Result.outcome, if_pos herrors]

theorem finishBuild_of_clean (c : Config) (noEmit : Bool) (made : FileTree) (request : Request)
    (hclean : result.hasErrors = false) :
    finishBuild c noEmit request (.ok result) made =
      if noEmit then
        (made, .ok ⟨request.sources, result.artifacts, result.reports request.sources, []⟩)
      else
        match emit c result.artifacts made with
        | (t, .error p) => (t, .error (.unwritable p))
        | (t, .ok paths) =>
          (t, .ok ⟨request.sources, result.artifacts, result.reports request.sources, paths⟩) := by
  have houtcome : result.outcome request.sources =
      .ok (result.artifacts, result.reports request.sources) := by
    rw [Result.outcome, if_neg (by simp [hclean])]
  cases hemit : emit c result.artifacts made with
  | mk t written =>
      cases written with
      | error p => simp only [finishBuild, houtcome, hemit]
      | ok paths => simp only [finishBuild, houtcome, hemit]

theorem runs_of_prepares (h : Prepares c t made sources) :
    Runs c backend noEmit t (build c backend noEmit t) := by
  cases hanswer : backend (requestFor c sources) with
  | error e =>
      rw [build_of_prepares h (by rw [hanswer, finishBuild])]
      exact .unanswered h hanswer
  | ok result =>
      cases herrors : result.hasErrors with
      | true =>
          rw [build_of_prepares h (by rw [hanswer, finishBuild_of_hasErrors _ herrors])]
          exact .rejected h hanswer herrors
      | false =>
          have hfinish := finishBuild_of_clean c noEmit made (requestFor c sources) herrors
          rw [← hanswer] at hfinish
          cases noEmit with
          | true =>
              rw [build_of_prepares h hfinish]
              exact .withheld h hanswer herrors rfl
          | false =>
              rcases hemit : emit c result.artifacts made with ⟨after, done⟩
              rw [if_neg (by simp), hemit] at hfinish
              cases done with
              | error p =>
                  rw [build_of_prepares h hfinish]
                  exact .halted h hanswer herrors rfl hemit
              | ok paths =>
                  rw [build_of_prepares h hfinish]
                  exact .emitted h hanswer herrors rfl hemit

theorem build_of_unmade (hmade : t.makeDirectories c.inputsDir = (made, false)) :
    build c backend noEmit t = ⟨made, none, .error (.unwritable c.inputsDir)⟩ := by
  unfold build
  rw [hmade]

theorem build_of_unresolved {e : ResolveError}
    (hmade : t.makeDirectories c.inputsDir = (made, true))
    (hfails : (resolverFor c).resolve made c.inputsDir = .error e) :
    build c backend noEmit t = ⟨made, none, .error (.resolve e)⟩ := by
  unfold build
  rw [hmade]
  simp only
  rw [hfails]

/-- Every build goes one of these ways. -/
theorem runs (c : Config) (backend : Backend) (noEmit : Bool) (t : FileTree) :
    Runs c backend noEmit t (build c backend noEmit t) := by
  rcases hmade : t.makeDirectories c.inputsDir with ⟨made, done⟩
  cases done with
  | false =>
      rw [build_of_unmade hmade]
      exact .unmade hmade
  | true =>
      cases hresolved : (resolverFor c).resolve made c.inputsDir with
      | ok sources => exact runs_of_prepares ⟨hmade, hresolved⟩
      | error e =>
          rw [build_of_unresolved hmade hresolved]
          exact .unresolved hmade hresolved

/-! ## What a build is bound to -/

theorem request_eq_some_iff {request : Request} :
    (build c backend noEmit t).request = some request ↔
      ∃ made sources, Prepares c t made sources ∧ request = requestFor c sources := by
  constructor
  · intro hrequest
    have hruns := runs c backend noEmit t
    generalize build c backend noEmit t = run at hruns hrequest
    cases hruns with
    | unmade => cases hrequest
    | unresolved => cases hrequest
    | unanswered h => exact ⟨_, _, h, (Option.some.inj hrequest).symm⟩
    | rejected h => exact ⟨_, _, h, (Option.some.inj hrequest).symm⟩
    | withheld h => exact ⟨_, _, h, (Option.some.inj hrequest).symm⟩
    | halted h => exact ⟨_, _, h, (Option.some.inj hrequest).symm⟩
    | emitted h => exact ⟨_, _, h, (Option.some.inj hrequest).symm⟩
  · rintro ⟨made, sources, h, rfl⟩
    rw [build_of_prepares h rfl]

/-- A build depends on no answer but that to its request. -/
theorem build_congr {other : Backend}
    (hsame : ∀ request, (build c backend noEmit t).request = some request →
      other request = backend request) :
    build c other noEmit t = build c backend noEmit t := by
  rcases hmade : t.makeDirectories c.inputsDir with ⟨made, done⟩
  cases done with
  | false => rw [build_of_unmade hmade, build_of_unmade hmade]
  | true =>
      cases hresolved : (resolverFor c).resolve made c.inputsDir with
      | error e => rw [build_of_unresolved hmade hresolved, build_of_unresolved hmade hresolved]
      | ok sources =>
          have h : Prepares c t made sources := ⟨hmade, hresolved⟩
          have hanswer := hsame _ (request_eq_some_iff.2 ⟨made, sources, h, rfl⟩)
          rw [build_of_prepares h rfl, build_of_prepares h rfl, hanswer]

theorem outcome_of_hasErrors {request : Request}
    (hrequest : (build c backend noEmit t).request = some request)
    (hanswer : backend request = .ok result) (herrors : result.hasErrors = true) :
    (build c backend noEmit t).outcome =
      .error (.diagnostics ⟨result.reports request.sources⟩) := by
  obtain ⟨made, sources, h, rfl⟩ := request_eq_some_iff.1 hrequest
  rw [build_of_prepares h (by rw [hanswer, finishBuild_of_hasErrors _ herrors])]

/-- The compiler has reported no error, and outputs are asked for. -/
def Emits (backend : Backend) (noEmit : Bool) (run : BuildRun) (result : Result) : Prop :=
  noEmit = false ∧ result.hasErrors = false ∧
    ∃ request, run.request = some request ∧ backend request = .ok result

theorem exists_of_emits (h : Emits backend noEmit (build c backend noEmit t) result) :
    ∃ made, t.makeDirectories c.inputsDir = (made, true) ∧
      (build c backend noEmit t).tree = (emit c result.artifacts made).1 := by
  obtain ⟨hnoEmit, hclean, request, hrequest, hanswer⟩ := h
  obtain ⟨made, sources, hprepares, rfl⟩ := request_eq_some_iff.1 hrequest
  refine ⟨made, hprepares.makes, ?_⟩
  have hfinish := finishBuild_of_clean c noEmit made (requestFor c sources) hclean
  rw [if_neg (by simp [hnoEmit]), ← hanswer] at hfinish
  rcases hemit : emit c result.artifacts made with ⟨after, done⟩
  rw [hemit] at hfinish
  cases done with
  | error p => rw [build_of_prepares hprepares hfinish]
  | ok paths => rw [build_of_prepares hprepares hfinish]

/-- A build that does not come to its outputs has made the directory of the
inputs at most. -/
theorem madeFor_of_not_emits (htree : t.IsTree)
    (hquiet : ¬ ∃ result, Emits backend noEmit (build c backend noEmit t) result) :
    MadeFor [c.inputsDir] t (build c backend noEmit t).tree := by
  have hinputs := makeDirectories_made htree c.inputsDir
  have hruns := runs c backend noEmit t
  generalize build c backend noEmit t = run at hruns hquiet
  have hmadeFor {made : FileTree} {done : Bool}
      (hmade : t.makeDirectories c.inputsDir = (made, done)) : MadeFor [c.inputsDir] t made := by
    rw [hmade] at hinputs
    exact .cons hinputs (.refl hinputs.isTree [])
  cases hruns with
  | unmade hmade => exact hmadeFor hmade
  | unresolved hmade => exact hmadeFor hmade
  | unanswered h => exact hmadeFor h.makes
  | rejected h => exact hmadeFor h.makes
  | withheld h => exact hmadeFor h.makes
  | halted h hanswer hclean hnoEmit =>
      exact absurd ⟨_, hnoEmit, hclean, _, rfl, hanswer⟩ hquiet
  | emitted h hanswer hclean hnoEmit =>
      exact absurd ⟨_, hnoEmit, hclean, _, rfl, hanswer⟩ hquiet

/-- A build that comes to its outputs makes the directories they go to, and then
writes them. -/
theorem changes_of_emits (htree : t.IsTree)
    (h : Emits backend noEmit (build c backend noEmit t) result) :
    ∃ made, MadeFor (c.inputsDir :: outputDirs c) t made ∧
      Written (outputs c result.artifacts) made (build c backend noEmit t).tree := by
  obtain ⟨inputs, hinputs, htreeEq⟩ := exists_of_emits h
  have hmade := makeDirectories_made htree c.inputsDir
  rw [hinputs] at hmade
  obtain ⟨made, houtputs, hwritten⟩ := emit_changes hmade.isTree c result.artifacts
  rw [htreeEq]
  exact ⟨made, .cons hmade houtputs, hwritten⟩

/-- A file in an output directory, under the name of a contract. -/
def InOutputDir (c : Config) (t : FileTree) (names : List String) (location : Location) : Prop :=
  ∃ name ∈ names, ∃ directory here, t.reach? directory = some (.entry here) ∧
    (c.jsonDir = some directory ∧ location = here ++ [name ++ ".json"] ∨
      c.tsDir = some directory ∧ location = here ++ [name ++ ".ts"])

/-- The names of the contracts in a result. -/
def contractsOf (result : Result) : List String := (listed result.artifacts).map Prod.fst

/-- What a build may ask for, how it has to fail, and what it may change. -/
structure Contained (c : Config) (backend : Backend) (noEmit : Bool) (t : FileTree)
    (run : BuildRun) : Prop where
  /-- The compiler is asked if and only if there are sources to ask for. -/
  asks : ∀ request, run.request = some request ↔
    ∃ made sources, Prepares c t made sources ∧ request = requestFor c sources
  /-- No other answer than that to this request makes a difference. -/
  asksOnce : ∀ other : Backend,
    (∀ request, run.request = some request → other request = backend request) →
      build c other noEmit t = run
  rejects : ∀ request result, run.request = some request → backend request = .ok result →
    (∃ d ∈ result.diagnostics, d.severity = .error) →
      run.outcome =
        .error (.diagnostics ⟨result.diagnostics.map fun d => .of d request.sources⟩)
  quiet : (¬ ∃ result, Emits backend noEmit run result) → MadeFor [c.inputsDir] t run.tree
  /-- What is new are directories on the way to those of the inputs and outputs,
  and the outputs where their paths end. -/
  changes : ∀ result, Emits backend noEmit run result → ∀ location,
    run.tree.entryAt location = t.entryAt location ∨
    (t.entryAt location = none ∧ run.tree.entryAt location = some .directory ∧
      ∃ directory ∈ c.inputsDir :: outputDirs c, ∃ front, front <+: namesOf directory ∧
        run.tree.reach? (pathOf front) = some (.entry location)) ∨
    TakesFile t location ∧ ∃ f ∈ outputs c result.artifacts,
      IsOutputPath c (contractsOf result) f.path ∧ run.tree.locate? f.path = some location ∧
        ∃ executable, run.tree.entryAt location = some (.file (.text f.content) executable)
  /-- Without links and slashes the paths of outputs end in the output directories. -/
  plain : ∀ result, Emits backend noEmit run result → Linkless t →
    (∀ name ∈ contractsOf result, '/' ∉ name.toList) →
      ∀ p location, IsOutputPath c (contractsOf result) p →
        run.tree.locate? p = some location →
          InOutputDir c run.tree (contractsOf result) location

theorem inOutputDir_of_locate? (hlinkless : Linkless t) (hslash : ∀ name ∈ names, '/' ∉ name.toList)
    {p : Path} (hp : IsOutputPath c names p) (hlocate : t.locate? p = some location) :
    InOutputDir c t names location := by
  have hspot := spot?_of_locate? hlocate
  obtain ⟨name, hname, directory, ⟨hdir, rfl⟩ | ⟨hdir, rfl⟩⟩ := hp
  · obtain ⟨here, hreach, hplace⟩ := spot?_output hlinkless (hslash name hname) (.inl rfl) hspot
    exact ⟨name, hname, directory, here, hreach, .inl ⟨hdir, hplace⟩⟩
  · obtain ⟨here, hreach, hplace⟩ := spot?_output hlinkless (hslash name hname) (.inr rfl) hspot
    exact ⟨name, hname, directory, here, hreach, .inr ⟨hdir, hplace⟩⟩

/-- A build keeps to this, whatever the compiler answers. -/
theorem build_contained (c : Config) (backend : Backend) (noEmit : Bool) {t : FileTree}
    (htree : t.IsTree) : Contained c backend noEmit t (build c backend noEmit t) := by
  constructor
  case asks => exact fun request => request_eq_some_iff
  case asksOnce => exact fun other => build_congr
  case rejects =>
    intro request result hrequest hanswer hsevere
    have herrors : result.hasErrors = true := by simpa [Result.hasErrors] using hsevere
    exact outcome_of_hasErrors hrequest hanswer herrors
  case quiet => exact madeFor_of_not_emits htree
  case changes =>
    intro result hemits location
    obtain ⟨made, hmade, hwritten⟩ := changes_of_emits htree hemits
    rcases hwritten.entryAt location with hsame | ⟨htakes, f, hf, hspot, executable, hfile⟩
    · rcases hmade.entryAt location with hsame' | ⟨hnone, hdirectory, p, hp, front, hfront, hreach⟩
      · exact .inl (hsame.trans hsame')
      · exact .inr (.inl ⟨hnone, hsame.trans hdirectory, p, hp, front, hfront,
          hwritten.reach? _ _ hreach⟩)
    · refine .inr (.inr ⟨?_, f, hf, isOutputPath_of_mem hf, ?_, executable, hfile⟩)
      · exact ⟨htakes.1, fun entry hentry => htakes.2 entry (hmade.keeps _ _ hentry)⟩
      · rw [← hwritten.spot?] at hspot
        exact locate?_of_spot? hspot hfile
  case plain =>
    intro result hemits hlinkless hslash p location hp hlocate
    obtain ⟨made, hmade, hwritten⟩ := changes_of_emits htree hemits
    exact inOutputDir_of_locate? (hwritten.linkless (hmade.linkless hlinkless)) hslash hp hlocate

/-! ## A project with one contract -/

def project : FileTree := ⟨[(["p"], .directory), (["p", "contracts"], .directory)]⟩

def projectConfig : Config :=
  ⟨⟨"/p/steelshards.json"⟩,
    ⟨ConfigFile.defaultInputs, ⟨some ⟨"out"⟩, none⟩, .default, [], .default⟩⟩

/-- A compilation of one contract. -/
def resultOf (name : String) : Result :=
  ⟨[], .empty, .ofList [("A.sol", .ofList [(name, ⟨[], .default, .empty⟩)])]⟩

def answer (name : String) : Backend := fun _ => .ok (resultOf name)

def projectRun (name : String) : BuildRun :=
  build projectConfig (answer name) false project

theorem emits_project {name : String} (hasked : (projectRun name).request.isSome = true) :
    Emits (answer name) false (projectRun name) (resultOf name) := by
  obtain ⟨request, hrequest⟩ := Option.isSome_iff_exists.1 hasked
  exact ⟨rfl, rfl, request, hrequest, rfl⟩

theorem isTree_project : project.IsTree := by
  constructor <;> decide +kernel

theorem project_contained :
    project.IsTree ∧ Emits (answer "Token") false (projectRun "Token") (resultOf "Token") ∧
      Contained projectConfig (answer "Token") false project (projectRun "Token") ∧
      InOutputDir projectConfig (projectRun "Token").tree ["Token"]
        ["p", "out", "Token.json"] := by
  have hcontained := build_contained projectConfig (answer "Token") false isTree_project
  have hemits := @emits_project "Token" (by decide +kernel)
  have hlinkless : Linkless project := by simp [Linkless, project]
  have hpath : IsOutputPath projectConfig (contractsOf (resultOf "Token"))
      (Path.join ⟨"/p/out"⟩ ⟨"Token" ++ ".json"⟩) :=
    ⟨"Token", by decide +kernel, ⟨"/p/out"⟩, .inl ⟨by decide +kernel, rfl⟩⟩
  refine ⟨isTree_project, hemits, hcontained, ?_⟩
  exact hcontained.plain _ hemits hlinkless (by decide +kernel) _ _ hpath (by decide +kernel)

/-- A name with slashes leads out of the output directory. -/
theorem escaped_not_inOutputDir :
    project.IsTree ∧
      Emits (answer "../escaped") false (projectRun "../escaped") (resultOf "../escaped") ∧
      contractsOf (resultOf "../escaped") = ["../escaped"] ∧
      project.entryAt ["p", "escaped.json"] = none ∧
      (∃ text, (projectRun "../escaped").tree.entryAt ["p", "escaped.json"] =
        some (.file (.text text) false)) ∧
      ¬ InOutputDir projectConfig (projectRun "../escaped").tree ["../escaped"]
        ["p", "escaped.json"] := by
  refine ⟨isTree_project, emits_project (by decide +kernel), by decide +kernel, rfl,
    ⟨(Compiler.Artifact.write ⟨[], .default, .empty⟩).indented, by decide +kernel⟩, ?_⟩
  rintro ⟨name, hname, directory, here, -, ⟨-, hplace⟩ | ⟨hdir, -⟩⟩
  · obtain rfl := List.mem_singleton.1 hname
    have hlast := congrArg List.getLast? hplace
    simp at hlast
  · cases hdir

end SolidityBuild.Project
