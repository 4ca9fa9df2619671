import SolidityBuild.Proofs.FileTree.Again
import SolidityBuild.Proofs.Project.Build
import SolidityBuild.Proofs.Source.Footprint

/-!
Building twice. The outputs of a build are files like any others, and nothing keeps
them apart from the inputs. If the walk of the inputs and the imports on it come upon
the files that were there before the outputs, with the texts that they had, then the
second build resolves the same sources and asks the compiler the same. A file that has
been put below the directory of the inputs becomes one of them.
-/

namespace SolidityBuild.Project

open FileTree
open Compiler (Backend Contracts)
open Resolver (Reachable Imports Ends NoBackslashes NeverRaises SameFootprint placeOf walkedPlaces
  virtualOf)

variable {c : Config} {backend : Backend} {t dirs made after : FileTree} {b : Build}
  {contracts : Contracts} {sources : SourceSet} {p : Path} {paths : List Path}
  {files : List OutputFile} {location : Location}

/-! ## The tree after a build -/

/-- A build that comes to its end has resolved its sources and written its outputs. -/
theorem exists_of_build (h : (build c backend false t).outcome = .ok b) :
    ∃ made, Prepares c t made b.sources ∧
      (build c backend false t).request = some (requestFor c b.sources) ∧
        emit c b.contracts made = ((build c backend false t).tree, .ok b.emitted) := by
  have hruns := runs c backend false t
  generalize build c backend false t = run at hruns h ⊢
  cases hruns with
  | emitted hprepares _ _ _ hemit =>
      cases h
      exact ⟨_, hprepares, rfl, hemit⟩
  | withheld _ _ _ hnoEmit => cases hnoEmit
  | unmade _ => cases h
  | unresolved _ _ => cases h
  | unanswered _ _ => cases h
  | rejected _ _ _ => cases h
  | halted _ _ _ _ _ => cases h

theorem makeAll_grows (htree : t.IsTree) (directories : List Path) :
    Grows t (makeAll t directories).1 := by
  induction directories generalizing t with
  | nil => exact .refl
  | cons p rest ih =>
      obtain ⟨hmade, hgrows, -⟩ := makeDirectories_changes htree p
      rw [makeAll]
      rcases hrun : t.makeDirectories p with ⟨next, done⟩
      rw [hrun] at hmade hgrows
      cases done with
      | true => exact hgrows.trans (ih hmade.isTree)
      | false => exact hgrows

theorem writeAll_grows (htree : t.IsTree) (files : List OutputFile) :
    Grows t (writeAll t files).1 := by
  induction files generalizing t with
  | nil => exact .refl
  | cons f rest ih =>
      rw [writeAll]
      cases hwrite : t.write? f.path f.content with
      | none => exact .refl
      | some next =>
          have hgrows := grows_of_write? htree hwrite
          exact hgrows.trans (ih (hgrows.isTree htree))

theorem grows_of_emit (htree : made.IsTree) (hemit : emit c contracts made = (after, .ok paths)) :
    Grows made after := by
  obtain ⟨dirs, hdirs, hwrites, -⟩ := exists_of_emit hemit
  have hmade := makeAll_grows htree (outputDirs c)
  rw [hdirs] at hmade
  have hwritten := writeAll_grows (hmade.isTree htree) (outputs c contracts)
  rw [hwrites] at hwritten
  exact hmade.trans hwritten

theorem linkless_of_emit (htree : made.IsTree) (hlinkless : Linkless made)
    (hemit : emit c contracts made = (after, .ok paths)) : Linkless after := by
  obtain ⟨dirs, hdirs, hwritten⟩ := emit_changes htree c contracts
  rw [hemit] at hwritten
  exact hwritten.linkless (hdirs.linkless hlinkless)

/-! ## Directories of a project -/

theorem isAbsolute_clean (p : Path) : p.clean.isAbsolute = p.isAbsolute := by
  have hnamed := Path.named_foldl_segmentsOf (Path.isRooted p.text) p.text
  rw [Path.isAbsolute, Path.clean, Path.cleanText_eq_render, Path.isRooted_render hnamed,
    Path.isAbsolute]

theorem pathOf_namesOf_inProject (h : (c.inProject p).isAbsolute = true) :
    pathOf (namesOf (c.inProject p)) = c.inProject p := by
  rw [Config.inProject, isAbsolute_clean] at h
  exact (namesOf_clean h).2.2

theorem isAbsolute_inProject (h : c.projectDir.isAbsolute = true) (p : Path) :
    (c.projectDir.join p).isAbsolute = true := by
  cases hp : p.isAbsolute with
  | true => rwa [Path.join, if_pos hp]
  | false => rw [Path.isAbsolute_join c.projectDir hp, h]

theorem exists_of_mem_outputDirs {directory : Path} (h : directory ∈ outputDirs c) :
    ∃ p, directory = c.inProject p := by
  rcases List.mem_append.1 h with h | h
  · obtain ⟨p, -, rfl⟩ := Option.map_eq_some_iff.1 (Option.mem_toList.1 h)
    exact ⟨p, rfl⟩
  · obtain ⟨p, -, rfl⟩ := Option.map_eq_some_iff.1 (Option.mem_toList.1 h)
    exact ⟨p, rfl⟩

/-! ## What is left alone -/

/-- The walk of the inputs comes to its end, and finds what was there before, with the
texts that it had. -/
structure WalkKept (c : Config) (before after : FileTree) : Prop where
  complete : (after.walk c.inputsDir).complete = true
  texts : ∀ found ∈ (after.walk c.inputsDir).files, ∃ text,
    before.text? found.path = some text ∧ after.text? found.path = some text

/-- The imports of the inputs lead to the contents that they led to. -/
def ImportsKept (c : Config) (before after : FileTree) : Prop :=
  ∀ p q, Reachable (resolverFor c) before c.inputsDir p →
    Imports (resolverFor c) before p q → after.content? q.real = before.content? q.real

theorem WalkKept.sameFootprint (h : WalkKept c made after) (himports : ImportsKept c made after)
    (htree : made.IsTree) (hgrows : Grows made after)
    (hends : (made.walk c.inputsDir).complete = true) :
    SameFootprint (resolverFor c) made after c.inputsDir := by
  have hwalk := hgrows.walk_eq htree hends h.complete fun found hfound => by
    obtain ⟨text, hbefore, -⟩ := h.texts found hfound
    exact Resolver.isFile_of_text? hbefore
  refine ⟨hwalk, fun p hp => ?_, himports⟩
  obtain ⟨found, hfound, rfl⟩ := List.mem_map.1 hp
  obtain ⟨text, hbefore, hafter⟩ := h.texts found (hwalk.symm ▸ hfound)
  exact hafter.trans hbefore.symm

/-! ## Outputs apart from the inputs -/

theorem prefix_of_append_eq_concat {here below place : Location} {name : String}
    (hbelow : below ≠ []) (h : here ++ below = place ++ [name]) : here <+: place := by
  rw [← List.dropLast_concat_getLast hbelow, ← List.append_assoc] at h
  exact ⟨below.dropLast, (List.append_inj' h rfl).1⟩

/-- Without links the outputs stand in the output directories, so they change nothing
below a directory that none of these is or is below. -/
theorem sameBelow_of_emit {here : Location} (htree : made.IsTree) (hlinkless : Linkless made)
    (hproject : c.projectDir.isAbsolute = true)
    (hslash : ∀ name ∈ (listed contracts).map Prod.fst, '/' ∉ name.toList)
    (hapart : ∀ directory ∈ outputDirs c, ¬ here <+: namesOf directory)
    (hemit : emit c contracts made = (after, .ok paths)) : SameBelow made after here := by
  obtain ⟨dirs, hdirs, hwrites, -⟩ := exists_of_emit hemit
  have hmade := makeAll_made htree (outputDirs c)
  rw [hdirs] at hmade
  have hwritten := writeAll_written dirs (outputs c contracts)
  rw [hwrites] at hwritten
  have hplain := hmade.linkless hlinkless
  have hlead : ∀ directory ∈ outputDirs c, pathOf (namesOf directory) = directory ∧
      ∀ front, front <+: namesOf directory → ∀ location,
        dirs.reach? (pathOf front) = some (.entry location) → location = front := by
    intro directory hdirectory
    obtain ⟨p, rfl⟩ := exists_of_mem_outputDirs hdirectory
    obtain ⟨hnamed, hup, hpath⟩ := namesOf_clean (isAbsolute_inProject hproject p)
    exact ⟨hpath, fun front hfront location => hplain.location_eq
      (fun s hs => hnamed s (hfront.subset hs)) fun hmem => hup (hfront.subset hmem)⟩
  have hfile : ∀ directory ∈ outputDirs c, ∀ name ∈ (listed contracts).map Prod.fst,
      ∀ extension, extension = ".json" ∨ extension = ".ts" → ∀ location,
        dirs.spot? (directory.join ⟨name ++ extension⟩) = some location →
          location = namesOf directory ++ [name ++ extension] := by
    intro directory hdirectory name hname extension hextension location hspot
    obtain ⟨hpath, hfront⟩ := hlead directory hdirectory
    obtain ⟨place, hreach, rfl⟩ := spot?_output hplain (hslash name hname) hextension hspot
    rw [← hpath] at hreach
    rw [hfront _ (List.prefix_refl _) place hreach]
  intro below hbelow
  rcases hwritten.entryAt (here ++ below) with hsame | ⟨-, f, hf, hspot, -⟩
  · rcases hmade.entryAt (here ++ below) with
      hsame' | ⟨-, -, directory, hdirectory, front, hfront, hreach⟩
    · exact hsame.trans hsame'
    · have hplace := (hlead directory hdirectory).2 front hfront _ hreach
      exact absurd (List.IsPrefix.trans ⟨below, hplace⟩ hfront) (hapart directory hdirectory)
  · obtain ⟨name, hname, directory, ⟨hdir, hpath⟩ | ⟨hdir, hpath⟩⟩ := isOutputPath_of_mem hf
    · have hdirectory : directory ∈ outputDirs c :=
        List.mem_append_left _ (Option.mem_toList.2 hdir)
      have hplace := hfile directory hdirectory name hname _ (.inl rfl) _ (hpath ▸ hspot)
      exact absurd (prefix_of_append_eq_concat hbelow hplace) (hapart directory hdirectory)
    · have hdirectory : directory ∈ outputDirs c :=
        List.mem_append_right _ (Option.mem_toList.2 hdir)
      have hplace := hfile directory hdirectory name hname _ (.inr rfl) _ (hpath ▸ hspot)
      exact absurd (prefix_of_append_eq_concat hbelow hplace) (hapart directory hdirectory)

/-- Without links the walk finds what it found, if no output directory is that of the
inputs or below it. -/
theorem walkKept_of_apart (htree : made.IsTree) (hlinkless : Linkless made)
    (hproject : c.projectDir.isAbsolute = true)
    (hslash : ∀ name ∈ (listed contracts).map Prod.fst, '/' ∉ name.toList)
    (hapart : ∀ directory ∈ outputDirs c, ¬ namesOf c.inputsDir <+: namesOf directory)
    (hresolve : (resolverFor c).resolve made c.inputsDir = .ok sources)
    (hemit : emit c contracts made = (after, .ok paths)) : WalkKept c made after := by
  obtain ⟨hends, hreadable⟩ := Resolver.walked_of_resolve hresolve
  obtain ⟨location, hlocate⟩ := exists_locate?_of_complete hends
  have hgrows := grows_of_emit htree hemit
  have hroot := reach?_of_target? (target?_of_locate? hlocate)
  have hlocation : location = namesOf c.inputsDir := by
    obtain ⟨hnamed, hup, hpath⟩ := namesOf_clean (isAbsolute_inProject hproject c.file.inputs)
    exact hlinkless.location_eq hnamed hup (hpath.symm ▸ hroot)
  rw [hlocation] at hlocate hroot
  have hsame := sameBelow_of_emit htree hlinkless hproject hslash hapart hemit
  have hwalk := hgrows.walk_eq_of_sameBelow htree hlocate hsame (hlinkless.linkFree _) hends
  refine ⟨by rw [hwalk, hends], fun found hfound => ?_⟩
  rw [hwalk] at hfound
  obtain ⟨-, text, htext⟩ := hreadable (placeOf found) (List.mem_map_of_mem hfound)
  obtain ⟨place, below, hplace, hne, rfl, content, executable, hfile⟩ :=
    exists_below_of_mem_walk htree hlinkless hfound
  rw [← Option.some.inj (hlocate.symm.trans hplace)] at hfile
  have hreach := reach?_behind htree hroot hfile (by simp)
  have hcontent := content?_eq_of_reach? hreach (hgrows.reach? hreach) (hsame below hne)
  refine ⟨text, htext, ?_⟩
  rw [← htext, placeOf, FileTree.text?, FileTree.text?, hcontent]

theorem eq_of_makeAll {directories : List Path}
    (hthere : ∀ p ∈ directories, pathOf (namesOf p) = p ∧
      ∃ location, t.reach? p = some (.entry location) ∧ t.isDirectoryAt location = true)
    (hmade : makeAll t directories = (made, .ok ())) : made = t := by
  induction directories generalizing t with
  | nil => exact (Prod.mk.inj hmade).1.symm
  | cons p rest ih =>
      obtain ⟨⟨hp, location, hreach, hdirectory⟩, hrest⟩ := List.forall_mem_cons.1 hthere
      rw [makeAll] at hmade
      rcases hrun : t.makeDirectories p with ⟨next, done⟩
      rw [hrun] at hmade
      cases done with
      | false => cases (Prod.mk.inj hmade).2
      | true =>
          obtain rfl := eq_of_makeDirectories hp hrun hreach hdirectory
          exact ih hrest hmade

/-- None of the files is what the path leads to. -/
def LeadsPast (t : FileTree) (files : List Path) (p : Path) : Prop :=
  ∀ file ∈ files, ∀ location, t.locate? p = some location → t.locate? file ≠ some location

theorem entryAt_eq_of_leadsPast (h : Written files dirs after)
    (hp : LeadsPast after (files.map (·.path)) p) (hlocate : after.locate? p = some location) :
    after.entryAt location = dirs.entryAt location := by
  rcases h.entryAt location with hsame | ⟨-, f, hf, hspot, executable, hfile⟩
  · exact hsame
  · rw [← h.spot?] at hspot
    exact absurd (locate?_of_spot? hspot hfile)
      (hp f.path (List.mem_map_of_mem hf) location hlocate)

/-- What leads nowhere after a build led nowhere before it. -/
theorem content?_eq_of_locate?_none (hgrows : Grows made after) (h : after.locate? p = none) :
    after.content? p = made.content? p := by
  have hbefore : made.locate? p = none := by
    cases hbefore : made.locate? p with
    | none => rfl
    | some location =>
        rw [hgrows.locate? hbefore] at h
        cases h
  rw [FileTree.content?, FileTree.content?, FileTree.entry?, FileTree.entry?, h, hbefore]
  rfl

/-- Where the output directories were there before, a path leads to the content that it
led to, unless an output has been put where it leads. -/
theorem content?_eq_of_emit (htree : made.IsTree)
    (hthere : ∀ directory ∈ outputDirs c, made.isDirectory directory = true)
    (hemit : emit c contracts made = (after, .ok paths)) (hp : LeadsPast after paths p) :
    after.content? p = made.content? p := by
  have hgrows := grows_of_emit htree hemit
  obtain ⟨dirs, hdirs, hwrites, rfl⟩ := exists_of_emit hemit
  obtain rfl : dirs = made := by
    refine eq_of_makeAll (fun directory hdirectory => ?_) hdirs
    obtain ⟨location, hlocate, hentry⟩ :=
      Option.bind_eq_some_iff.1 (of_decide_eq_true (hthere directory hdirectory))
    have hreach := reach?_of_target? (target?_of_locate? hlocate)
    obtain ⟨q, rfl⟩ := exists_of_mem_outputDirs hdirectory
    refine ⟨pathOf_namesOf_inProject ?_, location, hreach, isDirectoryAt_iff.2 hentry⟩
    exact isAbsolute_of_reach? hreach
  have hwritten := writeAll_written dirs (outputs c contracts)
  rw [hwrites] at hwritten
  cases hlocate : after.locate? p with
  | none => exact content?_eq_of_locate?_none hgrows hlocate
  | some location =>
      have hsame := entryAt_eq_of_leadsPast hwritten hp hlocate
      have hreach := reach?_of_target? (target?_of_locate? hlocate)
      obtain ⟨entry, hentry⟩ := exists_entryAt_of_reach? (hgrows.isTree htree) hreach
      have hspot := (hwritten.spot? p).symm.trans (spot?_of_locate? hlocate)
      have hbefore := locate?_of_spot? hspot (hsame.symm.trans hentry)
      exact content?_eq_of_reach? (reach?_of_target? (target?_of_locate? hbefore)) hreach hsame

/-- Without links a path in normal form leads to the content that it led to, unless an
output has been put there, even if the build has made directories on its way. -/
theorem content?_clean_eq_of_emit (htree : made.IsTree) (hlinkless : Linkless made)
    (habsolute : p.isAbsolute = true) (hemit : emit c contracts made = (after, .ok paths))
    (hp : LeadsPast after paths p.clean) : after.content? p.clean = made.content? p.clean := by
  have hgrows := grows_of_emit htree hemit
  have hplain := linkless_of_emit htree hlinkless hemit
  obtain ⟨dirs, hdirs, hwrites, rfl⟩ := exists_of_emit hemit
  have hmade := makeAll_made htree (outputDirs c)
  rw [hdirs] at hmade
  have hwritten := writeAll_written dirs (outputs c contracts)
  rw [hwrites] at hwritten
  cases hlocate : after.locate? p.clean with
  | none => exact content?_eq_of_locate?_none hgrows hlocate
  | some location =>
      have hsame := entryAt_eq_of_leadsPast hwritten hp hlocate
      have hreach := reach?_of_target? (target?_of_locate? hlocate)
      obtain ⟨entry, hentry⟩ := exists_entryAt_of_reach? (hgrows.isTree htree) hreach
      obtain ⟨hnamed, hup, hpath⟩ := namesOf_clean habsolute
      obtain rfl := hplain.location_eq hnamed hup (hpath.symm ▸ hreach)
      rw [hsame] at hentry
      rcases hmade.entryAt (namesOf p.clean) with hkept | ⟨hnone, hdirectory, -⟩
      · rw [hkept] at hentry
        have hlink : ∀ target, entry ≠ .link target := by
          rintro target rfl
          cases hnames : namesOf p.clean with
          | nil =>
              rw [hnames] at hentry
              cases hentry
          | cons name names => exact hlinkless.entryAt_ne_link (by simp [hnames]) target hentry
        have hbefore := reach?_pathOf_of_entryAt htree hentry hlink
        rw [hpath] at hbefore
        exact content?_eq_of_reach? hbefore hreach (hsame.trans hkept)
      · -- a directory that is new holds no text, and nothing led there before
        have hbefore : made.content? p.clean = none := by
          refine Option.eq_none_iff_forall_ne_some.2 fun content hcontent => ?_
          obtain ⟨entry, hfound, -⟩ := Option.bind_eq_some_iff.1 hcontent
          obtain ⟨location, hlocate', hat⟩ := Option.bind_eq_some_iff.1 hfound
          rw [Option.some.inj ((hgrows.locate? hlocate').symm.trans hlocate), hnone] at hat
          cases hat
        rw [hbefore, FileTree.content?, FileTree.entry?, hlocate, Option.bind_some, hsame,
          hdirectory]
        rfl

/-! ## The second build -/

/-- What a build means for the one after it. Its sources were resolved in `made`, and
`after` is the tree with its outputs. -/
structure Repeats (c : Config) (backend : Backend) (t made after : FileTree) (b : Build) :
    Prop where
  /-- If the inputs are left alone, the same sources are resolved and the compiler is
  asked the same, unless resolving is cut short. -/
  stable : WalkKept c made after → ImportsKept c made after →
    Ends ((resolverFor c).resolve after c.inputsDir) →
      Prepares c after after b.sources ∧
        (build c backend false after).request = (build c backend false t).request
  /-- Where it may go as deep as the first resolution did, it is not: nothing has to be made
  for it, and at this depth and every greater one it has the sources that the compiler was
  asked about. -/
  resolves : WalkKept c made after → ImportsKept c made after →
    after.makeDirectories c.inputsDir = (after, true) ∧
      (∀ depth, (resolverFor c).depthFor made c.inputsDir ≤ depth →
        (resolverFor c).resolveWithin after depth c.inputsDir = .ok b.sources) ∧
      (build c backend false t).request = some (requestFor c b.sources)
  /-- Without links and backslashes it is not cut short, if no file is led back to itself
  further up. -/
  ends : WalkKept c made after → ImportsKept c made after → Linkless t →
    NoBackslashes (resolverFor c) made c.inputsDir →
      NeverRaises (resolverFor c) made c.inputsDir →
        Ends ((resolverFor c).resolve after c.inputsDir)
  /-- Without links, and slashes in names, the walk is left alone if no output directory
  is that of the inputs or below it. -/
  walks : Linkless t → c.projectDir.isAbsolute = true →
    (∀ name ∈ b.contractNames, '/' ∉ name.toList) →
      (∀ directory ∈ outputDirs c, ¬ namesOf c.inputsDir <+: namesOf directory) →
        WalkKept c made after
  /-- Where the output directories were there before, what a path leads to is left alone
  unless an output is put there. -/
  leads : (∀ directory ∈ outputDirs c, made.isDirectory directory = true) →
    ∀ p, LeadsPast after b.emitted p → after.content? p = made.content? p
  /-- Without links the same goes for paths in normal form, as those of relative imports
  are, wherever the outputs are put. -/
  keeps : Linkless t → ∀ p : Path, p.isAbsolute = true → LeadsPast after b.emitted p.clean →
    after.content? p.clean = made.content? p.clean
  /-- A file below the directory of the inputs that is no source yet becomes one. -/
  enters : ∀ location below, after.locate? c.inputsDir = some location → below ≠ [] →
    IsFileAt after (location ++ below) → b.sources.contains (virtualOf below) = false →
      (build c backend false after).request ≠ (build c backend false t).request

/-- The directory of the inputs need not be made again. -/
theorem Prepares.makes_again (h : Prepares c t made sources) (htree : t.IsTree)
    (hgrows : Grows made after) : after.makeDirectories c.inputsDir = (after, true) := by
  obtain ⟨hends, -⟩ := Resolver.walked_of_resolve h.resolves
  obtain ⟨location, hlocate⟩ := exists_locate?_of_complete hends
  have habsolute := isAbsolute_of_reach? (reach?_of_target? (target?_of_locate? hlocate))
  exact makeDirectories_again htree (pathOf_namesOf_inProject habsolute) h.makes hgrows

/-- The files below the directory of the inputs are among the sources. -/
theorem Prepares.contains_virtualOf (h : Prepares c t made sources) (htree : made.IsTree)
    {below : List String} (hlocate : made.locate? c.inputsDir = some location) (hne : below ≠ [])
    (hfile : IsFileAt made (location ++ below)) : sources.contains (virtualOf below) = true := by
  obtain ⟨hcomplete, hwalked⟩ := Resolver.walked_of_resolve h.resolves
  have hfound := mem_walk_of_complete htree hcomplete hlocate hne hfile
  exact (hwalked _ (List.mem_map_of_mem hfound)).1

/-- A build that has come to its end repeats itself, unless its outputs have got among
its inputs. -/
theorem rebuild_stable (htree : t.IsTree) (hbuild : (build c backend false t).outcome = .ok b) :
    ∃ made, Prepares c t made b.sources ∧
      Repeats c backend t made (build c backend false t).tree b := by
  obtain ⟨made, hprepares, hrequest, hemit⟩ := exists_of_build hbuild
  obtain ⟨hmadeAlong, hmadeGrows, -⟩ := makeDirectories_changes htree c.inputsDir
  rw [hprepares.makes] at hmadeAlong hmadeGrows
  have hmade := hmadeAlong.isTree
  have hgrows := grows_of_emit hmade hemit
  obtain ⟨hends, -⟩ := Resolver.walked_of_resolve hprepares.resolves
  have hagain := hprepares.makes_again htree hgrows
  have hfootprint : WalkKept c made (build c backend false t).tree →
      ImportsKept c made (build c backend false t).tree →
        SameFootprint (resolverFor c) made (build c backend false t).tree c.inputsDir :=
    fun hwalk himports => hwalk.sameFootprint himports hmade hgrows hends
  refine ⟨made, hprepares, ?_⟩
  constructor
  case stable =>
    intro hwalk himports hcut
    have hsame := (hfootprint hwalk himports).resolve_eq
      (hprepares.resolves ▸ Resolver.ends_ok b.sources) hcut
    have hnext : Prepares c (build c backend false t).tree (build c backend false t).tree
        b.sources :=
      ⟨hagain, hsame.trans hprepares.resolves⟩
    exact ⟨hnext, (request_eq_some_iff.2 ⟨_, _, hnext, rfl⟩).trans hrequest.symm⟩
  case resolves =>
    intro hwalk himports
    have hsame := hfootprint hwalk himports
    exact ⟨hagain, fun depth hdepth => hsame.resolveWithin_eq_ok hprepares.resolves hdepth,
      hrequest⟩
  case ends =>
    intro hwalk himports hlinkless hplain hnever
    have hsame := hfootprint hwalk himports
    have hlinkless' := linkless_of_emit hmade (hmadeAlong.linkless hlinkless) hemit
    exact Resolver.ends_of_neverRaises hlinkless' (hsame.noBackslashes hplain)
      (hsame.neverRaises hnever) (Nat.le_refl _)
  case walks =>
    intro hlinkless hproject hslash hapart
    rw [contractNames_eq_map] at hslash
    exact walkKept_of_apart hmade (hmadeAlong.linkless hlinkless) hproject hslash hapart
      hprepares.resolves hemit
  case leads => exact fun hthere p => content?_eq_of_emit hmade hthere hemit
  case keeps =>
    exact fun hlinkless p habsolute =>
      content?_clean_eq_of_emit hmade (hmadeAlong.linkless hlinkless) habsolute hemit
  case enters =>
    intro location below hlocate hne hfile hnew hsame
    obtain ⟨made', sources, hnext, heq⟩ := request_eq_some_iff.1 (hsame.trans hrequest)
    obtain rfl : b.sources = sources := congrArg Compiler.Request.sources heq
    obtain rfl := (Prod.mk.inj (hagain.symm.trans hnext.makes)).1
    have hcontains := hnext.contains_virtualOf (hgrows.isTree hmade) hlocate hne hfile
    rw [hnew] at hcontains
    cases hcontains

/-! ## A project that is built twice -/

/-- A project with two sources, one of which imports the other. -/
def sourced : FileTree :=
  ⟨[(["p"], .directory),
    (["p", "contracts"], .directory),
    (["p", "contracts", "A.sol"], .file (.text "import './B.sol';\ncontract Token {}\n") false),
    (["p", "contracts", "B.sol"], .file (.text "contract Base {}\n") false)]⟩

def sourcedPlaces : List Place :=
  [⟨⟨"/p/contracts/A.sol"⟩, "A.sol"⟩, ⟨⟨"/p/contracts/B.sol"⟩, "B.sol"⟩]

def sourcedRun : BuildRun := build projectConfig (answer "Token") false sourced

theorem isTree_sourced : sourced.IsTree := by
  constructor <;> decide +kernel

theorem linkless_sourced : Linkless sourced := by
  simp [Linkless, sourced]

theorem isClosed_sourced :
    Resolver.IsClosed (resolverFor projectConfig) sourced projectConfig.inputsDir
      sourcedPlaces := by
  decide +kernel

theorem neverRaises_sourced :
    NoBackslashes (resolverFor projectConfig) sourced projectConfig.inputsDir ∧
      NeverRaises (resolverFor projectConfig) sourced projectConfig.inputsDir := by
  have hplain : NoBackslashes (resolverFor projectConfig) sourced projectConfig.inputsDir :=
    isClosed_sourced.forall_relative (by decide +kernel)
  have hclimbs : Resolver.NeverClimbs (resolverFor projectConfig) sourced projectConfig.inputsDir :=
    isClosed_sourced.forall_relative (by decide +kernel)
  exact ⟨hplain, fun p q hp =>
    Resolver.not_raises_of_neverClimbs linkless_sourced hplain hclimbs hp⟩

/-- The outputs of `sourced` stand beside its inputs, and the second build asks for what
the first one asked for. -/
theorem sourced_rebuilt :
    sourced.IsTree ∧ ∃ b, sourcedRun.outcome = .ok b ∧
      b.emitted = [⟨"/p/out/Token.json"⟩] ∧
      sourcedRun.tree.isFile ⟨"/p/out/Token.json"⟩ = true ∧
      Prepares projectConfig sourcedRun.tree sourcedRun.tree b.sources ∧
      (build projectConfig (answer "Token") false sourcedRun.tree).request =
        sourcedRun.request ∧
      ∀ depth, (resolverFor projectConfig).depthFor sourced projectConfig.inputsDir ≤ depth →
        (resolverFor projectConfig).resolveWithin sourcedRun.tree depth projectConfig.inputsDir =
          .ok b.sources := by
  have hrun : sourcedRun.outcome.toOption.map (fun b => (b.contractNames, b.emitted)) =
      some (["Token"], [⟨"/p/out/Token.json"⟩]) := by
    decide +kernel
  obtain ⟨b, hb, hnames⟩ := Option.map_eq_some_iff.1 hrun
  obtain ⟨hnames, hemitted⟩ := Prod.mk.inj hnames
  have hbuild := Resolver.ok_of_toOption hb
  obtain ⟨made, hprepares, hrepeats⟩ := rebuild_stable isTree_sourced hbuild
  have hinputs : sourced.reach? projectConfig.inputsDir = some (.entry ["p", "contracts"]) := by
    decide +kernel
  obtain rfl : made = sourced :=
    eq_of_makeDirectories (pathOf_namesOf_inProject (by decide +kernel)) hprepares.makes hinputs
      (by decide +kernel)
  have hwalk : WalkKept projectConfig sourced sourcedRun.tree := by
    refine hrepeats.walks linkless_sourced (by decide +kernel) ?_ (by decide +kernel)
    rw [hnames]
    decide
  have himports : ImportsKept projectConfig sourced sourcedRun.tree := by
    have hpast : ∀ q ∈ sourcedPlaces, q.real.clean = q.real ∧ q.real.isAbsolute = true ∧
        sourcedRun.tree.locate? ⟨"/p/out/Token.json"⟩ ≠ sourcedRun.tree.locate? q.real := by
      decide +kernel
    intro p q hp himports
    obtain ⟨hclean, habsolute, hne⟩ :=
      hpast q (isClosed_sourced.mem_of_reachable (.imported hp himports))
    rw [← hclean]
    refine hrepeats.keeps linkless_sourced q.real habsolute fun file hfile location hlocate => ?_
    rw [hemitted, List.mem_singleton] at hfile
    rw [hfile, ← hlocate, hclean]
    exact hne
  obtain ⟨hplain, hnever⟩ := neverRaises_sourced
  obtain ⟨hnext, hrequest⟩ := hrepeats.stable hwalk himports
    (hrepeats.ends hwalk himports linkless_sourced hplain hnever)
  obtain ⟨-, hdeeper, -⟩ := hrepeats.resolves hwalk himports
  exact ⟨isTree_sourced, b, hbuild, hemitted, by decide +kernel, hnext, hrequest, hdeeper⟩

/-- The outputs of this project go below its inputs. -/
def nestedConfig : Config :=
  ⟨⟨"/p/steelshards.json"⟩,
    ⟨ConfigFile.defaultInputs, ⟨some ⟨"contracts/out"⟩, none⟩, .default, [], .default⟩⟩

def nestedRun : BuildRun := build nestedConfig (answer "Token") false sourced

/-- A project with a source that imports the output for it. -/
def feeding : FileTree :=
  ⟨[(["p"], .directory),
    (["p", "contracts"], .directory),
    (["p", "contracts", "A.sol"], .file (.text "import '../out/Token.json';\n") false),
    (["p", "out"], .directory),
    (["p", "out", "Token.json"], .file (.text "{}") false)]⟩

def feedingRun : BuildRun := build projectConfig (answer "Token") false feeding

theorem isTree_feeding : feeding.IsTree := by
  constructor <;> decide +kernel

/-- An output below the inputs is a source of the next build, and one that is imported
comes back with the text that has been written. -/
theorem outputs_become_inputs :
    sourced.IsTree ∧ nestedRun.outcome.isOk = true ∧
      nestedRun.request.map (·.sources.keys) = some ["A.sol", "B.sol"] ∧
      (build nestedConfig (answer "Token") false nestedRun.tree).request.map (·.sources.keys) =
        some ["A.sol", "B.sol", "out/Token.json"] ∧
    feeding.IsTree ∧ feedingRun.outcome.isOk = true ∧
      feedingRun.request.bind (·.sources.get? "../out/Token.json") = some "{}" ∧
      (build projectConfig (answer "Token") false feedingRun.tree).request.bind
        (·.sources.get? "../out/Token.json") =
          some (Compiler.Artifact.write ⟨[], .default, .empty⟩).indented := by
  refine ⟨isTree_sourced, ?_, ?_, ?_, isTree_feeding, ?_⟩
  · decide +kernel
  · decide +kernel
  · decide +kernel
  · decide +kernel

end SolidityBuild.Project
