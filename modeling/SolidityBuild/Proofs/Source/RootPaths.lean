import SolidityBuild.Proofs.Source.Origin
import SolidityBuild.Proofs.Source.Owner

/-!
Files below the root by their paths from there. The walk keeps each file under
that path. An import of one gets it as its virtual path only if the specifier
does the same to the virtual directory as to the real one. On ways from the root
it does until names above the root are taken back: a specifier that leaves the
root and comes back names the file once more, under another key.
-/

namespace SolidityBuild.Resolver

open SolidityBuild.Path FileTree

variable {r : Resolver} {t : FileTree} {root : Path} {p q : Place} {i : Import} {b : Base}
  {count : Nat} {names below : List String}

/-- A file stands below the root, under these names. -/
structure Below (t : FileTree) (root : Path) (q : Place) (below : List String) : Prop where
  isFile : t.isFile q.real = true
  ne_nil : below ≠ []
  located : ∃ location, t.locate? root = some location ∧
    t.locate? q.real = some (location ++ below)

/-! ## Names below the root -/

theorem named_stackOf (path : Path) : Named (stackOf path) :=
  named_foldl_segmentsOf true path.text

theorem stackOf_of_locate? (hlinkless : Linkless t) {path : Path} {location : Location}
    (h : t.locate? path = some location) : stackOf path = location.reverse := by
  rw [location_of_locate? hlinkless h, List.reverse_reverse]
  rfl

theorem Below.stack (h : Below t root q below) (hlinkless : Linkless t) :
    stackOf q.real = below.reverse ++ stackOf root := by
  obtain ⟨location, hroot, hlocate⟩ := h.located
  rw [stackOf_of_locate? hlinkless hroot, stackOf_of_locate? hlinkless hlocate,
    List.reverse_append]

theorem Below.named (h : Below t root q below) (hlinkless : Linkless t) : Named below := by
  intro s hs
  apply named_stackOf q.real
  rw [h.stack hlinkless]
  exact List.mem_append_left _ (List.mem_reverse.2 hs)

theorem Below.segments (h : Below t root q below) (hlinkless : Linkless t) :
    segmentsOf (virtualOf below) = below :=
  segmentsOf_joinSegments h.ne_nil fun s hs => (h.named hlinkless s hs).2.2

theorem Below.isFileAt (h : Below t root q below) :
    ∃ location, t.locate? root = some location ∧ IsFileAt t (location ++ below) := by
  obtain ⟨location, hroot, hlocate⟩ := h.located
  obtain ⟨content, hcontent⟩ := Option.isSome_iff_exists.1 h.isFile
  obtain ⟨entry, hentry, hfile⟩ := Option.bind_eq_some_iff.1 hcontent
  unfold FileTree.entry? at hentry
  rw [hlocate, Option.bind_some] at hentry
  cases entry with
  | file content executable => exact ⟨location, hroot, content, executable, hentry⟩
  | directory => cases hfile
  | link target => cases hfile

/-- A walked file is kept under its path from the root. -/
theorem virtual_of_walked (htree : t.IsTree) (hlinkless : Linkless t)
    (hp : p ∈ walkedPlaces t root) (hbelow : Below t root p below) :
    p.virtual = virtualOf below := by
  obtain ⟨location, directories, name, -, rfl, -, hnames⟩ :=
    exists_below_of_walked htree hlinkless hp
  have hstack := hbelow.stack hlinkless
  rw [stackOf_behind hnames, List.append_cancel_right_eq, List.reverse_inj] at hstack
  rw [hstack]

/-! ## The virtual paths of imports -/

/-- A virtual path in normal form is the path from the root exactly if it leads to
the file from there. -/
theorem virtual_eq_virtualOf_iff (hlinkless : Linkless t) (hbelow : Below t root q below)
    {rooted : Bool} {stack : List String} (hvirtual : q.virtual = render rooted stack)
    (hnamed : Named stack) :
    q.virtual = virtualOf below ↔
      rooted = false ∧ stack ++ stackOf root = stackOf q.real := by
  rw [hbelow.stack hlinkless, List.append_cancel_right_eq]
  constructor
  · intro heq
    have hsegments := hbelow.segments hlinkless
    have hbelowNamed := hbelow.named hlinkless
    rw [← heq, hvirtual] at hsegments
    rw [← hsegments] at hbelowNamed
    cases rooted with
    | true =>
      by_cases hnil : stack = []
      · rw [hnil] at hbelowNamed
        exact absurd rfl (hbelowNamed "" (by decide)).1
      · rw [segmentsOf_render_rooted hnamed hnil] at hbelowNamed
        exact absurd rfl (hbelowNamed "" List.mem_cons_self).1
    | false =>
      by_cases hnil : stack = []
      · rw [hnil] at hbelowNamed
        exact absurd rfl (hbelowNamed "." (by decide)).2.1
      · rw [segmentsOf_render_unrooted hnamed hnil] at hsegments
        rw [← hsegments, List.reverse_reverse]
        exact ⟨rfl, rfl⟩
  · rintro ⟨rfl, rfl⟩
    have hsegments := segmentsOf_render_unrooted hnamed (by simpa using hbelow.ne_nil)
    rw [← hvirtual, List.reverse_reverse] at hsegments
    rw [← joinSegments_segmentsOf q.virtual, hsegments]
    rfl

theorem stackOf_targetOf (hlinkless : Linkless t) (hfile : t.isFile p.real = true)
    (hkind : i.kind = .relative) (htarget : t.isFile (r.targetOf p i).real = true) :
    stackOf (r.targetOf p i).real =
      (segmentsOf i.specifier).foldl (cleanStep true) (realStack p) := by
  obtain ⟨_, hp⟩ := exists_standsIn hlinkless hfile
  obtain ⟨_, hq⟩ := exists_standsIn hlinkless htarget
  rw [foldl_cleanStep_realStack, realStack_targetOf hp hq hkind]
  exact hq.segments

/-- A relative import of a file below the root gets its path from there exactly if
the specifier does the same to the virtual directory as to the real one. -/
theorem relative_eq_virtualOf_iff (hlinkless : Linkless t) (hfile : t.isFile p.real = true)
    (hkind : i.kind = .relative) (hbelow : Below t root (r.targetOf p i) below) :
    (r.targetOf p i).virtual = virtualOf below ↔
      virtualRooted p = false ∧
        (segmentsOf (slashed i.specifier)).foldl (cleanStep false) (virtualStack p) ++
          stackOf root = (segmentsOf i.specifier).foldl (cleanStep true) (realStack p) := by
  have hunslashed := unslashed_foldl (virtualRooted p) (unslashed_virtualStack p)
    (backslash_not_mem_slashed i.specifier)
  rw [virtual_eq_virtualOf_iff hlinkless hbelow (targetOf_virtual_slashed hkind) hunslashed.1,
    stackOf_targetOf hlinkless hfile hkind hbelow.isFile]
  refine and_congr_right fun hrooted => ?_
  rw [hrooted]

theorem module_eq_virtualOf_iff (hlinkless : Linkless t) (hkind : i.kind = .module)
    (hbelow : Below t root (r.targetOf p i) below) :
    (r.targetOf p i).virtual = virtualOf below ↔
      segmentsOf r.modulePrefix ++ segmentsOf i.specifier = below := by
  rw [← segmentsOf_targetOf_module (p := p) hkind]
  constructor
  · intro heq
    rw [heq, hbelow.segments hlinkless]
  · intro hsegments
    rw [← joinSegments_segmentsOf (r.targetOf p i).virtual, hsegments]
    rfl

/-! ## Along ways -/

/-- How many names a specifier takes back. -/
def taken (i : Import) : Nat := (net (segmentsOf i.specifier)).1

/-- On a way, only how far it and the specifier go back matters. -/
theorem ledFrom_eq_virtualOf_iff (hlinkless : Linkless t) (hfile : t.isFile p.real = true)
    (hkind : i.kind = .relative) (hspecifier : '\\' ∉ i.specifier.toList)
    (hbelow : Below t root (r.targetOf p i) below) (hled : LedFrom b p count names) :
    (r.targetOf p i).virtual = virtualOf below ↔
      pops false (count + (taken i - names.length)) b.virtual ++ stackOf root =
        b.real.drop (count + (taken i - names.length)) := by
  rw [relative_eq_virtualOf_iff hlinkless hfile hkind hbelow, slashed_eq_self hspecifier,
    foldl_cleanStep_realStack, foldl_cleanStep_eq, hled.virtual, hled.real,
    pops_append hled.not_up, ← pops_add, List.drop_append, List.drop_drop, ← taken,
    List.append_assoc, List.append_assoc, List.append_cancel_left_eq,
    List.append_cancel_left_eq]
  exact and_iff_right hled.unrooted

/-- On a way from the root, no names above the root may be taken back. -/
theorem ledFrom_walkBase_eq_virtualOf_iff (hlinkless : Linkless t)
    (hfile : t.isFile p.real = true) (hkind : i.kind = .relative)
    (hspecifier : '\\' ∉ i.specifier.toList) (hbelow : Below t root (r.targetOf p i) below)
    (hled : LedFrom (walkBase root) p count names) :
    (r.targetOf p i).virtual = virtualOf below ↔ count = 0 ∧ taken i ≤ names.length := by
  rw [ledFrom_eq_virtualOf_iff hlinkless hfile hkind hspecifier hbelow hled]
  constructor
  · intro heq
    have hlength := congrArg List.length heq
    rw [walkBase, pops_names (by simp)] at hlength
    simp only [List.length_append, List.length_drop, List.length_replicate, List.length_nil]
      at hlength
    omega
  · rintro ⟨rfl, htaken⟩
    rw [Nat.sub_eq_zero_of_le htaken]
    rfl

/-- When a relative import of a file below the root gets its path from there. -/
structure RelativeKey (r : Resolver) (root : Path) (p : Place) (i : Import)
    (below : List String) : Prop where
  /-- The specifier does the same to the virtual directory as to the real one. -/
  both : (r.targetOf p i).virtual = virtualOf below ↔
    virtualRooted p = false ∧
      (segmentsOf (slashed i.specifier)).foldl (cleanStep false) (virtualStack p) ++
        stackOf root = (segmentsOf i.specifier).foldl (cleanStep true) (realStack p)
  onWay : '\\' ∉ i.specifier.toList → ∀ b count names, LedFrom b p count names →
    ((r.targetOf p i).virtual = virtualOf below ↔
      pops false (count + (taken i - names.length)) b.virtual ++ stackOf root =
        b.real.drop (count + (taken i - names.length)))
  /-- No names above the root are taken back. -/
  fromRoot : '\\' ∉ i.specifier.toList → ∀ count names, LedFrom (walkBase root) p count names →
    ((r.targetOf p i).virtual = virtualOf below ↔ count = 0 ∧ taken i ≤ names.length)

theorem relativeKey_of_below (hlinkless : Linkless t) (hfile : t.isFile p.real = true)
    (hkind : i.kind = .relative) (hbelow : Below t root (r.targetOf p i) below) :
    RelativeKey r root p i below where
  both := relative_eq_virtualOf_iff hlinkless hfile hkind hbelow
  onWay hspecifier _ _ _ hled :=
    ledFrom_eq_virtualOf_iff hlinkless hfile hkind hspecifier hbelow hled
  fromRoot hspecifier _ _ hled :=
    ledFrom_walkBase_eq_virtualOf_iff hlinkless hfile hkind hspecifier hbelow hled

/-! ## Keys -/

/-- Every import of a file below the root gets its path from there. -/
def KeyedBelow (r : Resolver) (t : FileTree) (root : Path) : Prop :=
  ∀ p q below, Reachable r t root p → Imports r t p q → Below t root q below →
    q.virtual = virtualOf below

theorem virtual_of_reachable (htree : t.IsTree) (hlinkless : Linkless t)
    (hkeyed : KeyedBelow r t root) (hq : Reachable r t root q) (hbelow : Below t root q below) :
    q.virtual = virtualOf below := by
  cases hq with
  | walked hwalked => exact virtual_of_walked htree hlinkless hwalked hbelow
  | imported hp himports => exact hkeyed _ _ below hp himports hbelow

variable {entered : List Place} {sources : SourceSet}

/-- Every file below the root has a key, its path from there. -/
theorem contains_virtualOf (htree : t.IsTree)
    (hresolves : Resolves r t root entered (.ok sources)) {location : Location}
    (hroot : t.locate? root = some location) (hne : below ≠ [])
    (hfile : IsFileAt t (location ++ below)) : sources.contains (virtualOf below) = true := by
  obtain ⟨hwalked, hsettled⟩ := settled_of_resolves hresolves
  cases hresolves with
  | succeeds _ _ hcomplete =>
    have hfound := mem_walk_of_complete htree hcomplete hroot hne hfile
    have hplace := List.mem_map_of_mem (f := placeOf) hfound
    exact (hsettled _ (hwalked hplace)).1

/-- What a resolved set has of the files below the root. -/
structure HasBelow (r : Resolver) (t : FileTree) (root : Path) (entered : List Place)
    (sources : SourceSet) : Prop where
  walked : ∀ location below, t.locate? root = some location → below ≠ [] →
    IsFileAt t (location ++ below) → sources.contains (virtualOf below) = true
  /-- A file that is imported under another virtual path has two keys. -/
  imported : ∀ p ∈ entered, ∀ q, Imports r t p q → t.isFile q.real = true →
    sources.contains q.virtual = true ∧
      ∀ below, Below t root q below → sources.contains (virtualOf below) = true
  once : KeyedBelow r t root → ∀ key content, sources.get? key = some content →
    ∃ owner ∈ entered, owner.virtual = key ∧ Holds r t sources owner ∧
      ∀ below, Below t root owner below → key = virtualOf below

theorem hasBelow_of_resolves (htree : t.IsTree) (hlinkless : Linkless t)
    (hresolves : Resolves r t root entered (.ok sources)) : HasBelow r t root entered sources := by
  constructor
  case walked =>
    intro location below hroot hne hfile
    exact contains_virtualOf htree hresolves hroot hne hfile
  case imported =>
    intro p hp q himports hfile
    refine ⟨contains_of_imports hresolves hp himports hfile, ?_⟩
    intro below hbelow
    obtain ⟨location, hroot, hfileAt⟩ := hbelow.isFileAt
    exact contains_virtualOf htree hresolves hroot hbelow.ne_nil hfileAt
  case once =>
    intro hkeyed key content hget
    obtain ⟨owner, howner, rfl, hholds⟩ :=
      exists_owner hresolves ((TextMap.contains_iff ..).2 ⟨content, hget⟩)
    have hreachable := reachable_of_mem_entered hresolves howner
    refine ⟨owner, howner, rfl, hholds, ?_⟩
    intro below hbelow
    exact virtual_of_reachable htree hlinkless hkeyed hreachable hbelow

/-- In a tree without links a resolved set has every file below the root under its
path from there, and has it under no other key if imports get these paths as well.
A relative import does exactly if its specifier does the same to the virtual
directory as to the real one, which on a way from the root means that no names above
it are taken back. An import of a module does exactly if the path is the prefix and
the specifier. -/
theorem keyed_below_iff (r : Resolver) (root : Path) (htree : t.IsTree)
    (hlinkless : Linkless t) :
    (∀ depth sources, r.resolveWithin t depth root = .ok sources →
      ∃ entered, Resolves r t root entered (.ok sources) ∧
        HasBelow r t root entered sources) ∧
    (∀ p i below, t.isFile p.real = true → i.kind = .relative →
      Below t root (r.targetOf p i) below → RelativeKey r root p i below) ∧
    (∀ p i below, i.kind = .module → Below t root (r.targetOf p i) below →
      ((r.targetOf p i).virtual = virtualOf below ↔
        segmentsOf r.modulePrefix ++ segmentsOf i.specifier = below)) ∧
    (Slashed r t root → Prefixed r → ∀ p, Reachable r t root p → t.isFile p.real = true →
      (∃ b ∈ origins r root, ∃ count names, LedFrom b p count names) ∧
        (p ∈ walkedPlaces t root → ∃ names, LedFrom (walkBase root) p 0 names)) := by
  refine ⟨?_, ?_, ?_, ?_⟩
  · intro depth sources hresolve
    obtain ⟨entered, hresolves⟩ := resolves_of_resolveWithin hresolve (ends_ok sources)
    exact ⟨entered, hresolves, hasBelow_of_resolves htree hlinkless hresolves⟩
  · intro p i below hfile hkind hbelow
    exact relativeKey_of_below hlinkless hfile hkind hbelow
  · intro p i below hkind hbelow
    exact module_eq_virtualOf_iff hlinkless hkind hbelow
  · intro hslashed hprefixed p hp hfile
    refine ⟨exists_ledFrom htree hlinkless hslashed hprefixed hp hfile, ?_⟩
    intro hwalked
    obtain ⟨names, -, hled, -⟩ :=
      ledFrom_of_walked htree hlinkless hwalked hfile (hslashed.places p hp hfile)
    exact ⟨names, hled⟩

/-- Finitely many places show that imports get their paths from the root. -/
theorem IsClosed.keyedBelow {places : List Place} (h : IsClosed r t root places)
    (hlinkless : Linkless t)
    (hplaces : ∀ q ∈ places, t.isFile q.real = true →
      stackOf q.real = (segmentsOf q.virtual).reverse ++ stackOf root) :
    KeyedBelow r t root := by
  intro p q below hp himports hbelow
  have hstack := hplaces q (h.mem_of_reachable (.imported hp himports)) hbelow.isFile
  rw [hbelow.stack hlinkless, List.append_cancel_right_eq, List.reverse_inj] at hstack
  rw [hstack, virtualOf, joinSegments_segmentsOf]

theorem keyedBelow_circle : KeyedBelow (ofModuleDir ⟨"/m"⟩) circle ⟨"/c"⟩ := by
  have hclosed : IsClosed (ofModuleDir ⟨"/m"⟩) circle ⟨"/c"⟩ circlePlaces := by decide +kernel
  exact hclosed.keyedBelow (by simp [Linkless, circle]) (by decide +kernel)

/-- Two files that import each other, one along a path out of the root and back. -/
def detour : FileTree :=
  ⟨[(["c"], .directory),
    (["c", "A.sol"], .file (.text "import \"../c/B.sol\";\n") false),
    (["c", "B.sol"], .file (.text "import \"./A.sol\";\n") false)]⟩

/-- The files of `detour`, as they are found. -/
def detourA : Place := ⟨⟨"/c/A.sol"⟩, "A.sol"⟩
def detourB : Place := ⟨⟨"/c/B.sol"⟩, "B.sol"⟩

/-- The imports of `detour`. -/
def importB : Import := ⟨"import \"../c/B.sol\";", "../c/B.sol"⟩
def importA : Import := ⟨"import \"./A.sol\";", "./A.sol"⟩

theorem isTree_detour : detour.IsTree := by
  constructor <;> decide +kernel

theorem slashed_detour : Slashed (ofModuleDir ⟨"/m"⟩) detour ⟨"/c"⟩ := by
  have hclosed : IsClosed (ofModuleDir ⟨"/m"⟩) detour ⟨"/c"⟩ [detourA, detourB,
      ⟨⟨"/c/B.sol"⟩, "../c/B.sol"⟩, ⟨⟨"/c/A.sol"⟩, "../c/A.sol"⟩] := by
    decide +kernel
  exact hclosed.slashed (by decide +kernel) (by decide +kernel)

theorem below_detour {name : String} (hfile : detour.isFile q.real = true)
    (hlocate : detour.locate? q.real = some ["c", name]) : Below detour ⟨"/c"⟩ q [name] :=
  ⟨hfile, by simp, ["c"], by decide +kernel, hlocate⟩

theorem ok_detour :
    ∃ sources, (ofModuleDir ⟨"/m"⟩).resolveWithin detour 3 ⟨"/c"⟩ = .ok sources := by
  have hsome : ((ofModuleDir ⟨"/m"⟩).resolveWithin detour 3 ⟨"/c"⟩).toOption.isSome = true := by
    decide +kernel
  obtain ⟨sources, hsources⟩ := Option.isSome_iff_exists.1 hsome
  exact ⟨sources, ok_of_toOption hsources⟩

theorem detour_keyed_twice :
    detour.IsTree ∧ Linkless detour ∧ Slashed (ofModuleDir ⟨"/m"⟩) detour ⟨"/c"⟩ ∧
      (∃ sources, (ofModuleDir ⟨"/m"⟩).resolveWithin detour 3 ⟨"/c"⟩ = .ok sources ∧
        sources.contains "B.sol" = true ∧ sources.contains "../c/B.sol" = true) ∧
      Below detour ⟨"/c"⟩ ((ofModuleDir ⟨"/m"⟩).targetOf detourA importB) ["B.sol"] ∧
      ((ofModuleDir ⟨"/m"⟩).targetOf detourA importB).virtual ≠ virtualOf ["B.sol"] ∧
      ((ofModuleDir ⟨"/m"⟩).targetOf detourB importA).virtual = virtualOf ["A.sol"] ∧
      ((ofModuleDir ⟨"/c"⟩).targetOf detourA ⟨"import 'B.sol';", "B.sol"⟩).virtual ≠
        virtualOf ["B.sol"] ∧
      KeyedBelow (ofModuleDir ⟨"/m"⟩) circle ⟨"/c"⟩ ∧
      ∃ sources entered, (ofModuleDir ⟨"/m"⟩).resolveWithin circle 3 ⟨"/c"⟩ = .ok sources ∧
        HasBelow (ofModuleDir ⟨"/m"⟩) circle ⟨"/c"⟩ entered sources := by
  have hlinkless : Linkless detour := by simp [Linkless, detour]
  obtain ⟨hstored, hrelative, -, hways⟩ :=
    keyed_below_iff (ofModuleDir ⟨"/m"⟩) ⟨"/c"⟩ isTree_detour hlinkless
  obtain ⟨-, -, hmodule, -⟩ :=
    keyed_below_iff (ofModuleDir ⟨"/c"⟩) ⟨"/c"⟩ isTree_detour hlinkless
  have hA : detourA ∈ walkedPlaces detour ⟨"/c"⟩ := by decide +kernel
  have hB : detourB ∈ walkedPlaces detour ⟨"/c"⟩ := by decide +kernel
  have hAfile : detour.isFile detourA.real = true := by decide +kernel
  have hBfile : detour.isFile detourB.real = true := by decide +kernel
  have hbelowB : Below detour ⟨"/c"⟩ ((ofModuleDir ⟨"/m"⟩).targetOf detourA importB) ["B.sol"] :=
    below_detour (by decide +kernel) (by decide +kernel)
  have hbelowA : Below detour ⟨"/c"⟩ ((ofModuleDir ⟨"/m"⟩).targetOf detourB importA) ["A.sol"] :=
    below_detour (by decide +kernel) (by decide +kernel)
  refine ⟨isTree_detour, hlinkless, slashed_detour, ?_, hbelowB, ?_, ?_, ?_, keyedBelow_circle, ?_⟩
  · obtain ⟨sources, hresolve⟩ := ok_detour
    obtain ⟨entered, hresolves, hhas⟩ := hstored 3 sources hresolve
    have himports : Imports (ofModuleDir ⟨"/m"⟩) detour detourA
        ((ofModuleDir ⟨"/m"⟩).targetOf detourA importB) :=
      ⟨"import \"../c/B.sol\";\n", by decide +kernel, importB, by decide +kernel, rfl⟩
    obtain ⟨hkey, hpath⟩ := hhas.imported detourA ((settled_of_resolves hresolves).1 hA) _ himports
      hbelowB.isFile
    have hvirtual : ((ofModuleDir ⟨"/m"⟩).targetOf detourA importB).virtual = "../c/B.sol" := by
      decide +kernel
    exact ⟨sources, hresolve, hpath ["B.sol"] hbelowB, hvirtual ▸ hkey⟩
  · intro hvirtual
    obtain ⟨names, hled⟩ :=
      (hways slashed_detour (prefixed_ofModuleDir _) _ (.walked hA) hAfile).2 hA
    have hkey := hrelative detourA importB _ hAfile (by decide +kernel) hbelowB
    obtain ⟨-, htaken⟩ := (hkey.fromRoot (by decide +kernel) 0 names hled).1 hvirtual
    have hhere : realStack detourA = stackOf ⟨"/c"⟩ := by decide +kernel
    have hnames : names = [] := by simpa [hhere, walkBase] using hled.real
    have hone : taken importB = 1 := by decide +kernel
    rw [hone, hnames] at htaken
    cases htaken
  · obtain ⟨names, hled⟩ :=
      (hways slashed_detour (prefixed_ofModuleDir _) _ (.walked hB) hBfile).2 hB
    have hkey := hrelative detourB importA _ hBfile (by decide +kernel) hbelowA
    have hnone : taken importA = 0 := by decide +kernel
    exact (hkey.fromRoot (by decide +kernel) 0 names hled).2 ⟨rfl, by omega⟩
  · rw [Ne, hmodule _ _ ["B.sol"] (by decide +kernel)
      (below_detour (by decide +kernel) (by decide +kernel))]
    decide +kernel
  · have htree : circle.IsTree := by constructor <;> decide +kernel
    obtain ⟨sources, hresolve⟩ := circle_resolves
    obtain ⟨hkeys, -⟩ :=
      keyed_below_iff (ofModuleDir ⟨"/m"⟩) ⟨"/c"⟩ htree (by simp [Linkless, circle])
    obtain ⟨entered, -, hhas⟩ := hkeys 3 sources hresolve
    exact ⟨sources, entered, hresolve, hhas⟩

end SolidityBuild.Resolver
