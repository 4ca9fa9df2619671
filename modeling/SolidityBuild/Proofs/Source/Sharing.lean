import SolidityBuild.Proofs.Source.Origin
import SolidityBuild.Proofs.Source.Owner

/-!
Files that share a virtual path. Whether they are one file is told by where the
ways to them began and how far back these went: the ways agree if a virtual
directory below both stands for one real directory. Ways that begin at the root
agree, and so do ways to modules if the module directory is named like the
prefix. A walked file and a module may share a virtual path and be two files,
and then the entry of the path holds the walked one.
-/

namespace SolidityBuild.Resolver

open SolidityBuild.Path FileTree

variable {r : Resolver} {t : FileTree} {root : Path} {p q : Place} {b b' : Base}
  {count count' : Nat} {names names' base : List String}

/-- No virtual path is that of two reachable files. -/
def OneFileEach (r : Resolver) (t : FileTree) (root : Path) : Prop :=
  ∀ p q, Reachable r t root p → Reachable r t root q → t.isFile p.real = true →
    t.isFile q.real = true → p.virtual = q.virtual → t.locate? p.real = t.locate? q.real

/-! ## Ways that agree -/

/-- Two pairs of directories, some names taken back from each. A directory below
both that is virtually one is really one. -/
def Agree (b : Base) (count : Nat) (b' : Base) (count' : Nat) : Prop :=
  ∀ names names', ".." ∉ names → ".." ∉ names' →
    names ++ pops false count b.virtual = names' ++ pops false count' b'.virtual →
      names ++ b.real.drop count = names' ++ b'.real.drop count'

/-- One directory that two ways lead to shows that they agree. -/
theorem agree_of_append (hvirtual : names ++ pops false count b.virtual =
      names' ++ pops false count' b'.virtual)
    (hreal : names ++ b.real.drop count = names' ++ b'.real.drop count') :
    Agree b count b' count' := by
  intro others others' _ _ hothers
  rcases List.append_eq_append_iff.1 hvirtual with ⟨between, rfl, hback⟩ | ⟨between, rfl, hback⟩
  · rw [List.append_assoc, List.append_cancel_left_eq] at hreal
    rw [hback, ← List.append_assoc, List.append_cancel_right_eq] at hothers
    rw [← hothers, hreal, List.append_assoc]
  · rw [List.append_assoc, List.append_cancel_left_eq] at hreal
    rw [hback, ← List.append_assoc, List.append_cancel_right_eq] at hothers
    rw [hothers, ← hreal, List.append_assoc]

theorem virtualStack_congr (h : p.virtual = q.virtual) : virtualStack p = virtualStack q := by
  rw [virtualStack_eq, virtualStack_eq, virtualRooted_eq, virtualRooted_eq, h]

/-- Files with one virtual path are one file if the ways to them agree, and only
then. -/
theorem locate?_eq_iff_agree (hlinkless : Linkless t) {name name' : String}
    (hp : Keyed t p name) (hq : Keyed t q name') (hpfile : t.isFile p.real = true)
    (hqfile : t.isFile q.real = true) (hled : LedFrom b p count names)
    (hled' : LedFrom b' q count' names') (hvirtual : p.virtual = q.virtual) :
    t.locate? p.real = t.locate? q.real ↔ Agree b count b' count' := by
  have hstacks := virtualStack_congr hvirtual
  rw [hled.virtual, hled'.virtual] at hstacks
  rw [locate?_eq_iff hlinkless hp hq hpfile hqfile hvirtual, hled.real, hled'.real]
  constructor
  · intro hreal
    exact agree_of_append hstacks hreal
  · intro hagree
    exact hagree names names' hled.not_up hled'.not_up hstacks

/-! ## Ways into one directory -/

/-- The virtual directory of a pair is its real one as read from a directory. -/
structure Reads (base : List String) (b : Base) : Prop where
  not_up : ".." ∉ b.virtual
  real : b.real = b.virtual ++ base

theorem Reads.drop_real (h : Reads base b) (count : Nat) :
    b.real.drop count = b.virtual.drop count ++ base.drop (count - b.virtual.length) := by
  rw [h.real, List.drop_append]

/-- Where both virtual directories are read from one directory, ways agree. -/
theorem agree_of_reads (h : Reads base b) (h' : Reads base b') (count count' : Nat) :
    Agree b count b' count' := by
  intro names names' hnames hnames' hvirtual
  have hup : ".." ∉ names ++ b.virtual.drop count := by
    intro hmem
    rcases List.mem_append.1 hmem with hmem | hmem
    · exact hnames hmem
    · exact h.not_up (List.mem_of_mem_drop hmem)
  have hup' : ".." ∉ names' ++ b'.virtual.drop count' := by
    intro hmem
    rcases List.mem_append.1 hmem with hmem | hmem
    · exact hnames' hmem
    · exact h'.not_up (List.mem_of_mem_drop hmem)
  rw [pops_names h.not_up, pops_names h'.not_up, ← List.append_assoc,
    ← List.append_assoc] at hvirtual
  obtain ⟨hput, hheight⟩ := append_replicate_inj hup hup' hvirtual
  rw [h.drop_real, h'.drop_real, hheight, ← List.append_assoc, ← List.append_assoc, hput]

theorem reads_walkBase (root : Path) : Reads (stackOf root) (walkBase root) := by
  constructor
  · simp [walkBase]
  · rfl

/-- Without names taken back, a walked file and a module that share a virtual path
are one file exactly if the module directory is the one with the name of the
prefix below the root. -/
theorem agree_walkBase_moduleBase_iff (hup : ".." ∉ (moduleBase r).virtual) :
    Agree (walkBase root) 0 (moduleBase r) 0 ↔
      stackOf r.moduleDir = (moduleBase r).virtual ++ stackOf root := by
  constructor
  · intro hagree
    have hreal := hagree (moduleBase r).virtual [] hup (by simp) (List.append_nil _)
    exact hreal.symm
  · intro hreal
    have hvirtual : (moduleBase r).virtual ++ pops false 0 (walkBase root).virtual =
        [] ++ pops false 0 (moduleBase r).virtual := List.append_nil _
    exact agree_of_append hvirtual hreal.symm

/-! ## Entries -/

/-- Where every virtual path is that of one file, the entry of an import holds the
file that it names. -/
theorem holds_of_oneFileEach (hone : OneFileEach r t root) {entered : List Place}
    {sources : SourceSet} (hresolves : Resolves r t root entered (.ok sources))
    (hp : p ∈ entered) (himports : Imports r t p q) (hfile : t.isFile q.real = true) :
    Holds r t sources q := by
  obtain ⟨owner, howner, hvirtual, hholds⟩ :=
    (owned_of_resolves hresolves).imported p hp q himports hfile
  have hq : Reachable r t root q := .imported (reachable_of_mem_entered hresolves hp) himports
  have hlocate := hone owner q (reachable_of_mem_entered hresolves howner) hq
    hholds.isFile hfile hvirtual
  exact hholds.of_locate?_eq hvirtual hlocate

/-- In a resolved set the entry of an import belongs to a file that was entered with
its virtual path, a walked one if there is one, and holds the file that the import
names if no virtual path is that of two files. Without links and backslashes, two
files with one virtual path are one file exactly if the ways to them agree. Ways
that begin at the root do. Ways to modules do if the module directory is named like
the prefix. One that begins at the root and one to a module, neither taking names
back, do exactly if the module directory is the one of the prefix below the root. -/
theorem shared_virtual_path (r : Resolver) (t : FileTree) (root : Path) :
    (∀ depth sources, r.resolveWithin t depth root = .ok sources →
      ∃ entered, Resolves r t root entered (.ok sources) ∧ Owned r t root entered sources ∧
        (OneFileEach r t root → ∀ p ∈ entered, ∀ q, Imports r t p q →
          t.isFile q.real = true → Holds r t sources q)) ∧
    (t.IsTree → Linkless t → Slashed r t root → Prefixed r →
      (∀ p, Reachable r t root p → t.isFile p.real = true →
        ∃ b ∈ origins r root, ∃ count names, LedFrom b p count names) ∧
      ∀ p q, Reachable r t root p → Reachable r t root q → t.isFile p.real = true →
        t.isFile q.real = true → p.virtual = q.virtual →
          ∀ b count names b' count' names', LedFrom b p count names →
            LedFrom b' q count' names' →
              (t.locate? p.real = t.locate? q.real ↔ Agree b count b' count')) ∧
    (∀ count count', Agree (walkBase root) count (walkBase root) count') ∧
    (".." ∉ (moduleBase r).virtual →
      (∀ base, stackOf r.moduleDir = (moduleBase r).virtual ++ base →
        ∀ count count', Agree (moduleBase r) count (moduleBase r) count') ∧
      (Agree (walkBase root) 0 (moduleBase r) 0 ↔
        stackOf r.moduleDir = (moduleBase r).virtual ++ stackOf root)) := by
  refine ⟨?_, ?_, ?_, ?_⟩
  · intro depth sources hresolve
    obtain ⟨entered, hresolves⟩ := resolves_of_resolveWithin hresolve (ends_ok sources)
    refine ⟨entered, hresolves, owned_of_resolves hresolves, ?_⟩
    intro hone p hp q himports hfile
    exact holds_of_oneFileEach hone hresolves hp himports hfile
  · intro htree hlinkless hslashed hprefixed
    constructor
    · intro p hp hfile
      exact exists_ledFrom htree hlinkless hslashed hprefixed hp hfile
    · intro p q hp hq hpfile hqfile hvirtual b count names b' count' names' hled hled'
      obtain ⟨_, hpkeyed⟩ := exists_keyed htree hlinkless hslashed hprefixed hp hpfile
      obtain ⟨_, hqkeyed⟩ := exists_keyed htree hlinkless hslashed hprefixed hq hqfile
      exact locate?_eq_iff_agree hlinkless hpkeyed hqkeyed hpfile hqfile hled hled' hvirtual
  · exact agree_of_reads (reads_walkBase root) (reads_walkBase root)
  · intro hup
    refine ⟨?_, agree_walkBase_moduleBase_iff hup⟩
    intro base hbase
    exact agree_of_reads ⟨hup, hbase⟩ ⟨hup, hbase⟩

/-- A file below the root that has the virtual path of a module. -/
def shadow : FileTree :=
  ⟨[(["c"], .directory),
    (["c", "Main.sol"], .file (.text "import \"m.sol\";\n") false),
    (["c", "node_modules"], .directory),
    (["c", "node_modules", "m.sol"], .file (.text "contract Local {}\n") false),
    (["node_modules"], .directory),
    (["node_modules", "m.sol"], .file (.text "contract Module {}\n") false)]⟩

/-- The files of `shadow`, the last one as it is imported. -/
def shadowMain : Place := ⟨⟨"/c/Main.sol"⟩, "Main.sol"⟩
def shadowLocal : Place := ⟨⟨"/c/node_modules/m.sol"⟩, "node_modules/m.sol"⟩
def shadowModule : Place := ⟨⟨"/node_modules/m.sol"⟩, "node_modules/m.sol"⟩

theorem isTree_shadow : shadow.IsTree := by
  constructor <;> decide +kernel

theorem slashed_shadow : Slashed (ofModuleDir ⟨"/node_modules"⟩) shadow ⟨"/c"⟩ := by
  have hclosed : IsClosed (ofModuleDir ⟨"/node_modules"⟩) shadow ⟨"/c"⟩
      [shadowMain, shadowLocal, shadowModule] := by
    decide +kernel
  exact hclosed.slashed (by decide +kernel) (by decide +kernel)

theorem imports_shadow :
    Imports (ofModuleDir ⟨"/node_modules"⟩) shadow shadowMain shadowModule :=
  ⟨"import \"m.sol\";\n", by decide +kernel, ⟨"import \"m.sol\";", "m.sol"⟩, by decide +kernel,
    by decide +kernel⟩

theorem reachable_shadow :
    Reachable (ofModuleDir ⟨"/node_modules"⟩) shadow ⟨"/c"⟩ shadowLocal ∧
      Reachable (ofModuleDir ⟨"/node_modules"⟩) shadow ⟨"/c"⟩ shadowModule := by
  have hlocal : shadowLocal ∈ walkedPlaces shadow ⟨"/c"⟩ := by decide +kernel
  have hmain : shadowMain ∈ walkedPlaces shadow ⟨"/c"⟩ := by decide +kernel
  exact ⟨.walked hlocal, .imported (.walked hmain) imports_shadow⟩

theorem ok_shadow :
    ∃ sources, (ofModuleDir ⟨"/node_modules"⟩).resolveWithin shadow 3 ⟨"/c"⟩ = .ok sources ∧
      sources.get? "node_modules/m.sol" = some "contract Local {}\n" := by
  have hentry : ((ofModuleDir ⟨"/node_modules"⟩).resolveWithin shadow 3 ⟨"/c"⟩).toOption.bind
      (TextMap.get? · "node_modules/m.sol") = some "contract Local {}\n" := by
    decide +kernel
  obtain ⟨sources, hsources, hget⟩ := Option.bind_eq_some_iff.1 hentry
  exact ⟨sources, ok_of_toOption hsources, hget⟩

theorem oneFileEach_of_unconfused (h : Unconfused r t root) : OneFileEach r t root := by
  intro p q hp hq _ _ hvirtual
  rw [h p q hp hq hvirtual]

theorem shadow_shares :
    shadow.IsTree ∧ Linkless shadow ∧
      Slashed (ofModuleDir ⟨"/node_modules"⟩) shadow ⟨"/c"⟩ ∧
      Imports (ofModuleDir ⟨"/node_modules"⟩) shadow shadowMain shadowModule ∧
      shadow.text? shadowModule.real = some "contract Module {}\n" ∧
      (∃ sources, (ofModuleDir ⟨"/node_modules"⟩).resolveWithin shadow 3 ⟨"/c"⟩ = .ok sources ∧
        sources.get? "node_modules/m.sol" = some "contract Local {}\n" ∧
        ∃ entered, Owned (ofModuleDir ⟨"/node_modules"⟩) shadow ⟨"/c"⟩ entered sources) ∧
      (∃ b ∈ origins (ofModuleDir ⟨"/node_modules"⟩) ⟨"/c"⟩,
        ∃ b' ∈ origins (ofModuleDir ⟨"/node_modules"⟩) ⟨"/c"⟩, ∃ count names count' names',
          LedFrom b shadowLocal count names ∧ LedFrom b' shadowModule count' names' ∧
            ¬ Agree b count b' count') ∧
      ¬ Agree (walkBase ⟨"/c"⟩) 0 (moduleBase (ofModuleDir ⟨"/node_modules"⟩)) 0 ∧
      Agree (moduleBase (ofModuleDir ⟨"/node_modules"⟩)) 0
        (moduleBase (ofModuleDir ⟨"/node_modules"⟩)) 1 ∧
      ∃ sources entered, (ofModuleDir ⟨"/m"⟩).resolveWithin circle 3 ⟨"/c"⟩ = .ok sources ∧
        Resolves (ofModuleDir ⟨"/m"⟩) circle ⟨"/c"⟩ entered (.ok sources) ∧
        ∀ p ∈ entered, ∀ q, Imports (ofModuleDir ⟨"/m"⟩) circle p q →
          circle.isFile q.real = true → Holds (ofModuleDir ⟨"/m"⟩) circle sources q := by
  obtain ⟨howned, hways, -, hmodules⟩ :=
    shared_virtual_path (ofModuleDir ⟨"/node_modules"⟩) shadow ⟨"/c"⟩
  have hlinkless : Linkless shadow := by simp [Linkless, shadow]
  obtain ⟨hlocal, hmodule⟩ := reachable_shadow
  have hlocalFile : shadow.isFile shadowLocal.real = true := by decide +kernel
  have hmoduleFile : shadow.isFile shadowModule.real = true := by decide +kernel
  have hapart : shadow.locate? shadowLocal.real ≠ shadow.locate? shadowModule.real := by
    decide +kernel
  obtain ⟨hsame, hboth⟩ := hmodules (by decide +kernel)
  refine ⟨isTree_shadow, hlinkless, slashed_shadow, imports_shadow, by decide +kernel, ?_, ?_, ?_,
    hsame [] (by decide +kernel) 0 1, ?_⟩
  · obtain ⟨sources, hresolve, hentry⟩ := ok_shadow
    obtain ⟨entered, -, hentries, -⟩ := howned 3 sources hresolve
    exact ⟨sources, hresolve, hentry, entered, hentries⟩
  · obtain ⟨hled, hagree⟩ := hways isTree_shadow hlinkless slashed_shadow (prefixed_ofModuleDir _)
    obtain ⟨b, hb, count, names, hlocalLed⟩ := hled _ hlocal hlocalFile
    obtain ⟨b', hb', count', names', hmoduleLed⟩ := hled _ hmodule hmoduleFile
    refine ⟨b, hb, b', hb', count, names, count', names', hlocalLed, hmoduleLed, ?_⟩
    intro hagrees
    apply hapart
    exact (hagree _ _ hlocal hmodule hlocalFile hmoduleFile rfl _ _ _ _ _ _ hlocalLed
      hmoduleLed).2 hagrees
  · rw [hboth]
    decide +kernel
  · obtain ⟨hcircle, -⟩ := shared_virtual_path (ofModuleDir ⟨"/m"⟩) circle ⟨"/c"⟩
    obtain ⟨sources, hresolve⟩ := circle_resolves
    obtain ⟨entered, hresolves, -, hholds⟩ := hcircle 3 sources hresolve
    exact ⟨sources, entered, hresolve, hresolves,
      hholds (oneFileEach_of_unconfused unconfused_circle)⟩

/-- A file whose name reads like a directory and a name in it. -/
def slashing : FileTree :=
  ⟨[(["c"], .directory),
    (["c", "Main.sol"], .file (.text "import './a\\b.sol';\n") false),
    (["c", "a\\b.sol"], .file (.text "contract Flat {}\n") false),
    (["c", "a"], .directory),
    (["c", "a", "b.sol"], .file (.text "contract Inner {}\n") false)]⟩

/-- With backslashes two files share a virtual path though no way leads to a
module. -/
theorem not_oneFileEach_slashing :
    slashing.IsTree ∧ Linkless slashing ∧
      ¬ OneFileEach (ofModuleDir ⟨"/m"⟩) slashing ⟨"/c"⟩ := by
  refine ⟨?_, by simp [Linkless, slashing], ?_⟩
  · constructor <;> decide +kernel
  · intro hone
    have hmain : (⟨⟨"/c/Main.sol"⟩, "Main.sol"⟩ : Place) ∈ walkedPlaces slashing ⟨"/c"⟩ := by
      decide +kernel
    have hinner : (⟨⟨"/c/a/b.sol"⟩, "a/b.sol"⟩ : Place) ∈ walkedPlaces slashing ⟨"/c"⟩ := by
      decide +kernel
    have himports : Imports (ofModuleDir ⟨"/m"⟩) slashing ⟨⟨"/c/Main.sol"⟩, "Main.sol"⟩
        ⟨⟨"/c/a\\b.sol"⟩, "a/b.sol"⟩ :=
      ⟨"import './a\\b.sol';\n", by decide +kernel, ⟨"import './a\\b.sol';", "./a\\b.sol"⟩,
        by decide +kernel, by decide +kernel⟩
    have hsame := hone _ _ (.imported (.walked hmain) himports) (.walked hinner)
      (by decide +kernel) (by decide +kernel) rfl
    have hapart : slashing.locate? ⟨"/c/a\\b.sol"⟩ ≠ slashing.locate? ⟨"/c/a/b.sol"⟩ := by
      decide +kernel
    exact hapart hsame

end SolidityBuild.Resolver
