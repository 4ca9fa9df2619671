import SolidityBuild.Proofs.FileTree.Directories
import SolidityBuild.Proofs.Source.RootPaths
import SolidityBuild.Proofs.Source.Statement

/-!
Modules and the module directory. The specifier of a module is put behind the module
directory as it stands, so an absolute one takes the place of the directory, and `..`
segments take back names of it. What is left is below the directory exactly if the
specifier names again all that it takes back, and at least one name more. A specifier
that is not absolute and has no `..` segments does.
-/

namespace SolidityBuild.Resolver

open SolidityBuild.Path FileTree

variable {r : Resolver} {t : FileTree} {root directory : Path} {p q : Place} {i : Import}
  {virtualDir specifier text : String} {entered : List Place} {sources : SourceSet}

/-- A path passes through a directory and goes on from there. -/
def LiesBelow (directory p : Path) : Prop :=
  namesOf directory <+: namesOf p ∧ namesOf directory ≠ namesOf p

instance (directory p : Path) : Decidable (LiesBelow directory p) :=
  inferInstanceAs (Decidable (_ ∧ _))

/-- The names of a directory that a specifier takes back, the innermost first. An
absolute one takes back all of them. -/
def takenBack (directory : Path) (specifier : String) : List String :=
  if isRooted specifier then stackOf directory
  else (stackOf directory).take (net (segmentsOf specifier)).1

/-- A specifier names again what it takes back of a directory, and more. -/
def StaysIn (directory : Path) (specifier : String) : Prop :=
  takenBack directory specifier <:+ (net (segmentsOf specifier)).2 ∧
    takenBack directory specifier ≠ (net (segmentsOf specifier)).2

instance (directory : Path) (specifier : String) : Decidable (StaysIn directory specifier) :=
  inferInstanceAs (Decidable (_ ∧ _))

/-! ## Paths below a directory -/

theorem namesOf_of_clean (hclean : directory.clean = directory)
    (habsolute : directory.isAbsolute = true) :
    namesOf directory = (stackOf directory).reverse := by
  have hnames := namesOf_clean_eq habsolute
  rwa [hclean] at hnames

theorem liesBelow_iff (hclean : directory.clean = directory)
    (habsolute : directory.isAbsolute = true) {path : Path} {stack : List String}
    (hpath : namesOf path = stack.reverse) :
    LiesBelow directory path ↔ stackOf directory <:+ stack ∧ stackOf directory ≠ stack := by
  rw [LiesBelow, namesOf_of_clean hclean habsolute, hpath, List.reverse_prefix, Ne,
    List.reverse_inj]

theorem namesOf_pathOf {location : Location} (h : Named location) :
    namesOf (pathOf location) = location := by
  by_cases hnil : location = []
  · rw [hnil]
    decide
  · have htext : (pathOf location).text = render true location.reverse := by
      simp [pathOf, render]
    rw [namesOf, htext, segmentsOf_render_rooted h.reverse (by simpa using hnil),
      List.reverse_reverse, List.filter_cons_of_neg (by simp)]
    apply List.filter_eq_self.2
    intro s hs
    simpa using (h s hs).1

/-- What is left of a stack stays where it is, so what was taken has to be put back. -/
theorem suffix_append_drop_iff {put stack : List String} {count : Nat} :
    stack <:+ put ++ stack.drop count ∧ stack ≠ put ++ stack.drop count ↔
      stack.take count <:+ put ∧ stack.take count ≠ put := by
  have hsplit := List.take_append_drop count stack
  generalize stack.take count = front at *
  generalize stack.drop count = back at *
  subst hsplit
  rw [Ne, Ne, List.append_cancel_right_eq]
  apply and_congr_left'
  constructor
  · rintro ⟨beyond, hbeyond⟩
    rw [← List.append_assoc] at hbeyond
    exact ⟨beyond, List.append_cancel_right hbeyond⟩
  · rintro ⟨beyond, rfl⟩
    exact ⟨beyond, (List.append_assoc ..).symm⟩

/-! ## Where modules are looked up -/

theorem locate_module (directory : Path) (virtualDir : String) (hkind : i.kind = .module) :
    (r.locate directory virtualDir i).real = r.moduleDir.join ⟨i.specifier⟩ := by
  rw [locate, hkind]

/-- A specifier behind a directory: what is left of the directory, and what the
specifier puts behind it. -/
theorem stackOf_join (directory : Path) (specifier : String) :
    stackOf (directory.join ⟨specifier⟩) = (net (segmentsOf specifier)).2 ++
      if isRooted specifier then []
      else (stackOf directory).drop (net (segmentsOf specifier)).1 := by
  cases hrooted : isRooted specifier with
  | true =>
    have habsolute : Path.isAbsolute ⟨specifier⟩ = true := hrooted
    rw [join, if_pos habsolute, stackOf, foldl_cleanStep_eq, pops_rooted_nil, if_pos rfl]
  | false =>
    have hrelative : Path.isAbsolute ⟨specifier⟩ = false := hrooted
    rw [stackOf, foldl_segmentsOf_join hrelative, foldl_cleanStep_eq, if_neg Bool.false_ne_true]
    show _ ++ pops true _ (stackOf directory) = _
    rw [pops_rooted (up_not_mem_stackOf directory)]

theorem staysIn_iff :
    StaysIn directory specifier ↔ stackOf directory <:+ stackOf (directory.join ⟨specifier⟩) ∧
      stackOf directory ≠ stackOf (directory.join ⟨specifier⟩) := by
  rw [StaysIn, takenBack, stackOf_join]
  cases isRooted specifier with
  | true => rw [if_pos rfl, if_pos rfl, List.append_nil]
  | false =>
    rw [if_neg Bool.false_ne_true, if_neg Bool.false_ne_true]
    exact suffix_append_drop_iff.symm

theorem isAbsolute_join_of_isAbsolute (habsolute : directory.isAbsolute = true) (path : Path) :
    (directory.join path).isAbsolute = true := by
  cases hpath : path.isAbsolute with
  | true => rwa [join, if_pos hpath]
  | false => rwa [Path.isAbsolute_join directory hpath]

theorem liesBelow_clean_join_iff (hclean : directory.clean = directory)
    (habsolute : directory.isAbsolute = true) :
    LiesBelow directory (directory.join ⟨specifier⟩).clean ↔ StaysIn directory specifier := by
  rw [staysIn_iff]
  apply liesBelow_iff hclean habsolute
  exact namesOf_clean_eq (isAbsolute_join_of_isAbsolute habsolute _)

/-- In a tree without links a file is where the normal form of its path says. -/
theorem liesBelow_locate?_iff (hclean : directory.clean = directory)
    (habsolute : directory.isAbsolute = true) (hlinkless : Linkless t) {location : Location}
    (hlocate : t.locate? (directory.join ⟨specifier⟩) = some location) :
    LiesBelow directory (pathOf location) ↔ StaysIn directory specifier := by
  have hstack := stackOf_of_locate? hlinkless hlocate
  have hnamed : Named location := by
    rw [← List.reverse_reverse location, ← hstack]
    exact (named_stackOf _).reverse
  rw [staysIn_iff, hstack]
  apply liesBelow_iff hclean habsolute
  rw [namesOf_pathOf hnamed, List.reverse_reverse]

/-! ## Specifiers without a way out -/

theorem netStep_of_ne_up (total : Nat × List String) {segment : String} (h : segment ≠ "..") :
    (netStep total segment).1 = total.1 ∧ total.2 <:+ (netStep total segment).2 := by
  rw [netStep, if_neg h]
  split
  · exact ⟨rfl, List.suffix_refl _⟩
  · exact ⟨rfl, List.suffix_cons ..⟩

/-- Segments without `..` take nothing back, and keep what was put. -/
theorem foldl_netStep_of_not_up {segments : List String} (h : ".." ∉ segments)
    (total : Nat × List String) :
    (segments.foldl netStep total).1 = total.1 ∧
      total.2 <:+ (segments.foldl netStep total).2 := by
  induction segments generalizing total with
  | nil => exact ⟨rfl, List.suffix_refl _⟩
  | cons segment rest ih =>
    obtain ⟨hsegment, hrest⟩ := not_or.1 (mt List.mem_cons.2 h)
    obtain ⟨htaken, hput⟩ := netStep_of_ne_up total (Ne.symm hsegment)
    obtain ⟨htaken', hput'⟩ := ih hrest (netStep total segment)
    exact ⟨htaken'.trans htaken, hput.trans hput'⟩

theorem head?_toList_of_head?_segmentsOf (h : (segmentsOf specifier).head? = some ".") :
    specifier.toList.head? = some '.' := by
  obtain ⟨rest, hrest⟩ := List.head?_eq_some_iff.1 h
  rw [← joinSegments_segmentsOf specifier, hrest]
  cases rest with
  | nil => rfl
  | cons next rest =>
    rw [joinSegments_cons (List.cons_ne_nil next rest), String.append_assoc, String.toList_append]
    rfl

/-- A specifier that neither begins with a slash or a dot nor has a `..` segment
stays, wherever it stands. -/
theorem staysIn_of_not_up (hempty : specifier ≠ "") (hdot : specifier.toList.head? ≠ some '.')
    (hrooted : isRooted specifier = false) (hup : ".." ∉ segmentsOf specifier) :
    StaysIn directory specifier := by
  obtain ⟨name, rest, hsegments⟩ := List.exists_cons_of_ne_nil (segmentsOf_ne_nil specifier)
  have hname : name ≠ "" := by
    rintro rfl
    apply head?_segmentsOf_ne hempty hrooted
    rw [hsegments, List.head?_cons]
  have hplain : name ≠ "." := by
    rintro rfl
    apply hdot
    apply head?_toList_of_head?_segmentsOf
    rw [hsegments, List.head?_cons]
  rw [hsegments] at hup
  obtain ⟨hfirst, hrest⟩ := not_or.1 (mt List.mem_cons.2 hup)
  have hstep : netStep (0, []) name = (0, [name]) := by
    simp [netStep, hname, hplain, Ne.symm hfirst]
  obtain ⟨htaken, hput⟩ := foldl_netStep_of_not_up hrest (0, [name])
  rw [StaysIn, takenBack, hrooted, if_neg Bool.false_ne_true, hsegments, net, List.foldl_cons,
    hstep, htaken, List.take_zero]
  refine ⟨List.nil_suffix, fun hnil => ?_⟩
  rw [← hnil] at hput
  exact List.cons_ne_nil _ _ (List.suffix_nil.1 hput)

theorem specifier_ne_empty_of_mem_scan (hi : i ∈ Import.scan text) : i.specifier ≠ "" := by
  obtain ⟨line, -, hline⟩ := Import.mem_scan_iff.1 hi
  obtain ⟨quote, specifier, -, hnonempty, -, -, rfl⟩ := Import.ofLine?_eq_some_iff.1 hline
  intro (hempty : String.ofList specifier = "")
  apply hnonempty
  rw [← String.toList_ofList (l := specifier), hempty]
  rfl

theorem head?_specifier_of_module (hkind : i.kind = .module) :
    i.specifier.toList.head? ≠ some '.' := by
  intro hhead
  rw [Import.kind, if_pos hhead] at hkind
  cases hkind

/-! ## What is read for modules -/

/-- An import of a module in the text of one place leads to the file at the other. -/
def ImportsModule (r : Resolver) (t : FileTree) (p q : Place) : Prop :=
  ∃ text, t.text? p.real = some text ∧ ∃ i ∈ Import.scan text,
    i.kind = .module ∧ r.targetOf p i = q ∧ t.isFile q.real = true

/-- The specifiers of modules in the texts that are reached stay in the module directory
if they lead to files. -/
def ModulesStay (r : Resolver) (t : FileTree) (root : Path) : Prop :=
  ∀ p, Reachable r t root p → ∀ text, t.text? p.real = some text → ∀ i ∈ Import.scan text,
    i.kind = .module → t.isFile (r.targetOf p i).real = true → StaysIn r.moduleDir i.specifier

theorem forall_importsModule_iff (hclean : r.moduleDir.clean = r.moduleDir)
    (habsolute : r.moduleDir.isAbsolute = true) :
    (∀ p q, Reachable r t root p → ImportsModule r t p q → LiesBelow r.moduleDir q.real.clean) ↔
      ModulesStay r t root := by
  constructor
  · intro h p hp text htext i hi hkind hfile
    have hbelow := h p _ hp ⟨text, htext, i, hi, hkind, rfl, hfile⟩
    rw [targetOf, locate_module _ _ hkind] at hbelow
    exact (liesBelow_clean_join_iff hclean habsolute).1 hbelow
  · rintro h p q hp ⟨text, htext, i, hi, hkind, rfl, hfile⟩
    rw [targetOf, locate_module _ _ hkind]
    exact (liesBelow_clean_join_iff hclean habsolute).2 (h p hp text htext i hi hkind hfile)

/-- Where no virtual path is that of two files, every file that a module import leads
to is read into the set. -/
theorem holds_of_importsModule (hunconfused : Unconfused r t root)
    (hresolves : Resolves r t root entered (.ok sources)) (hp : Reachable r t root p)
    (himports : ImportsModule r t p q) : Holds r t sources q := by
  obtain ⟨text, htext, i, hi, -, rfl, hfile⟩ := himports
  have hq : Reachable r t root (r.targetOf p i) := .imported hp ⟨text, htext, i, hi, rfl⟩
  have hmem := mem_entered_of_reachable hunconfused hresolves hq (.inr hfile)
  have hcontains := ((settled_of_resolves hresolves).2 _ hmem).1
  exact (holds_of_contains hunconfused hresolves hq hcontains).2

/-- If the module directory is in normal form, a module is looked up below it exactly if
the specifier stays in it. One without a slash in front and without `..` segments does;
an absolute one, or one that takes back names of the directory, does only if it names
them again. In a tree without links the files are where these paths say. So no file
outside is read for a module exactly if the specifiers in the texts that are reached
stay, and where no virtual path is that of two files the text of each file that they
lead to gets into the set. -/
theorem module_below_iff (r : Resolver) (hclean : r.moduleDir.clean = r.moduleDir)
    (habsolute : r.moduleDir.isAbsolute = true) :
    (∀ directory virtualDir i, i.kind = .module →
      (LiesBelow r.moduleDir (r.locate directory virtualDir i).real.clean ↔
        StaysIn r.moduleDir i.specifier)) ∧
    (∀ text, ∀ i ∈ Import.scan text, i.kind = .module → isRooted i.specifier = false →
      ".." ∉ segmentsOf i.specifier → StaysIn r.moduleDir i.specifier) ∧
    (∀ t p i location, Linkless t → i.kind = .module →
      t.locate? (r.targetOf p i).real = some location →
        (LiesBelow r.moduleDir (pathOf location) ↔ StaysIn r.moduleDir i.specifier)) ∧
    ∀ t root,
      ((∀ p q, Reachable r t root p → ImportsModule r t p q →
          LiesBelow r.moduleDir q.real.clean) ↔ ModulesStay r t root) ∧
      ∀ depth sources, Unconfused r t root → r.resolveWithin t depth root = .ok sources →
        ∀ p q, Reachable r t root p → ImportsModule r t p q → Holds r t sources q := by
  refine ⟨?_, ?_, ?_, ?_⟩
  · intro directory virtualDir i hkind
    rw [locate_module directory virtualDir hkind]
    exact liesBelow_clean_join_iff hclean habsolute
  · intro text i hi hkind hrooted hup
    exact staysIn_of_not_up (specifier_ne_empty_of_mem_scan hi) (head?_specifier_of_module hkind)
      hrooted hup
  · intro t p i location hlinkless hkind hlocate
    rw [targetOf, locate_module _ _ hkind] at hlocate
    exact liesBelow_locate?_iff hclean habsolute hlinkless hlocate
  · intro t root
    refine ⟨forall_importsModule_iff hclean habsolute, ?_⟩
    intro depth sources hunconfused hresolve p q hp himports
    obtain ⟨entered, hresolves⟩ := resolves_of_resolveWithin hresolve (ends_ok sources)
    exact holds_of_importsModule hunconfused hresolves hp himports

/-- A file with two imports of files beside the module directory and one of a module. -/
def outskirts : FileTree :=
  ⟨[(["c"], .directory),
    (["c", "Main.sol"], .file (.text
      "import \"/x.sol\";\nimport \"m/../../x.sol\";\nimport \"m/T.sol\";\n") false),
    (["n"], .directory),
    (["n", "m"], .directory),
    (["n", "m", "T.sol"], .file (.text "contract T {}\n") false),
    (["x.sol"], .file (.text "contract X {}\n") false)]⟩

/-- The file of `outskirts` below the root, and its imports. -/
def outskirtsMain : Place := ⟨⟨"/c/Main.sol"⟩, "Main.sol"⟩
def importAbsolute : Import := ⟨"import \"/x.sol\";", "/x.sol"⟩
def importUp : Import := ⟨"import \"m/../../x.sol\";", "m/../../x.sol"⟩
def importWithin : Import := ⟨"import \"m/T.sol\";", "m/T.sol"⟩

theorem mainText_outskirts : outskirts.text? outskirtsMain.real =
    some "import \"/x.sol\";\nimport \"m/../../x.sol\";\nimport \"m/T.sol\";\n" := by
  decide +kernel

theorem importsModule_outskirts (hi : i ∈ [importAbsolute, importUp, importWithin]) :
    i.kind = .module ∧ ImportsModule (ofModuleDir ⟨"/n"⟩) outskirts outskirtsMain
      ((ofModuleDir ⟨"/n"⟩).targetOf outskirtsMain i) := by
  have hscan : Import.scan
      "import \"/x.sol\";\nimport \"m/../../x.sol\";\nimport \"m/T.sol\";\n" =
      [importAbsolute, importUp, importWithin] := by decide +kernel
  have hall : ∀ i ∈ [importAbsolute, importUp, importWithin], i.kind = .module ∧
      outskirts.isFile ((ofModuleDir ⟨"/n"⟩).targetOf outskirtsMain i).real = true := by
    decide +kernel
  obtain ⟨hkind, hfile⟩ := hall i hi
  exact ⟨hkind, _, mainText_outskirts, i, by rwa [hscan], hkind, rfl, hfile⟩

theorem unconfused_outskirts : Unconfused (ofModuleDir ⟨"/n"⟩) outskirts ⟨"/c"⟩ := by
  have hclosed : IsClosed (ofModuleDir ⟨"/n"⟩) outskirts ⟨"/c"⟩ (outskirtsMain ::
      [importAbsolute, importUp, importWithin].map
        ((ofModuleDir ⟨"/n"⟩).targetOf outskirtsMain)) := by
    decide +kernel
  exact hclosed.unconfused (by decide +kernel)

theorem ok_outskirts :
    ∃ sources, (ofModuleDir ⟨"/n"⟩).resolveWithin outskirts 2 ⟨"/c"⟩ = .ok sources ∧
      sources.get? "node_modules//x.sol" = some "contract X {}\n" := by
  have hentry : ((ofModuleDir ⟨"/n"⟩).resolveWithin outskirts 2 ⟨"/c"⟩).toOption.bind
      (TextMap.get? · "node_modules//x.sol") = some "contract X {}\n" := by
    decide +kernel
  obtain ⟨sources, hsources, hget⟩ := Option.bind_eq_some_iff.1 hentry
  exact ⟨sources, ok_of_toOption hsources, hget⟩

/-- Files outside the module directory are read for modules in `outskirts`. -/
theorem outskirts_modules_not_below :
    ¬ ModulesStay (ofModuleDir ⟨"/n"⟩) outskirts ⟨"/c"⟩ ∧
    (∀ i ∈ [importAbsolute, importUp],
      ¬ LiesBelow ⟨"/n"⟩ ((ofModuleDir ⟨"/n"⟩).targetOf outskirtsMain i).real.clean) ∧
    ¬ LiesBelow ⟨"/n"⟩ (pathOf ["x.sol"]) ∧
    LiesBelow ⟨"/n"⟩ ((ofModuleDir ⟨"/n"⟩).targetOf outskirtsMain importWithin).real.clean ∧
    ∃ sources, (ofModuleDir ⟨"/n"⟩).resolveWithin outskirts 2 ⟨"/c"⟩ = .ok sources ∧
      (∀ i ∈ [importAbsolute, importUp, importWithin],
        Holds (ofModuleDir ⟨"/n"⟩) outskirts sources
          ((ofModuleDir ⟨"/n"⟩).targetOf outskirtsMain i)) ∧
      sources.get? "node_modules//x.sol" = some "contract X {}\n" := by
  obtain ⟨hlocate, hplain, hlocation, hread⟩ :=
    module_below_iff (ofModuleDir ⟨"/n"⟩) (by decide) (by decide)
  have hmain : Reachable (ofModuleDir ⟨"/n"⟩) outskirts ⟨"/c"⟩ outskirtsMain :=
    .walked (by decide +kernel)
  have hout : ∀ i ∈ [importAbsolute, importUp],
      ¬ LiesBelow ⟨"/n"⟩ ((ofModuleDir ⟨"/n"⟩).targetOf outskirtsMain i).real.clean := by
    intro i hi hbelow
    have hmem := List.mem_append_left [importWithin] hi
    have hleaves : ∀ i ∈ [importAbsolute, importUp], ¬ StaysIn ⟨"/n"⟩ i.specifier := by decide
    exact hleaves i hi ((hlocate _ _ i (importsModule_outskirts hmem).1).1 hbelow)
  refine ⟨fun hstay => ?_, hout, fun hbelow => ?_, ?_, ?_⟩
  · have himports := (importsModule_outskirts (i := importUp) (by decide)).2
    exact hout importUp (by decide) ((hread _ _).1.2 hstay _ _ hmain himports)
  · have hleaves : ¬ StaysIn ⟨"/n"⟩ importAbsolute.specifier := by decide
    apply hleaves
    apply (hlocation outskirts outskirtsMain _ ["x.sol"] _ _ _).1 hbelow
    · simp [Linkless, outskirts]
    · decide
    · decide +kernel
  · apply (hlocate _ _ _ _).2
    · apply hplain "import \"m/T.sol\";" importWithin <;> decide +kernel
    · decide
  · obtain ⟨sources, hresolve, hentry⟩ := ok_outskirts
    refine ⟨sources, hresolve, fun i hi => ?_, hentry⟩
    exact (hread _ _).2 2 sources unconfused_outskirts hresolve _ _ hmain
      (importsModule_outskirts hi).2

end SolidityBuild.Resolver
