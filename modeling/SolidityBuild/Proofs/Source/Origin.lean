import SolidityBuild.Proofs.FileTree.Walk
import SolidityBuild.Proofs.Source.Ascent

/-!
Where virtual paths lead. A file of the walk is named from the root, a module
from the module directory, and one under an absolute specifier from `/`. From
there on relative imports do the same to the real and the virtual directory, so
both are told by where the way began, how many names it has taken back and
which it has put in their place.
-/

namespace SolidityBuild.Resolver

open SolidityBuild.Path FileTree

variable {r : Resolver} {t : FileTree} {root : Path} {p q : Place} {i : Import} {b b' : Base}
  {count count' : Nat} {name name' : String} {names names' : List String}

/-- The names that a path leads along, the innermost first. -/
def stackOf (p : Path) : List String := (segmentsOf p.text).foldl (cleanStep true) []

theorem up_not_mem_stackOf (p : Path) : ".." ∉ stackOf p :=
  (cleanStack_foldl (.nil true) _).not_mem_up

/-! ## Files and their locations -/

theorem StandsIn.locate?_eq (h : StandsIn t p name) (hlinkless : Linkless t)
    (hfile : t.isFile p.real = true) : t.locate? p.real = some (name :: realStack p).reverse := by
  obtain ⟨content, hcontent⟩ := Option.isSome_iff_exists.1 hfile
  obtain ⟨entry, hentry, -⟩ := Option.bind_eq_some_iff.1 hcontent
  obtain ⟨location, hlocate, -⟩ := Option.bind_eq_some_iff.1 hentry
  rw [hlocate, location_of_locate? hlinkless hlocate, h.segments]

/-- A file has its own name last in its virtual path. -/
structure Keyed (t : FileTree) (p : Place) (name : String) : Prop where
  stands : StandsIn t p name
  last : (segmentsOf p.virtual).getLast? = some name

/-- Files with one virtual path are one file if their directories are. -/
theorem locate?_eq_iff (hlinkless : Linkless t) (hp : Keyed t p name) (hq : Keyed t q name')
    (hpfile : t.isFile p.real = true) (hqfile : t.isFile q.real = true)
    (hvirtual : p.virtual = q.virtual) :
    t.locate? p.real = t.locate? q.real ↔ realStack p = realStack q := by
  have hlast := hp.last
  rw [hvirtual, hq.last] at hlast
  obtain rfl := Option.some.inj hlast
  rw [hp.stands.locate?_eq hlinkless hpfile, hq.stands.locate?_eq hlinkless hqfile,
    Option.some.injEq, List.reverse_inj, List.cons_inj_right]

/-! ## Virtual directories without backslashes -/

theorem virtual_of_plain (hplain : '\\' ∉ p.virtual.toList)
    (hhead : (segmentsOf p.virtual).head? ≠ some "") :
    virtualRooted p = false ∧
      virtualStack p = (segmentsOf p.virtual).dropLast.foldl (cleanStep false) [] := by
  have hparent : '\\' ∉ (virtualParent p.virtual).toList := by
    intro hmem
    rw [virtualParent, String.toList_ofList, List.mem_reverse] at hmem
    have hkept := (List.dropWhile_sublist _).subset (List.mem_of_mem_drop hmem)
    exact hplain (List.mem_reverse.1 hkept)
  have hsegments : (segmentsOf p.virtual).dropLast ≠ [] →
      segmentsOf (virtualParent p.virtual) = (segmentsOf p.virtual).dropLast := by
    intro hne
    rw [virtualParent_eq, segmentsOf_joinSegments hne]
    intro s hs
    exact slash_not_mem_of_mem_segmentsOf ((List.dropLast_sublist _).subset hs)
  by_cases hnil : (segmentsOf p.virtual).dropLast = []
  · have hempty : virtualParent p.virtual = "" := by
      rw [virtualParent_eq, hnil]
      rfl
    have hrooted : virtualRooted p = false := by
      rw [virtualRooted_eq, hempty]
      decide
    rw [virtualStack_eq, hrooted, hempty, hnil]
    exact ⟨rfl, by decide⟩
  · have hrooted : virtualRooted p = false := by
      rw [virtualRooted_eq, slashed_eq_self hparent, Bool.eq_false_iff]
      intro hrooted
      obtain ⟨rest, -, hrest⟩ := isRooted_iff.1 hrooted
      rw [hsegments hnil] at hrest
      apply hhead
      obtain ⟨first, others, hfirst⟩ := List.exists_cons_of_ne_nil (segmentsOf_ne_nil p.virtual)
      rw [hfirst] at hrest hnil ⊢
      cases others with
      | nil => exact absurd rfl hnil
      | cons second others =>
        rw [List.dropLast_cons_cons] at hrest
        rw [(List.cons.inj hrest).1]
        rfl
    rw [virtualStack_eq, hrooted, slashed_eq_self hparent, hsegments hnil]
    exact ⟨rfl, rfl⟩

/-! ## Ways -/

/-- What leads from a pair of directories to those of a place: both lose `count`
names and get `names` in their place. -/
structure LedFrom (b : Base) (p : Place) (count : Nat) (names : List String) : Prop where
  not_up : ".." ∉ names
  unrooted : virtualRooted p = false
  real : realStack p = names ++ b.real.drop count
  virtual : virtualStack p = names ++ pops false count b.virtual

/-- What a relative import takes back and puts comes on top of the way before it. -/
theorem LedFrom.step (h : LedFrom b p count names)
    (hsteps : Steps (baseOf p) q count' name names') :
    LedFrom b q (count + (count' - names.length)) (names' ++ names.drop count') := by
  constructor
  case not_up =>
    intro hmem
    rcases List.mem_append.1 hmem with hput | hkept
    · exact hsteps.not_up (List.mem_cons_of_mem name hput)
    · exact h.not_up (List.mem_of_mem_drop hkept)
  case unrooted =>
    rw [hsteps.rooted, baseOf, h.unrooted]
    rfl
  case real =>
    rw [hsteps.realDir, baseOf, h.real, List.drop_append, List.drop_drop, List.append_assoc]
  case virtual =>
    rw [hsteps.virtualDir, baseOf, h.unrooted, h.virtual, pops_append h.not_up, pops_add,
      List.append_assoc]

theorem ledFrom_of_foldl {directories : List String} (hunrooted : virtualRooted p = false)
    (hup : ".." ∉ b.real) (hreal : realStack p = directories.foldl (cleanStep true) b.real)
    (hvirtual : virtualStack p = directories.foldl (cleanStep false) b.virtual) :
    LedFrom b p (net directories).1 (net directories).2 where
  not_up := up_not_mem_net directories
  unrooted := hunrooted
  real := by rw [hreal, foldl_cleanStep_eq, pops_rooted hup]
  virtual := by rw [hvirtual, foldl_cleanStep_eq]

/-- Where the files of the walk are named from. -/
def walkBase (root : Path) : Base := ⟨false, stackOf root, []⟩

/-- Where modules are named from. -/
def moduleBase (r : Resolver) : Base :=
  ⟨false, stackOf r.moduleDir, (segmentsOf r.modulePrefix).foldl (cleanStep false) []⟩

/-- Where modules with absolute specifiers are named from. -/
def absoluteBase (r : Resolver) : Base :=
  ⟨false, [], (segmentsOf r.modulePrefix).foldl (cleanStep false) []⟩

def origins (r : Resolver) (root : Path) : List Base :=
  [walkBase root, moduleBase r, absoluteBase r]

/-- The prefix of modules is a directory in the set. -/
structure Prefixed (r : Resolver) : Prop where
  not_empty : r.modulePrefix ≠ ""
  unrooted : isRooted r.modulePrefix = false

theorem prefixed_ofModuleDir (moduleDir : Path) : Prefixed (ofModuleDir moduleDir) := by
  have hdefault : defaultPrefix ≠ "" ∧ isRooted defaultPrefix = false := by decide
  exact ⟨hdefault.1, hdefault.2⟩

/-! ## Where ways begin -/

theorem stackOf_behind {below : List String} (hnames : ∀ n ∈ below, isName n = true) (p : Path) :
    stackOf (behind p below) = below.reverse ++ stackOf p := by
  induction below generalizing p with
  | nil => rfl
  | cons name rest ih =>
    obtain ⟨hempty, hdot, hup, hslash⟩ := proper_of_isName (hnames name List.mem_cons_self)
    have hjoin : stackOf (p.join ⟨name⟩) = name :: stackOf p := by
      rw [stackOf, foldl_segmentsOf_join (isAbsolute_of_slash_not_mem hslash),
        segmentsOf_of_slash_not_mem hslash, List.foldl_cons, List.foldl_nil,
        cleanStep_name hempty hdot hup]
      rfl
    have hrest := ih (fun n hn => hnames n (List.mem_cons_of_mem name hn)) (p.join ⟨name⟩)
    rw [behind, List.foldl_cons, ← behind, hrest, hjoin, List.reverse_cons, List.append_assoc]
    rfl

/-- A walked place is a file below the root under its names from there. -/
theorem exists_below_of_walked (htree : t.IsTree) (hlinkless : Linkless t)
    (hp : p ∈ walkedPlaces t root) :
    ∃ location directories name, t.locate? root = some location ∧
      p = ⟨behind root (directories ++ [name]), virtualOf (directories ++ [name])⟩ ∧
      IsFileAt t (location ++ (directories ++ [name])) ∧
      ∀ n ∈ directories ++ [name], isName n = true := by
  obtain ⟨found, hfound, rfl⟩ := List.mem_map.1 hp
  obtain ⟨location, below, hlocate, hne, rfl, hfile⟩ :=
    exists_below_of_mem_walk htree hlinkless hfound
  obtain ⟨content, executable, hentry⟩ := hfile
  have hmem := mem_entries_of_entryAt (by simp [hne]) hentry
  have hbelow := List.dropLast_concat_getLast hne
  refine ⟨location, below.dropLast, below.getLast hne, hlocate, ?_, ⟨content, executable, ?_⟩, ?_⟩
  · rw [hbelow]
    rfl
  · rwa [hbelow]
  · rw [hbelow]
    exact fun n hn => htree.named _ hmem n (List.mem_append_right location hn)

theorem segmentsOf_virtualOf {below : List String} (hne : below ≠ [])
    (hnames : ∀ n ∈ below, isName n = true) : segmentsOf (virtualOf below) = below :=
  segmentsOf_joinSegments hne fun n hn => (proper_of_isName (hnames n hn)).2.2.2

theorem foldl_cleanStep_names (rooted : Bool) {names : List String} (done : List String)
    (hnames : ∀ n ∈ names, isName n = true) :
    names.foldl (cleanStep rooted) done = names.reverse ++ done := by
  induction names generalizing done with
  | nil => rfl
  | cons name rest ih =>
    obtain ⟨hempty, hdot, hup, -⟩ := proper_of_isName (hnames name List.mem_cons_self)
    rw [List.foldl_cons, cleanStep_name hempty hdot hup,
      ih (name :: done) fun n hn => hnames n (List.mem_cons_of_mem name hn), List.reverse_cons,
      List.append_assoc]
    rfl

theorem ledFrom_of_walked (htree : t.IsTree) (hlinkless : Linkless t)
    (hp : p ∈ walkedPlaces t root) (hfile : t.isFile p.real = true)
    (hplain : '\\' ∉ p.virtual.toList) :
    ∃ names name, LedFrom (walkBase root) p 0 names ∧ Keyed t p name := by
  obtain ⟨location, directories, name, -, rfl, -, hnames⟩ :=
    exists_below_of_walked htree hlinkless hp
  have hdirectories : ∀ n ∈ directories, isName n = true := fun n hn =>
    hnames n (List.mem_append_left [name] hn)
  obtain ⟨other, hstands⟩ := exists_standsIn hlinkless hfile
  have hstack : stackOf (behind root (directories ++ [name])) = other :: _ := hstands.segments
  rw [stackOf_behind hnames, List.reverse_append, List.reverse_singleton, List.singleton_append,
    List.cons_append] at hstack
  obtain ⟨rfl, hreal⟩ := List.cons.inj hstack
  have hsegments := segmentsOf_virtualOf (by simp) hnames
  have hhead : (segmentsOf (virtualOf (directories ++ [name]))).head? ≠ some "" := by
    rw [hsegments]
    intro hhead
    exact (proper_of_isName (hnames "" (List.mem_of_head? hhead))).1 rfl
  obtain ⟨hunrooted, hvirtual⟩ := virtual_of_plain hplain hhead
  refine ⟨directories.reverse, name, ⟨?_, hunrooted, hreal.symm, ?_⟩, hstands, ?_⟩
  · intro hmem
    exact (proper_of_isName (hdirectories ".." (List.mem_reverse.1 hmem))).2.2.1 rfl
  · rw [hvirtual]
    show (segmentsOf (virtualOf (directories ++ [name]))).dropLast.foldl (cleanStep false) [] = _
    rw [hsegments, List.dropLast_concat, foldl_cleanStep_names false [] hdirectories]
    rfl
  · show (segmentsOf (virtualOf (directories ++ [name]))).getLast? = some name
    rw [hsegments, List.getLast?_concat]

theorem segmentsOf_targetOf_module (hkind : i.kind = .module) :
    segmentsOf (r.targetOf p i).virtual =
      segmentsOf r.modulePrefix ++ segmentsOf i.specifier := by
  have hvirtual : (r.targetOf p i).virtual = r.modulePrefix ++ "/" ++ i.specifier := by
    rw [targetOf, locate, hkind]
  rw [hvirtual, segmentsOf_append_slash]

theorem head?_segmentsOf_ne {text : String} (hempty : text ≠ "") (hrooted : isRooted text = false) :
    (segmentsOf text).head? ≠ some "" := by
  intro hhead
  obtain ⟨rest, hrest⟩ := List.head?_eq_some_iff.1 hhead
  cases rest with
  | nil =>
    apply hempty
    rw [← joinSegments_segmentsOf text, hrest]
    rfl
  | cons next rest =>
    rw [isRooted_iff.2 ⟨next :: rest, List.cons_ne_nil next rest, hrest⟩] at hrooted
    cases hrooted

/-- The real path of a module is the specifier behind the module directory, or the
specifier itself. -/
theorem exists_base_of_module (root : Path) (hlinkless : Linkless t) (hkind : i.kind = .module)
    (hfile : t.isFile (r.targetOf p i).real = true) {directories : List String} {last : String}
    (hspecifier : segmentsOf i.specifier = directories ++ [last]) :
    ∃ b ∈ origins r root, ".." ∉ b.real ∧
      b.virtual = (segmentsOf r.modulePrefix).foldl (cleanStep false) [] ∧
      realStack (r.targetOf p i) = directories.foldl (cleanStep true) b.real ∧
      StandsIn t (r.targetOf p i) last := by
  obtain ⟨front, name, hsegments, -, -, -, hreal, hstands⟩ :=
    exists_standsIn_segments hlinkless hfile
  have htarget : (r.targetOf p i).real = r.moduleDir.join ⟨i.specifier⟩ := by
    rw [targetOf, locate, hkind]
  rw [htarget] at hsegments
  by_cases habsolute : Path.isAbsolute ⟨i.specifier⟩ = true
  · rw [join, if_pos habsolute] at hsegments
    have hboth : directories ++ [last] = ("" :: front) ++ [name] := hspecifier.symm.trans hsegments
    obtain ⟨rfl, hlast⟩ := List.append_inj' hboth rfl
    obtain rfl : last = name := by simpa using hlast
    refine ⟨absoluteBase r, by simp [origins], by simp [absoluteBase], rfl, ?_, hstands⟩
    rw [hreal, List.foldl_cons, cleanStep_idle (.inl rfl)]
    rfl
  · have hrelative : Path.isAbsolute ⟨i.specifier⟩ = false := by simpa using habsolute
    obtain ⟨before, hjoined, hbefore⟩ := exists_segmentsOf_join r.moduleDir hrelative
    rw [hjoined, hspecifier, ← List.append_assoc] at hsegments
    have hboth : (before ++ directories) ++ [last] = ("" :: front) ++ [name] := hsegments
    obtain ⟨hfront, hlast⟩ := List.append_inj' hboth rfl
    obtain rfl : last = name := by simpa using hlast
    have hstack : before.foldl (cleanStep true) [] = stackOf r.moduleDir := by
      rw [stackOf]
      rcases hbefore with hsame | hidle
      · rw [hsame]
      · rw [hidle, List.foldl_append, List.foldl_cons, List.foldl_nil, cleanStep_idle (.inl rfl)]
    have hdirectories : (before ++ directories).foldl (cleanStep true) [] =
        front.foldl (cleanStep true) [] := by
      rw [hfront, List.foldl_cons, cleanStep_idle (.inl rfl)]
    refine ⟨moduleBase r, by simp [origins], up_not_mem_stackOf r.moduleDir, rfl, ?_, hstands⟩
    rw [hreal, ← hdirectories, List.foldl_append, hstack]
    rfl

theorem exists_ledFrom_of_module (hlinkless : Linkless t) (hkind : i.kind = .module)
    (hprefixed : Prefixed r)
    (hfile : t.isFile (r.targetOf p i).real = true)
    (hplain : '\\' ∉ (r.targetOf p i).virtual.toList) :
    ∃ b ∈ origins r root, ∃ count names name,
      LedFrom b (r.targetOf p i) count names ∧ Keyed t (r.targetOf p i) name := by
  have hspecifier := (List.dropLast_concat_getLast (segmentsOf_ne_nil i.specifier)).symm
  have hsegments := segmentsOf_targetOf_module (r := r) (p := p) hkind
  obtain ⟨b, hb, hup, hbase, hreal, hstands⟩ :=
    exists_base_of_module root hlinkless hkind hfile hspecifier
  have hhead : (segmentsOf (r.targetOf p i).virtual).head? ≠ some "" := by
    rw [hsegments, List.head?_append_of_ne_nil _ (segmentsOf_ne_nil _)]
    exact head?_segmentsOf_ne hprefixed.not_empty hprefixed.unrooted
  obtain ⟨hunrooted, hvirtual⟩ := virtual_of_plain hplain hhead
  rw [hspecifier, ← List.append_assoc] at hsegments
  rw [hsegments, List.dropLast_concat, List.foldl_append, ← hbase] at hvirtual
  refine ⟨b, hb, _, _, _, ledFrom_of_foldl hunrooted hup hreal hvirtual, hstands, ?_⟩
  rw [hsegments, List.getLast?_concat]

/-! ## Every way -/

/-- No file has a virtual path with a backslash, and no relative import of one is
written with a backslash. -/
structure Slashed (r : Resolver) (t : FileTree) (root : Path) : Prop where
  places : ∀ p, Reachable r t root p → t.isFile p.real = true → '\\' ∉ p.virtual.toList
  specifiers : NoBackslashes r t root

theorem IsClosed.slashed {places : List Place} (h : IsClosed r t root places)
    (hplaces : ∀ p ∈ places, '\\' ∉ p.virtual.toList)
    (hspecifiers : ∀ p ∈ places, ∀ text ∈ t.text? p.real, ∀ i ∈ Import.scan text,
      i.kind = .relative → '\\' ∉ i.specifier.toList) : Slashed r t root where
  places := fun p hp _ => hplaces p (h.mem_of_reachable hp)
  specifiers := fun p hp => hspecifiers p (h.mem_of_reachable hp)

theorem keyed_of_steps (hstands : StandsIn t q name) (hsteps : Steps b q count name names)
    (hunrooted : b.rooted = false) : Keyed t q name := by
  refine ⟨hstands, ?_⟩
  rw [hsteps.virtual, hunrooted, segmentsOf_render_unrooted, List.reverse_cons,
    List.getLast?_concat]
  · have hunslashed := hsteps.unslashed
    rw [hunrooted] at hunslashed
    exact hunslashed.1
  · exact List.cons_ne_nil _ _

/-- Every file that is reached is told by one of the places that ways begin at. -/
theorem exists_origin (htree : t.IsTree) (hlinkless : Linkless t) (hslashed : Slashed r t root)
    (hprefixed : Prefixed r)
    (hp : Reachable r t root p) (hfile : t.isFile p.real = true) :
    ∃ b ∈ origins r root, ∃ count names name, LedFrom b p count names ∧ Keyed t p name := by
  have hplain := hslashed.places p hp hfile
  induction hp with
  | walked hwalked =>
    obtain ⟨names, name, hled, hkeyed⟩ := ledFrom_of_walked htree hlinkless hwalked hfile hplain
    exact ⟨walkBase root, by simp [origins], 0, names, name, hled, hkeyed⟩
  | @imported p q hp himports ih =>
    obtain ⟨text, htext, i, hi, rfl⟩ := himports
    cases hkind : i.kind with
    | module => exact exists_ledFrom_of_module hlinkless hkind hprefixed hfile hplain
    | relative =>
      have hpfile := isFile_of_text? htext
      obtain ⟨b, hb, count, names, -, hled, -⟩ := ih hpfile (hslashed.places p hp hpfile)
      obtain ⟨name, names', -, hstands, hsteps⟩ := exists_steps hlinkless hpfile hkind
        (hslashed.specifiers p hp text htext i hi hkind) hfile
      exact ⟨b, hb, _, _, name, hled.step hsteps, keyed_of_steps hstands hsteps hled.unrooted⟩

theorem exists_ledFrom (htree : t.IsTree) (hlinkless : Linkless t) (hslashed : Slashed r t root)
    (hprefixed : Prefixed r) (hp : Reachable r t root p) (hfile : t.isFile p.real = true) :
    ∃ b ∈ origins r root, ∃ count names, LedFrom b p count names := by
  obtain ⟨b, hb, count, names, -, hled, -⟩ :=
    exists_origin htree hlinkless hslashed hprefixed hp hfile
  exact ⟨b, hb, count, names, hled⟩

theorem exists_keyed (htree : t.IsTree) (hlinkless : Linkless t) (hslashed : Slashed r t root)
    (hprefixed : Prefixed r) (hp : Reachable r t root p) (hfile : t.isFile p.real = true) :
    ∃ name, Keyed t p name := by
  obtain ⟨-, -, -, -, name, -, hkeyed⟩ :=
    exists_origin htree hlinkless hslashed hprefixed hp hfile
  exact ⟨name, hkeyed⟩

end SolidityBuild.Resolver
