import SolidityBuild.Proofs.Source.RootPaths

/-!
When virtual paths are paths from the root in normal form. The walk gives nothing
else but names with backslashes. A relative import keeps to such paths exactly if
its specifier takes back no more names than the virtual path of its file has in front
of the last, and leaves one; an import of a module, exactly if its specifier is
such a path itself, since that is put behind the prefix as it stands.
-/

namespace SolidityBuild.Resolver

open SolidityBuild.Path FileTree

variable {r : Resolver} {t : FileTree} {root : Path} {p q : Place} {i : Import}
  {key virtual specifier : String} {stack : List String} {moduleDir : Path}

/-- A path from the root in normal form: names between single slashes. -/
structure Canonical (key : String) : Prop where
  nonempty : key ≠ ""
  no_leading_slash : key.toList.head? ≠ some '/'
  no_trailing_slash : key.toList.getLast? ≠ some '/'
  no_backslash : '\\' ∉ key.toList
  names : ∀ s ∈ segmentsOf key, s ≠ "" ∧ s ≠ "." ∧ s ≠ ".."

/-- A path that an import statement would take from the directory of its file. -/
def IsRelative (path : String) : Prop :=
  (segmentsOf path).head? = some "." ∨ (segmentsOf path).head? = some ".."

instance (path : String) : Decidable (IsRelative path) := inferInstanceAs (Decidable (_ ∨ _))

/-! ## Normal forms -/

/-- The segments tell whether there is a slash at either end. -/
theorem canonical_iff :
    Canonical key ↔ '\\' ∉ key.toList ∧ ∀ s ∈ segmentsOf key, s ≠ "" ∧ s ≠ "." ∧ s ≠ ".." := by
  refine ⟨fun h => ⟨h.no_backslash, h.names⟩, fun ⟨hplain, hnames⟩ => ⟨?_, ?_, ?_, hplain, hnames⟩⟩
  · rintro rfl
    exact (hnames "" (by decide)).1 rfl
  · intro hhead
    obtain ⟨rest, -, hrest⟩ := isRooted_iff.1 (decide_eq_true hhead)
    exact (hnames "" (by rw [hrest]; exact List.mem_cons_self)).1 rfl
  · intro hlast
    obtain ⟨front, hfront⟩ := List.getLast?_eq_some_iff.1 hlast
    have hkey : key = String.ofList front ++ "/" ++ "" := by
      apply String.toList_injective
      rw [hfront]
      simp
    exact (hnames "" (by rw [hkey, segmentsOf_append_slash]; simp [segmentsOf_empty])).1 rfl

instance : Decidable (Canonical key) := decidable_of_iff _ canonical_iff.symm

theorem Canonical.not_isRelative (h : Canonical key) : ¬ IsRelative key := by
  rintro (hhead | hhead)
  · exact (h.names _ (List.mem_of_head? hhead)).2.1 rfl
  · exact (h.names _ (List.mem_of_head? hhead)).2.2 rfl

theorem Canonical.unslashed (h : Canonical key) : Unslashed (segmentsOf key).reverse := by
  refine ⟨fun s hs => ?_, fun s hs => ?_⟩
  · obtain ⟨hempty, hdot, -⟩ := h.names s (List.mem_reverse.1 hs)
    exact ⟨hempty, hdot, slash_not_mem_of_mem_segmentsOf (List.mem_reverse.1 hs)⟩
  · exact backslash_not_mem_segment h.no_backslash (List.mem_reverse.1 hs)

theorem canonical_render_iff (h : Unslashed stack) :
    Canonical (render false stack) ↔ stack ≠ [] ∧ ".." ∉ stack := by
  rw [canonical_iff]
  by_cases hnil : stack = []
  · subst hnil
    have hdot : segmentsOf (render false []) = ["."] := by decide
    rw [hdot]
    simp
  · rw [segmentsOf_render_unrooted h.1 hnil]
    constructor
    · rintro ⟨-, hnames⟩
      exact ⟨hnil, fun hup => (hnames ".." (List.mem_reverse.2 hup)).2.2 rfl⟩
    · rintro ⟨-, hup⟩
      refine ⟨backslash_not_mem_render false h.2, fun s hs => ?_⟩
      obtain ⟨hempty, hdot, -⟩ := h.1 s (List.mem_reverse.1 hs)
      refine ⟨hempty, hdot, ?_⟩
      rintro rfl
      exact hup (List.mem_reverse.1 hs)

theorem Canonical.up_not_mem (h : Canonical key) : ".." ∉ (segmentsOf key).dropLast.reverse :=
  fun hup => (h.names ".." (List.dropLast_subset _ (List.mem_reverse.1 hup))).2.2 rfl

/-- The virtual directory of a canonical path has its names but the last. -/
theorem Canonical.virtualStack (h : Canonical p.virtual) :
    virtualRooted p = false ∧
      Resolver.virtualStack p = (segmentsOf p.virtual).dropLast.reverse := by
  have hsegments := List.dropLast_concat_getLast (segmentsOf_ne_nil p.virtual)
  have hunslashed := h.unslashed
  rw [← hsegments, List.reverse_concat] at hunslashed
  have hvirtual : p.virtual = render false ((segmentsOf p.virtual).getLast
      (segmentsOf_ne_nil p.virtual) :: (segmentsOf p.virtual).dropLast.reverse) := by
    rw [← List.reverse_concat, hsegments, render, if_neg Bool.false_ne_true, if_neg,
      List.reverse_reverse, joinSegments_segmentsOf]
    simpa using segmentsOf_ne_nil p.virtual
  have hclean : CleanStack false (segmentsOf p.virtual).dropLast.reverse :=
    ⟨_, 0, (List.append_nil _).symm, h.up_not_mem, fun h => by cases h⟩
  obtain ⟨hrooted, hstack⟩ := virtualStack_of_render hvirtual hunslashed hclean
  exact ⟨by simpa using hrooted, hstack⟩

/-! ## Imports -/

/-- A specifier takes back fewer names than a virtual path has, and one is there
afterwards. -/
structure StaysInside (virtual specifier : String) : Prop where
  taken : (net (segmentsOf (slashed specifier))).1 < (segmentsOf virtual).length
  left : (net (segmentsOf (slashed specifier))).2 ≠ [] ∨
    (net (segmentsOf (slashed specifier))).1 + 1 < (segmentsOf virtual).length

theorem staysInside_iff : StaysInside virtual specifier ↔
    (net (segmentsOf (slashed specifier))).1 < (segmentsOf virtual).length ∧
      ((net (segmentsOf (slashed specifier))).2 ≠ [] ∨
        (net (segmentsOf (slashed specifier))).1 + 1 < (segmentsOf virtual).length) :=
  ⟨fun h => ⟨h.taken, h.left⟩, fun h => ⟨h.1, h.2⟩⟩

instance : Decidable (StaysInside virtual specifier) := decidable_of_iff _ staysInside_iff.symm

/-- An import leads from a canonical virtual path to another one. -/
def StaysCanonical (virtual : String) (i : Import) : Prop :=
  (i.kind = .relative → StaysInside virtual i.specifier) ∧
    (i.kind = .module → Canonical i.specifier)

instance : Decidable (StaysCanonical virtual i) := inferInstanceAs (Decidable (_ ∧ _))

theorem canonical_relative_iff (hp : Canonical p.virtual) (hkind : i.kind = .relative) :
    Canonical (r.targetOf p i).virtual ↔ StaysInside p.virtual i.specifier := by
  obtain ⟨hrooted, hstack⟩ := hp.virtualStack
  have hunslashed := unslashed_foldl false (unslashed_virtualStack p)
    (backslash_not_mem_slashed i.specifier)
  have hup := hp.up_not_mem
  have hput := up_not_mem_net (segmentsOf (slashed i.specifier))
  have hlength := List.length_pos_of_ne_nil (segmentsOf_ne_nil p.virtual)
  rw [targetOf_virtual_slashed hkind, hrooted, canonical_render_iff hunslashed, foldl_cleanStep_eq,
    hstack, pops_names hup]
  have hheight : (segmentsOf p.virtual).dropLast.reverse.length + 1 =
      (segmentsOf p.virtual).length := by
    rw [List.length_reverse, List.length_dropLast]
    omega
  generalize (segmentsOf p.virtual).dropLast.reverse = level at *
  constructor
  · rintro ⟨hne, hnone⟩
    have htaken : (net (segmentsOf (slashed i.specifier))).1 ≤ level.length := by
      by_contra htaken
      refine hnone (List.mem_append_right _ (List.mem_append_right _ ?_))
      exact List.mem_replicate.2 ⟨by omega, rfl⟩
    refine ⟨by omega, ?_⟩
    by_contra hleft
    obtain ⟨hnothing, hall⟩ := not_or.1 hleft
    apply hne
    rw [not_not.1 hnothing, List.drop_eq_nil_of_le (by omega), Nat.sub_eq_zero_of_le htaken]
    rfl
  · rintro ⟨htaken, hleft⟩
    rw [Nat.sub_eq_zero_of_le (by omega : _ ≤ level.length), List.replicate_zero, List.append_nil]
    refine ⟨fun hnil => ?_, fun hmem => ?_⟩
    · obtain ⟨hnothing, hall⟩ := List.append_eq_nil_iff.1 hnil
      have hdropped := List.drop_eq_nil_iff.1 hall
      rcases hleft with hleft | hleft
      · exact hleft hnothing
      · omega
    · rcases List.mem_append.1 hmem with hmem | hmem
      · exact hput hmem
      · exact hup (List.mem_of_mem_drop hmem)

theorem canonical_module_iff (hkind : i.kind = .module) :
    Canonical ((ofModuleDir moduleDir).targetOf p i).virtual ↔ Canonical i.specifier := by
  have hvirtual : ((ofModuleDir moduleDir).targetOf p i).virtual =
      defaultPrefix ++ "/" ++ i.specifier := by
    rw [targetOf, locate, hkind]
    rfl
  have hprefix : segmentsOf defaultPrefix = ["node_modules"] := by decide
  have hplain : '\\' ∈ (defaultPrefix ++ "/" ++ i.specifier).toList ↔
      '\\' ∈ i.specifier.toList := by simp [defaultPrefix]
  rw [canonical_iff, canonical_iff, hvirtual, hplain, segmentsOf_append_slash, hprefix,
    List.singleton_append, List.forall_mem_cons]
  exact and_congr_right' (and_iff_right (by decide))

theorem not_isRelative_module (hkind : i.kind = .module) :
    ¬ IsRelative ((ofModuleDir moduleDir).targetOf p i).virtual := by
  have hsegments := segmentsOf_targetOf_module (r := ofModuleDir moduleDir) (p := p) hkind
  have hprefix : segmentsOf (ofModuleDir moduleDir).modulePrefix = ["node_modules"] := by
    show segmentsOf defaultPrefix = _
    decide
  rw [IsRelative, hsegments, hprefix]
  simp

theorem canonical_targetOf_iff (hp : Canonical p.virtual) :
    Canonical ((ofModuleDir moduleDir).targetOf p i).virtual ↔ StaysCanonical p.virtual i := by
  unfold StaysCanonical
  cases hkind : i.kind with
  | relative => simpa using canonical_relative_iff hp hkind
  | module => simpa using canonical_module_iff hkind

/-! ## Keys -/

/-- The names of a walked file are names. -/
theorem canonical_walked_iff (htree : t.IsTree) (hp : p ∈ walkedPlaces t root) :
    Canonical p.virtual ↔ '\\' ∉ p.virtual.toList := by
  obtain ⟨found, hfound, rfl⟩ := List.mem_map.1 hp
  obtain ⟨hne, hnames⟩ := isName_of_mem_walk htree hfound
  refine ⟨Canonical.no_backslash, fun hplain => canonical_iff.2 ⟨hplain, ?_⟩⟩
  show ∀ s ∈ segmentsOf (virtualOf found.names), _
  rw [segmentsOf_virtualOf hne hnames]
  intro s hs
  obtain ⟨hempty, hdot, hup, -⟩ := proper_of_isName (hnames s hs)
  exact ⟨hempty, hdot, hup⟩

variable {entered : List Place} {sources : SourceSet} {depth : Nat}

/-- Canonical paths stay so from each place to those that are entered from it. -/
theorem canonical_of_traced {known places : List Place}
    (htraced : Traced r t (walkedPlaces t root) known places) (hplaces : places ⊆ entered)
    (hknown : ∀ p ∈ known, p ∈ entered ∧ Canonical p.virtual)
    (hwalked : ∀ p ∈ walkedPlaces t root, Canonical p.virtual)
    (hstep : ∀ p ∈ entered, Canonical p.virtual → ∀ q ∈ entered, Imports r t p q →
      Canonical q.virtual) : ∀ q ∈ places, Canonical q.virtual := by
  induction places generalizing known with
  | nil =>
    intro q hq
    cases hq
  | cons p rest ih =>
    obtain ⟨horigin, hrest⟩ := htraced
    obtain ⟨hentered, hsub⟩ := List.cons_subset.1 hplaces
    have hp : Canonical p.virtual := by
      rcases horigin with hstart | ⟨p', hp', himports⟩
      · exact hwalked p hstart
      · exact hstep p' (hknown p' hp').1 (hknown p' hp').2 p hentered himports
    exact List.forall_mem_cons.2
      ⟨hp, ih hrest hsub (List.forall_mem_cons.2 ⟨⟨hentered, hp⟩, hknown⟩)⟩

/-- The imports of every file that was entered which lead to a file keep to canonical
paths. -/
def AllStay (r : Resolver) (t : FileTree) (entered : List Place) : Prop :=
  ∀ p ∈ entered, ∀ text ∈ t.text? p.real, ∀ i ∈ Import.scan text,
    t.isFile (r.targetOf p i).real = true → StaysCanonical p.virtual i

instance : Decidable (AllStay r t entered) :=
  inferInstanceAs (Decidable (∀ p ∈ entered, _))

theorem AllStay.mono {entered' : List Place} (h : AllStay r t entered')
    (hsub : entered ⊆ entered') : AllStay r t entered :=
  fun p hp => h p (hsub hp)

theorem canonical_of_allStay (htree : t.IsTree)
    (hresolves : Resolves (ofModuleDir moduleDir) t root entered (.ok sources))
    (hplain : ∀ p ∈ walkedPlaces t root, '\\' ∉ p.virtual.toList)
    (hstay : AllStay (ofModuleDir moduleDir) t entered) :
    ∀ q ∈ entered, Canonical q.virtual := by
  have hsettled := (settled_of_resolves hresolves).2
  refine canonical_of_traced (traced_of_resolves hresolves) (List.Subset.refl _) (by simp)
    (fun p hp => (canonical_walked_iff htree hp).2 (hplain p hp)) ?_
  rintro p hp hcanonical q hq ⟨text, htext, i, hi, rfl⟩
  obtain ⟨-, _, hfile, -⟩ := hsettled _ hq
  exact (canonical_targetOf_iff hcanonical).2 (hstay p hp text htext i hi (isFile_of_text? hfile))

/-- The keys of a resolved set are the virtual paths of the files that were entered.
All of them are canonical exactly if no name of a walked file has a backslash, and
every import of such a file that leads to a file stays canonical. A relative one does
unless it takes back more names than there are; one of a module does if its specifier
is canonical itself. Where all keys are canonical, no import is redirected to a relative
path. -/
theorem canonical_keys_iff (htree : t.IsTree)
    (hresolve : (ofModuleDir moduleDir).resolveWithin t depth root = .ok sources) :
    ∃ entered, Resolves (ofModuleDir moduleDir) t root entered (.ok sources) ∧
      (∀ key, sources.contains key = true ↔ ∃ p ∈ entered, p.virtual = key) ∧
      (∀ p ∈ entered, Canonical p.virtual → ∀ i,
        (Canonical ((ofModuleDir moduleDir).targetOf p i).virtual ↔
          StaysCanonical p.virtual i)) ∧
      ((∀ key, sources.contains key = true → Canonical key) ↔
        (∀ p ∈ walkedPlaces t root, '\\' ∉ p.virtual.toList) ∧
          AllStay (ofModuleDir moduleDir) t entered) ∧
      ((∀ key, sources.contains key = true → Canonical key) → ∀ p ∈ entered, ∀ text,
        t.text? p.real = some text → ∀ i ∈ Import.scan text,
          ¬ IsRelative ((ofModuleDir moduleDir).virtualTarget (virtualParent p.virtual) i)) := by
  obtain ⟨entered, hresolves⟩ := resolves_of_resolveWithin hresolve (ends_ok sources)
  obtain ⟨hwalked, hsettled⟩ := settled_of_resolves hresolves
  have hkeys : ∀ key, sources.contains key = true ↔ ∃ p ∈ entered, p.virtual = key := by
    intro key
    constructor
    · intro hkey
      obtain ⟨owner, howner, hvirtual, -⟩ := exists_owner hresolves hkey
      exact ⟨owner, howner, hvirtual⟩
    · rintro ⟨p, hp, rfl⟩
      exact (hsettled p hp).1
  refine ⟨entered, hresolves, hkeys, fun p _ hp i => canonical_targetOf_iff hp, ⟨?_, ?_⟩, ?_⟩
  · intro hcanonical
    refine ⟨fun p hp => (hcanonical _ (hsettled p (hwalked hp)).1).no_backslash, ?_⟩
    intro p hp text htext i hi hfile
    have htarget := contains_of_imports hresolves hp ⟨text, htext, i, hi, rfl⟩ hfile
    exact (canonical_targetOf_iff (hcanonical _ (hsettled p hp).1)).1 (hcanonical _ htarget)
  · rintro ⟨hplain, hstay⟩ key hkey
    obtain ⟨p, hp, rfl⟩ := (hkeys key).1 hkey
    exact canonical_of_allStay htree hresolves hplain hstay p hp
  · intro hcanonical p hp text htext i hi
    obtain ⟨-, text', htext', himports⟩ := hsettled p hp
    obtain rfl : text = text' := Option.some.inj (htext.symm.trans htext')
    rw [← locate_virtual]
    rcases himports i hi with hcontains | ⟨-, hmodule⟩
    · exact (hcanonical _ hcontains).not_isRelative
    · exact not_isRelative_module hmodule

/-- In `circle` every key is canonical, since both of its imports stay. In `detour`
one import leaves the root and comes back, and gets a relative path for it. -/
theorem circle_canonical_detour_not :
    (∃ sources, (ofModuleDir ⟨"/m"⟩).resolveWithin circle 3 ⟨"/c"⟩ = .ok sources ∧
      ∀ key, sources.contains key = true → Canonical key) ∧
    ∃ sources entered, (ofModuleDir ⟨"/m"⟩).resolveWithin detour 3 ⟨"/c"⟩ = .ok sources ∧
      Resolves (ofModuleDir ⟨"/m"⟩) detour ⟨"/c"⟩ entered (.ok sources) ∧
      sources.contains "../c/B.sol" = true ∧ ¬ AllStay (ofModuleDir ⟨"/m"⟩) detour entered ∧
      IsRelative ((ofModuleDir ⟨"/m"⟩).virtualTarget "" importB) := by
  constructor
  · have htree : circle.IsTree := by constructor <;> decide +kernel
    have hclosed : IsClosed (ofModuleDir ⟨"/m"⟩) circle ⟨"/c"⟩ circlePlaces := by decide +kernel
    have hstay : AllStay (ofModuleDir ⟨"/m"⟩) circle circlePlaces := by decide +kernel
    obtain ⟨sources, hresolve⟩ := circle_resolves
    obtain ⟨entered, hresolves, -, -, hiff, -⟩ := canonical_keys_iff htree hresolve
    refine ⟨sources, hresolve, hiff.2 ⟨by decide +kernel, hstay.mono fun p hp => ?_⟩⟩
    exact hclosed.mem_of_reachable
      (reachable_of_traced (traced_of_resolves hresolves) (by simp) p hp)
  · obtain ⟨sources, hresolve⟩ := ok_detour
    obtain ⟨entered, hresolves, hkeys, -, hiff, -⟩ := canonical_keys_iff isTree_detour hresolve
    have hA : detourA ∈ entered := (settled_of_resolves hresolves).1 (by decide +kernel)
    have hkey : sources.contains "../c/B.sol" = true := by
      refine contains_of_imports (q := (ofModuleDir ⟨"/m"⟩).targetOf detourA importB) hresolves hA
        ⟨"import \"../c/B.sol\";\n", by decide +kernel, importB, by decide +kernel, rfl⟩ ?_
      decide +kernel
    have hleaves : ¬ Canonical "../c/B.sol" := by decide +kernel
    exact ⟨sources, entered, hresolve, hresolves, hkey,
      fun hstay => hleaves (hiff.2 ⟨by decide +kernel, hstay⟩ _ hkey), by decide +kernel⟩

end SolidityBuild.Resolver
