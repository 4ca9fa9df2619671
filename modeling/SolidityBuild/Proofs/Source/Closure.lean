import SolidityBuild.Proofs.Source.Contents

/-!
The resolved set is the closure of the walk under imports. The places in
question are the walked ones and those that imports lead to; they are defined
without a run. If no virtual path stands for two files, then every run that ends
ends well exactly when the walk was complete, every file could be read and every
relative import led to a file, and then its keys are the virtual paths of the
files that can be reached. This holds in whatever order files are walked and
imports are followed.
-/

namespace SolidityBuild.Resolver

/-- The places that walking and imports lead to, whether or not there is a file. -/
inductive Reachable (r : Resolver) (t : FileTree) (root : Path) : Place → Prop
  | walked {p : Place} (hwalked : p ∈ walkedPlaces t root) : Reachable r t root p
  | imported {p q : Place} (hp : Reachable r t root p) (himports : Imports r t p q) :
      Reachable r t root q

/-- No virtual path is that of two reachable places with different real paths. -/
def Unconfused (r : Resolver) (t : FileTree) (root : Path) : Prop :=
  ∀ p q, Reachable r t root p → Reachable r t root q → p.virtual = q.virtual → p.real = q.real

/-- Every reachable file can be read as text. -/
def AllReadable (r : Resolver) (t : FileTree) (root : Path) : Prop :=
  ∀ p, Reachable r t root p → p ∈ walkedPlaces t root ∨ t.isFile p.real = true →
    ∃ text, t.text? p.real = some text

/-- Every relative import of a reachable file leads to a file. -/
def AllLocated (r : Resolver) (t : FileTree) (root : Path) : Prop :=
  ∀ p, Reachable r t root p → ∀ text, t.text? p.real = some text →
    ∀ i ∈ Import.scan text, i.kind = .relative → t.isFile (r.targetOf p i).real = true

/-- The outcome of a run is the closure of the walk under imports. -/
structure IsClosure (r : Resolver) (t : FileTree) (root : Path)
    (outcome : Except ResolveError SourceSet) : Prop where
  succeeds_iff : (∃ sources, outcome = .ok sources) ↔
    (t.walk root).complete = true ∧ AllReadable r t root ∧ AllLocated r t root
  mem_keys_iff : ∀ sources, outcome = .ok sources → ∀ key,
    key ∈ sources.keys ↔
      ∃ p, Reachable r t root p ∧ t.isFile p.real = true ∧ p.virtual = key

variable {r : Resolver} {t : FileTree} {root : Path}

theorem isFile_of_text? {path : Path} {text : String} (htext : t.text? path = some text) :
    t.isFile path = true := by
  rw [FileTree.isFile, content?_of_text? htext]
  rfl

theorem isFile_of_content? {path : Path} {content : Content}
    (hcontent : t.content? path = some content) : t.isFile path = true := by
  rw [FileTree.isFile, hcontent]
  rfl

theorem not_isFile_of_content? {path : Path} (hcontent : t.content? path = none) :
    t.isFile path ≠ true := by
  rw [FileTree.isFile, hcontent]
  exact Bool.false_ne_true

theorem reachable_of_traced {places known : List Place}
    (htraced : Traced r t (walkedPlaces t root) known places)
    (hknown : ∀ p ∈ known, Reachable r t root p) : ∀ q ∈ places, Reachable r t root q := by
  induction places generalizing known with
  | nil =>
    intro q hq
    cases hq
  | cons p rest ih =>
    obtain ⟨horigin, hrest⟩ := htraced
    have hp : Reachable r t root p := by
      rcases horigin with hwalked | ⟨p', hp', himports⟩
      · exact .walked hwalked
      · exact .imported (hknown p' hp') himports
    intro q hq
    rcases List.mem_cons.1 hq with rfl | hq
    · exact hp
    · refine ih hrest ?_ q hq
      intro p' hp'
      rcases List.mem_cons.1 hp' with rfl | hp'
      · exact hp
      · exact hknown p' hp'

/-- Places that hold the walked ones, and with each place those that it imports. -/
def IsClosed (r : Resolver) (t : FileTree) (root : Path) (places : List Place) : Prop :=
  (∀ p ∈ walkedPlaces t root, p ∈ places) ∧
    ∀ p ∈ places, ∀ text ∈ t.text? p.real, ∀ i ∈ Import.scan text, r.targetOf p i ∈ places

instance (r : Resolver) (t : FileTree) (root : Path) (places : List Place) :
    Decidable (IsClosed r t root places) :=
  inferInstanceAs (Decidable (_ ∧ _))

theorem IsClosed.mem_of_reachable {places : List Place} (h : IsClosed r t root places) {p : Place}
    (hp : Reachable r t root p) : p ∈ places := by
  induction hp with
  | walked hwalked => exact h.1 _ hwalked
  | imported _ himports ih =>
    obtain ⟨text, htext, i, hi, rfl⟩ := himports
    exact h.2 _ ih text htext i hi

/-- Finitely many places show that no two reachable ones are confused. -/
theorem IsClosed.unconfused {places : List Place} (h : IsClosed r t root places)
    (hplaces : ∀ p ∈ places, ∀ q ∈ places, p.virtual = q.virtual → p.real = q.real) :
    Unconfused r t root :=
  fun p q hp hq => hplaces p (h.mem_of_reachable hp) q (h.mem_of_reachable hq)

/-! ## What a run that ends well leaves behind -/

/-- An import is settled if its target stands in the set, or is a module that is
not there. -/
def Settled (r : Resolver) (t : FileTree) (sources : SourceSet) (p : Place) (i : Import) : Prop :=
  sources.contains (r.targetOf p i).virtual = true ∨
    t.content? (r.targetOf p i).real = none ∧ i.kind = .module

/-- A place is settled if it stands in the set, its text can be read, and all
its imports are settled. -/
def SettledPlace (r : Resolver) (t : FileTree) (sources : SourceSet) (q : Place) : Prop :=
  sources.contains q.virtual = true ∧
    ∃ text, t.text? q.real = some text ∧ ∀ i ∈ Import.scan text, Settled r t sources q i

/-- One set has every key of another. -/
def Extends (after before : SourceSet) : Prop :=
  ∀ key, before.contains key = true → after.contains key = true

theorem Extends.trans {first second third : SourceSet} (h : Extends third second)
    (h' : Extends second first) : Extends third first :=
  fun key hkey => h key (h' key hkey)

theorem extends_insert (sources : SourceSet) (key content : String) :
    Extends (sources.insert key content) sources :=
  fun other hother => (TextMap.contains_insert sources key other content).2 (.inr hother)

theorem Accounted.extends {before after : SourceSet} {entered : List Place}
    (h : Accounted r t before after entered) : Extends after before := by
  intro key hkey
  obtain ⟨content, hget⟩ := (TextMap.contains_iff before key).1 hkey
  rcases h key with hkept | ⟨q, _, rfl, text, _, hcontent⟩
  · exact (TextMap.contains_iff after key).2 ⟨content, hkept.trans hget⟩
  · exact (TextMap.contains_iff after q.virtual).2 ⟨_, hcontent⟩

theorem Settled.mono {before after : SourceSet} {p : Place} {i : Import}
    (h : Settled r t before p i) (hextends : Extends after before) : Settled r t after p i := by
  rcases h with hcontains | habsent
  · exact .inl (hextends _ hcontains)
  · exact .inr habsent

theorem SettledPlace.mono {before after : SourceSet} {q : Place}
    (h : SettledPlace r t before q) (hextends : Extends after before) :
    SettledPlace r t after q := by
  obtain ⟨hcontains, text, htext, hsettled⟩ := h
  exact ⟨hextends _ hcontains, text, htext, fun i hi => (hsettled i hi).mono hextends⟩

/-- A place whose imports have been settled is settled once it is put in the set. -/
theorem settledPlace_of_insert {q : Place} {inside : List Import} {text content : String}
    {between after : SourceSet} (htext : t.text? q.real = some text)
    (horder : inside.Perm (Import.scan text)) (hinside : ∀ i ∈ inside, Settled r t between q i)
    (hextends : Extends after (between.insert q.virtual content)) : SettledPlace r t after q := by
  have hclosed := hextends.trans (extends_insert between q.virtual content)
  have hcontains := (TextMap.contains_insert between q.virtual q.virtual content).2 (.inl rfl)
  exact ⟨hextends _ hcontains, text, htext, fun i hi =>
    (hinside i (horder.mem_iff.2 hi)).mono hclosed⟩

theorem settled_of_follows {p : Place} {imports : List Import} {sources after : SourceSet}
    {entered : List Place} (hfollows : Follows r t p imports sources entered (.ok after)) :
    (∀ i ∈ imports, Settled r t after p i) ∧ ∀ q ∈ entered, SettledPlace r t after q := by
  generalize houtcome : Except.ok after = outcome at hfollows
  induction hfollows generalizing after with
  | done => simp
  | known hknown hrest ih =>
    subst houtcome
    obtain ⟨himports, hplaces⟩ := ih rfl
    have hextends := (accounted_of_follows hrest).extends
    exact ⟨List.forall_mem_cons.2 ⟨.inl (hextends _ hknown), himports⟩, hplaces⟩
  | absent _ hcontent hkind _ ih =>
    obtain ⟨himports, hplaces⟩ := ih houtcome
    exact ⟨List.forall_mem_cons.2 ⟨.inr ⟨hcontent, hkind⟩, himports⟩, hplaces⟩
  | missing _ _ _ => cases houtcome
  | unreadable _ _ => cases houtcome
  | @enters p i _ _ _ between text _ _ _ _ hcontent horder _ hrest ihinside ihrest =>
    subst houtcome
    obtain ⟨hinside, hinner⟩ := ihinside rfl
    obtain ⟨himports, houter⟩ := ihrest rfl
    have hextends := (accounted_of_follows hrest).extends
    have htarget := settledPlace_of_insert (text?_of_content? hcontent) horder hinside hextends
    have hclosed := hextends.trans (extends_insert between _ _)
    refine ⟨List.forall_mem_cons.2 ⟨.inl htarget.1, himports⟩,
      List.forall_mem_cons.2 ⟨htarget, ?_⟩⟩
    intro q hq
    rcases List.mem_append.1 hq with hq | hq
    · exact (hinner q hq).mono hclosed
    · exact houter q hq
  | fails _ _ _ _ _ => cases houtcome

theorem settled_of_gathers {places : List Place} {sources after : SourceSet}
    {entered : List Place} (hgathers : Gathers r t places sources entered (.ok after)) :
    places ⊆ entered ∧ ∀ q ∈ entered, SettledPlace r t after q := by
  generalize houtcome : Except.ok after = outcome at hgathers
  induction hgathers generalizing after with
  | done => simp
  | unreadable _ => cases houtcome
  | @adds p rest _ _ between text inner outer _ htext horder hinside hrest ihrest =>
    subst houtcome
    obtain ⟨himports, hinner⟩ := settled_of_follows hinside
    obtain ⟨hplaces, houter⟩ := ihrest rfl
    have hextends := (accounted_of_gathers hrest).extends
    have hp := settledPlace_of_insert htext horder himports hextends
    have hclosed := hextends.trans (extends_insert between _ _)
    refine ⟨List.cons_subset_cons p fun q hq => List.mem_append_right inner (hplaces hq),
      List.forall_mem_cons.2 ⟨hp, ?_⟩⟩
    intro q hq
    rcases List.mem_append.1 hq with hq | hq
    · exact (hinner q hq).mono hclosed
    · exact houter q hq
  | fails _ _ _ => cases houtcome

/-- The entry under the virtual path of a reachable place is that of its file. -/
theorem holds_of_contains (hunconfused : Unconfused r t root) {entered : List Place}
    {sources : SourceSet} (hresolves : Resolves r t root entered (.ok sources)) {p : Place}
    (hp : Reachable r t root p) (hcontains : sources.contains p.virtual = true) :
    p ∈ entered ∧ Holds r t sources p := by
  have hentered := reachable_of_traced (traced_of_resolves hresolves) (by simp)
  obtain ⟨content, hget⟩ := (TextMap.contains_iff ..).1 hcontains
  obtain ⟨q, hq, hvirtual, text, htext, hcontent⟩ := exists_entered_of_get? hresolves hget
  have hreal := hunconfused q p (hentered q hq) hp hvirtual
  have hplace : q = p := by
    cases q
    cases p
    simp only at hvirtual hreal
    rw [hvirtual, hreal]
  subst hplace
  exact ⟨hq, text, htext, hget.trans (congrArg some hcontent)⟩

/-- A run that ends well enters every reachable file: what settles an import of a
place is the entry of a place with the same virtual path, and hence with the same
real path. -/
theorem mem_entered_of_reachable (hunconfused : Unconfused r t root) {entered : List Place}
    {sources : SourceSet} (hresolves : Resolves r t root entered (.ok sources)) {p : Place}
    (hp : Reachable r t root p) (hregular : p ∈ walkedPlaces t root ∨ t.isFile p.real = true) :
    p ∈ entered := by
  cases hresolves with
  | succeeds horder hgathers hcomplete =>
    obtain ⟨hplaces, hsettled⟩ := settled_of_gathers hgathers
    induction hp with
    | walked hwalked => exact hplaces (horder.mem_iff.2 hwalked)
    | @imported p q hp himports ih =>
      rcases hregular with hwalked | hfile
      · exact hplaces (horder.mem_iff.2 hwalked)
      obtain ⟨text, htext, i, hi, rfl⟩ := himports
      have hmem := ih (.inr (isFile_of_text? htext))
      obtain ⟨_, text', htext', hsettled'⟩ := hsettled p hmem
      obtain rfl : text = text' := Option.some.inj (htext.symm.trans htext')
      rcases hsettled' i hi with hcontains | ⟨habsent, _⟩
      · exact (holds_of_contains hunconfused (.succeeds horder hgathers hcomplete)
          (.imported hp ⟨text, htext, i, hi, rfl⟩) hcontains).1
      · exact absurd hfile (not_isFile_of_content? habsent)

/-! ## Why a run ends badly -/

theorem not_intact_of_follows {p : Place} {imports : List Import} {sources : SourceSet}
    {entered : List Place} {e : ResolveError}
    (hfollows : Follows r t p imports sources entered (.error e)) (hp : Reachable r t root p)
    {text : String} (htext : t.text? p.real = some text) (hscanned : imports ⊆ Import.scan text) :
    ¬ (AllReadable r t root ∧ AllLocated r t root) := by
  generalize houtcome : Except.error e = outcome at hfollows
  induction hfollows generalizing text with
  | done => cases houtcome
  | known _ _ ih => exact ih hp htext (List.subset_of_cons_subset hscanned) houtcome
  | absent _ _ _ _ ih => exact ih hp htext (List.subset_of_cons_subset hscanned) houtcome
  | missing _ hcontent hkind =>
    rintro ⟨_, hlocated⟩
    exact not_isFile_of_content? hcontent
      (hlocated _ hp text htext _ (hscanned List.mem_cons_self) hkind)
  | unreadable _ hcontent =>
    rintro ⟨hreadable, _⟩
    have htarget := Reachable.imported hp (imports_of_mem htext hscanned List.mem_cons_self)
    obtain ⟨text', htext'⟩ := hreadable _ htarget (.inr (isFile_of_content? hcontent))
    rw [content?_of_text? htext'] at hcontent
    cases hcontent
  | enters _ _ _ _ _ _ ihrest =>
    exact ihrest hp htext (List.subset_of_cons_subset hscanned) houtcome
  | fails _ hcontent horder _ ihinside =>
    have htarget := Reachable.imported hp (imports_of_mem htext hscanned List.mem_cons_self)
    exact ihinside htarget (text?_of_content? hcontent) horder.subset houtcome

theorem not_intact_of_gathers {places : List Place} {sources : SourceSet}
    {entered : List Place} {e : ResolveError}
    (hgathers : Gathers r t places sources entered (.error e))
    (hplaces : places ⊆ walkedPlaces t root) :
    ¬ (AllReadable r t root ∧ AllLocated r t root) := by
  generalize houtcome : Except.error e = outcome at hgathers
  induction hgathers with
  | done => cases houtcome
  | unreadable htext =>
    rintro ⟨hreadable, _⟩
    have hwalked := hplaces List.mem_cons_self
    obtain ⟨text, htext'⟩ := hreadable _ (.walked hwalked) (.inl hwalked)
    rw [htext] at htext'
    cases htext'
  | adds _ _ _ _ ihrest => exact ihrest (List.subset_of_cons_subset hplaces) houtcome
  | fails htext horder hinside =>
    cases houtcome
    exact not_intact_of_follows hinside (.walked (hplaces List.mem_cons_self)) htext horder.subset

/-! ## Closure -/

theorem isClosure_of_resolves (hunconfused : Unconfused r t root) {entered : List Place}
    {outcome : Except ResolveError SourceSet} (hresolves : Resolves r t root entered outcome) :
    IsClosure r t root outcome := by
  constructor
  · constructor
    · rintro ⟨sources, rfl⟩
      have hmem {p : Place} := mem_entered_of_reachable hunconfused hresolves (p := p)
      cases hresolves with
      | succeeds horder hgathers hcomplete =>
        obtain ⟨_, hsettled⟩ := settled_of_gathers hgathers
        refine ⟨hcomplete, ?_, ?_⟩
        · intro p hp hregular
          obtain ⟨_, text, htext, _⟩ := hsettled p (hmem hp hregular)
          exact ⟨text, htext⟩
        · intro p hp text htext i hi hkind
          obtain ⟨_, text', htext', himports⟩ :=
            hsettled p (hmem hp (.inr (isFile_of_text? htext)))
          obtain rfl : text = text' := Option.some.inj (htext.symm.trans htext')
          rcases himports i hi with hcontains | ⟨_, hmodule⟩
          · obtain ⟨_, text', htext', _⟩ := holds_of_contains hunconfused
              (.succeeds horder hgathers hcomplete) (.imported hp ⟨text, htext, i, hi, rfl⟩)
              hcontains
            exact isFile_of_text? htext'
          · rw [hkind] at hmodule
            cases hmodule
    · rintro ⟨hcomplete, hintact⟩
      cases hresolves with
      | succeeds _ _ _ => exact ⟨_, rfl⟩
      | breaksOff _ _ hbroken =>
        rw [hcomplete] at hbroken
        cases hbroken
      | fails horder hgathers =>
        exact absurd hintact (not_intact_of_gathers hgathers horder.subset)
  · rintro sources rfl key
    have hentered := reachable_of_traced (traced_of_resolves hresolves) (by simp)
    rw [TextMap.mem_keys]
    constructor
    · intro hcontains
      obtain ⟨content, hget⟩ := (TextMap.contains_iff ..).1 hcontains
      obtain ⟨q, hq, hkey, text, htext, _⟩ := exists_entered_of_get? hresolves hget
      exact ⟨q, hentered q hq, isFile_of_text? htext, hkey⟩
    · rintro ⟨p, hp, hfile, rfl⟩
      have hmem := mem_entered_of_reachable hunconfused hresolves hp (.inr hfile)
      cases hresolves with
      | succeeds _ hgathers _ => exact ((settled_of_gathers hgathers).2 p hmem).1

/-- If no virtual path is that of two files, every answer of the resolver that is
not cut short is the closure of the walk under imports, and so is the outcome of
every run that takes the files and the imports of each file in another order. -/
theorem resolve_isClosure (r : Resolver) (t : FileTree) (root : Path)
    (hunconfused : Unconfused r t root) :
    (∀ depth, Ends (r.resolveWithin t depth root) →
      IsClosure r t root (r.resolveWithin t depth root)) ∧
    ∀ entered outcome, Resolves r t root entered outcome → IsClosure r t root outcome := by
  refine ⟨fun depth hends => ?_, fun entered outcome => isClosure_of_resolves hunconfused⟩
  obtain ⟨entered, hresolves⟩ := resolves_of_resolveWithin rfl hends
  exact isClosure_of_resolves hunconfused hresolves

/-- The places of `circle`, where the module is looked up included. -/
def circlePlaces : List Place :=
  [⟨⟨"/c/A.sol"⟩, "A.sol"⟩, ⟨⟨"/c/B.sol"⟩, "B.sol"⟩, ⟨⟨"/m/m/X.sol"⟩, "node_modules/m/X.sol"⟩]

theorem unconfused_circle : Unconfused (ofModuleDir ⟨"/m"⟩) circle ⟨"/c"⟩ := by
  have hclosed : IsClosed (ofModuleDir ⟨"/m"⟩) circle ⟨"/c"⟩ circlePlaces := by decide +kernel
  exact hclosed.unconfused (by decide +kernel)

theorem circle_isClosure :
    ∃ sources, (ofModuleDir ⟨"/m"⟩).resolveWithin circle 3 ⟨"/c"⟩ = .ok sources ∧
      IsClosure (ofModuleDir ⟨"/m"⟩) circle ⟨"/c"⟩ (.ok sources) := by
  obtain ⟨sources, hresolve⟩ := circle_resolves
  have hclosure := (resolve_isClosure (ofModuleDir ⟨"/m"⟩) circle ⟨"/c"⟩ unconfused_circle).1 3
    (hresolve ▸ ends_ok sources)
  exact ⟨sources, hresolve, hresolve ▸ hclosure⟩

/-- Where the root is missing nothing can be reached, and yet the set cannot be
resolved. -/
theorem not_resolves_without_root :
    Unconfused (ofModuleDir ⟨"/m"⟩) .empty ⟨"/c"⟩ ∧
      ¬ ((∃ sources, (ofModuleDir ⟨"/m"⟩).resolve .empty ⟨"/c"⟩ = .ok sources) ↔
        AllReadable (ofModuleDir ⟨"/m"⟩) .empty ⟨"/c"⟩ ∧
          AllLocated (ofModuleDir ⟨"/m"⟩) .empty ⟨"/c"⟩) := by
  have hnone : ∀ p, ¬ Reachable (ofModuleDir ⟨"/m"⟩) .empty ⟨"/c"⟩ p := fun p hp => by
    have hclosed : IsClosed (ofModuleDir ⟨"/m"⟩) .empty ⟨"/c"⟩ [] := by decide +kernel
    exact absurd (hclosed.mem_of_reachable hp) List.not_mem_nil
  have hfails : ((ofModuleDir ⟨"/m"⟩).resolve .empty ⟨"/c"⟩).toOption.isSome = false := by
    decide +kernel
  refine ⟨fun p _ hp => absurd hp (hnone p), fun h => ?_⟩
  obtain ⟨sources, hresolve⟩ := h.2 ⟨fun p hp => absurd hp (hnone p), fun p hp =>
    absurd hp (hnone p)⟩
  rw [hresolve] at hfails
  cases hfails

end SolidityBuild.Resolver
