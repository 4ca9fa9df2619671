import Mathlib.Data.List.Chain
import SolidityBuild.Proofs.Source.Closure

/-!
The depth of a run. More depth does not change an answer that was not cut short.
A run that is cut short has been through as many files, entered inside each
other, as the depth allows, each imported by the one before it. No two of them
have the same virtual path, since each is entered only if its path is new.
-/

namespace SolidityBuild.Resolver

/-- Files that are entered inside each other, the outermost first, from a place
on. -/
structure Nested (r : Resolver) (t : FileTree) (p : Place) (chain : List Place) : Prop where
  imports : List.IsChain (Imports r t) (p :: chain)
  files : ∀ q ∈ chain, ∃ text, t.text? q.real = some text
  distinct : (chain.map Place.virtual).Nodup

variable {r : Resolver} {t : FileTree}

theorem Nested.nil (p : Place) : Nested r t p [] :=
  ⟨List.isChain_singleton p, by simp, List.nodup_nil⟩

theorem Nested.cons {p q : Place} {chain : List Place} {text : String}
    (h : Nested r t q chain) (himports : Imports r t p q) (htext : t.text? q.real = some text)
    (hnew : ∀ q' ∈ chain, q'.virtual ≠ q.virtual) : Nested r t p (q :: chain) := by
  refine ⟨List.isChain_cons_cons.2 ⟨himports, h.imports⟩,
    List.forall_mem_cons.2 ⟨⟨text, htext⟩, h.files⟩, ?_⟩
  rw [List.map_cons, List.nodup_cons]
  refine ⟨fun hmem => ?_, h.distinct⟩
  obtain ⟨q', hq', hvirtual⟩ := List.mem_map.1 hmem
  exact hnew q' hq' hvirtual

theorem extends_of_visit {depth : Nat} {p : Place} {imports : List Import}
    {sources after : SourceSet} (hvisit : r.visit t depth p imports sources = .ok after) :
    Extends after sources := by
  obtain ⟨entered, hfollows⟩ := follows_of_visit hvisit (ends_ok after)
  exact (accounted_of_follows hfollows).extends

/-- Keys that are new to a set are new to every set before it. -/
theorem Extends.contains_eq_false {after before : SourceSet} (h : Extends after before)
    {key : String} (hnew : after.contains key = false) : before.contains key = false := by
  cases hbefore : before.contains key with
  | false => rfl
  | true =>
    rw [h key hbefore] at hnew
    cases hnew

/-- Files entered inside one that was just added to a set are new to the set before
as well. -/
theorem Nested.enter {p q : Place} {chain : List Place} {text content : String}
    {sources : SourceSet} (h : Nested r t q chain) (himports : Imports r t p q)
    (htext : t.text? q.real = some text) (hnew : sources.contains q.virtual = false)
    (hothers : ∀ q' ∈ chain, (sources.insert q.virtual content).contains q'.virtual = false) :
    Nested r t p (q :: chain) ∧ ∀ q' ∈ q :: chain, sources.contains q'.virtual = false := by
  have hextends := extends_insert sources q.virtual content
  refine ⟨h.cons himports htext ?_, List.forall_mem_cons.2 ⟨hnew, ?_⟩⟩
  · intro q' hq' hvirtual
    have hcontains := (TextMap.contains_insert sources q.virtual q'.virtual content).2
      (.inl hvirtual)
    rw [hothers q' hq'] at hcontains
    cases hcontains
  · exact fun q' hq' => hextends.contains_eq_false (hothers q' hq')

theorem exists_nested_of_visit {depth : Nat} {p : Place} {imports : List Import}
    {sources : SourceSet} {file : Path}
    (hvisit : r.visit t depth p imports sources = .error (.tooDeep file)) {text : String}
    (htext : t.text? p.real = some text) (hscanned : imports ⊆ Import.scan text) :
    ∃ chain, chain.length = depth ∧ Nested r t p chain ∧
      ∀ q ∈ chain, sources.contains q.virtual = false := by
  induction depth generalizing p imports sources text with
  | zero => exact ⟨[], rfl, .nil p, by simp⟩
  | succ depth ihdepth =>
    induction imports generalizing sources with
    | nil =>
      rw [visit_nil] at hvisit
      cases hvisit
    | cons i rest ih =>
      have hrest := List.subset_of_cons_subset hscanned
      cases finds r t p sources i with
      | known hknown =>
        rw [visit_known hknown] at hvisit
        exact ih hvisit hrest
      | absent hnew hcontent hkind =>
        rw [visit_absent hnew hcontent hkind] at hvisit
        exact ih hvisit hrest
      | missing hnew hcontent hkind =>
        rw [visit_missing hnew hcontent hkind] at hvisit
        cases hvisit
      | unreadable bytes hnew hcontent =>
        rw [visit_unreadable hnew hcontent] at hvisit
        cases hvisit
      | text inside hnew hcontent =>
        rw [visit_enters hnew hcontent] at hvisit
        cases hinner : r.visit t depth (r.targetOf p i) (Import.scan inside)
          (sources.insert (r.targetOf p i).virtual pending) with
        | error e =>
          rw [hinner] at hvisit
          cases hvisit
          have htarget := text?_of_content? hcontent
          obtain ⟨chain, hlength, hnested, hothers⟩ :=
            ihdepth hinner htarget (List.Subset.refl _)
          have himports := imports_of_mem (r := r) htext hscanned List.mem_cons_self
          obtain ⟨hchain, habsent⟩ := hnested.enter himports htarget hnew hothers
          exact ⟨r.targetOf p i :: chain, by rw [List.length_cons, hlength], hchain, habsent⟩
        | ok between =>
          rw [hinner] at hvisit
          obtain ⟨chain, hlength, hnested, hothers⟩ := ih hvisit hrest
          have hextends : Extends (between.insert (r.targetOf p i).virtual
              (r.contentOf (r.targetOf p i) inside)) sources :=
            (extends_insert _ _ _).trans
              ((extends_of_visit hinner).trans (extends_insert _ _ _))
          exact ⟨chain, hlength, hnested, fun q hq => hextends.contains_eq_false (hothers q hq)⟩

theorem exists_nested_of_addFound {depth : Nat} {files : List FileTree.Found}
    {sources : SourceSet} {file : Path}
    (hadd : files.foldlM (r.addFound t depth) sources = .error (.tooDeep file)) :
    ∃ p ∈ files.map placeOf, ∃ chain, chain.length = depth ∧ Nested r t p chain := by
  induction files generalizing sources with
  | nil => cases hadd
  | cons found rest ih =>
    rw [List.foldlM_cons, addFound] at hadd
    cases htext : t.text? (placeOf found).real with
    | none =>
      simp only [htext] at hadd
      cases hadd
    | some text =>
      simp only [htext] at hadd
      cases hinside : r.visit t depth (placeOf found) (Import.scan text) sources with
      | error e =>
        rw [hinside] at hadd
        cases hadd
        obtain ⟨chain, hlength, hnested, -⟩ :=
          exists_nested_of_visit hinside htext (List.Subset.refl _)
        exact ⟨placeOf found, List.mem_cons_self, chain, hlength, hnested⟩
      | ok between =>
        rw [hinside] at hadd
        obtain ⟨p, hp, hchain⟩ := ih hadd
        exact ⟨p, List.mem_cons_of_mem _ hp, hchain⟩

/-- A run that is cut short has entered as many files inside each other as its
depth allows, from a file found on the walk on. -/
theorem exists_nested_of_resolveWithin {depth : Nat} {root file : Path}
    (hresolve : r.resolveWithin t depth root = .error (.tooDeep file)) :
    ∃ p ∈ walkedPlaces t root, ∃ chain, chain.length = depth ∧ Nested r t p chain := by
  unfold resolveWithin resolveWalk at hresolve
  cases hadd : (t.walk root).files.foldlM (r.addFound t depth) TextMap.empty with
  | error e =>
    rw [hadd] at hresolve
    cases hresolve
    exact exists_nested_of_addFound hadd
  | ok sources =>
    rw [hadd] at hresolve
    cases hcomplete : (t.walk root).complete with
    | true =>
      rw [hcomplete] at hresolve
      cases hresolve
    | false =>
      rw [hcomplete] at hresolve
      cases hresolve

/-! ## More depth -/

theorem visit_of_le {depth depth' : Nat} (hle : depth ≤ depth') {p : Place}
    {imports : List Import} {sources : SourceSet}
    (hends : Ends (r.visit t depth p imports sources)) :
    r.visit t depth' p imports sources = r.visit t depth p imports sources := by
  induction depth generalizing depth' p imports sources with
  | zero =>
    cases imports with
    | nil => rw [visit_nil, visit_nil]
    | cons i rest => exact absurd rfl (hends p.real)
  | succ depth ihdepth =>
    obtain ⟨depth', rfl⟩ := Nat.exists_eq_add_of_le' (Nat.le_trans (Nat.le_add_left 1 depth) hle)
    have hle' : depth ≤ depth' := Nat.le_of_succ_le_succ hle
    induction imports generalizing sources with
    | nil => rw [visit_nil, visit_nil]
    | cons i rest ih =>
      cases finds r t p sources i with
      | known hknown =>
        rw [visit_known hknown] at hends
        rw [visit_known hknown, visit_known hknown, ih hends]
      | absent hnew hcontent hkind =>
        rw [visit_absent hnew hcontent hkind] at hends
        rw [visit_absent hnew hcontent hkind, visit_absent hnew hcontent hkind, ih hends]
      | missing hnew hcontent hkind =>
        rw [visit_missing hnew hcontent hkind, visit_missing hnew hcontent hkind]
      | unreadable bytes hnew hcontent =>
        rw [visit_unreadable hnew hcontent, visit_unreadable hnew hcontent]
      | text inside hnew hcontent =>
        rw [visit_enters hnew hcontent] at hends
        rw [visit_enters hnew hcontent, visit_enters hnew hcontent]
        cases hinner : r.visit t depth (r.targetOf p i) (Import.scan inside)
          (sources.insert (r.targetOf p i).virtual pending) with
        | error e =>
          rw [hinner] at hends
          rw [ihdepth hle' (hinner ▸ hends), hinner]
          rfl
        | ok between =>
          rw [hinner] at hends
          rw [ihdepth hle' (hinner ▸ ends_ok between), hinner]
          exact ih hends

theorem addFound_of_le {depth depth' : Nat} (hle : depth ≤ depth')
    {files : List FileTree.Found} {sources : SourceSet}
    (hends : Ends (files.foldlM (r.addFound t depth) sources)) :
    files.foldlM (r.addFound t depth') sources = files.foldlM (r.addFound t depth) sources := by
  induction files generalizing sources with
  | nil => rfl
  | cons found rest ih =>
    rw [List.foldlM_cons, addFound] at hends
    rw [List.foldlM_cons, List.foldlM_cons, addFound, addFound]
    cases htext : t.text? (placeOf found).real with
    | none => rfl
    | some text =>
      simp only [htext] at hends ⊢
      cases hinside : r.visit t depth (placeOf found) (Import.scan text) sources with
      | error e =>
        rw [hinside] at hends
        rw [visit_of_le hle (hinside ▸ hends), hinside]
        rfl
      | ok between =>
        rw [hinside] at hends
        rw [visit_of_le hle (hinside ▸ ends_ok between), hinside]
        exact ih hends

/-- An answer that is not cut short is the answer at every greater depth. -/
theorem resolveWithin_of_le {depth depth' : Nat} (hle : depth ≤ depth') {root : Path}
    (hends : Ends (r.resolveWithin t depth root)) :
    r.resolveWithin t depth' root = r.resolveWithin t depth root := by
  unfold resolveWithin resolveWalk at hends ⊢
  cases hadd : (t.walk root).files.foldlM (r.addFound t depth) TextMap.empty with
  | error e =>
    rw [hadd] at hends
    rw [addFound_of_le hle (hadd ▸ hends), hadd]
  | ok sources => rw [addFound_of_le hle (hadd ▸ ends_ok sources), hadd]

end SolidityBuild.Resolver
