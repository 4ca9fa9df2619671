import SolidityBuild.Proofs.TextMap
import SolidityBuild.Source.Resolve

/-!
Runs of the resolver as derivations. `Follows` and `Gathers` say step by step
how the source set grows, which places are entered on the way, and how the run
ends. The order in which the imports of a text are followed is left open, and
no depth is counted. Every answer of the resolver but `tooDeep` is the outcome
of such a run, so a law of all runs is a law of the resolver at every depth.
-/

namespace SolidityBuild

namespace Resolver

/-- An answer that was not cut short for its depth. -/
def Ends (outcome : Except ResolveError SourceSet) : Prop :=
  ∀ file, outcome ≠ .error (.tooDeep file)

theorem ends_ok (sources : SourceSet) : Ends (.ok sources) := fun _ h => by cases h

/-- Following imports that stand in a place. `entered` lists the places that
are entered, each before those that its own imports lead to. -/
inductive Follows (r : Resolver) (t : FileTree) :
    (p : Place) → (imports : List Import) → (sources : SourceSet) → (entered : List Place) →
    (outcome : Except ResolveError SourceSet) → Prop
  | done {p : Place} {sources : SourceSet} : Follows r t p [] sources [] (.ok sources)
  | known {p : Place} {i : Import} {rest : List Import} {sources : SourceSet}
      {entered : List Place} {outcome : Except ResolveError SourceSet}
      (hknown : sources.contains (r.targetOf p i).virtual = true)
      (hrest : Follows r t p rest sources entered outcome) :
      Follows r t p (i :: rest) sources entered outcome
  | absent {p : Place} {i : Import} {rest : List Import} {sources : SourceSet}
      {entered : List Place} {outcome : Except ResolveError SourceSet}
      (hnew : sources.contains (r.targetOf p i).virtual = false)
      (hcontent : t.content? (r.targetOf p i).real = none) (hkind : i.kind = .module)
      (hrest : Follows r t p rest sources entered outcome) :
      Follows r t p (i :: rest) sources entered outcome
  | missing {p : Place} {i : Import} {rest : List Import} {sources : SourceSet}
      (hnew : sources.contains (r.targetOf p i).virtual = false)
      (hcontent : t.content? (r.targetOf p i).real = none) (hkind : i.kind = .relative) :
      Follows r t p (i :: rest) sources []
        (.error (.missingImport (r.targetOf p i).real p.real))
  | unreadable {p : Place} {i : Import} {rest : List Import} {sources : SourceSet}
      {bytes : List UInt8}
      (hnew : sources.contains (r.targetOf p i).virtual = false)
      (hcontent : t.content? (r.targetOf p i).real = some (.binary bytes)) :
      Follows r t p (i :: rest) sources [] (.error (.unreadable (r.targetOf p i).real))
  | enters {p : Place} {i : Import} {rest inside : List Import} {sources between : SourceSet}
      {text : String} {inner outer : List Place} {outcome : Except ResolveError SourceSet}
      (hnew : sources.contains (r.targetOf p i).virtual = false)
      (hcontent : t.content? (r.targetOf p i).real = some (.text text))
      (horder : inside.Perm (Import.scan text))
      (hinside : Follows r t (r.targetOf p i) inside
        (sources.insert (r.targetOf p i).virtual pending) inner (.ok between))
      (hrest : Follows r t p rest
        (between.insert (r.targetOf p i).virtual (r.contentOf (r.targetOf p i) text))
        outer outcome) :
      Follows r t p (i :: rest) sources (r.targetOf p i :: (inner ++ outer)) outcome
  | fails {p : Place} {i : Import} {rest inside : List Import} {sources : SourceSet}
      {text : String} {inner : List Place} {e : ResolveError}
      (hnew : sources.contains (r.targetOf p i).virtual = false)
      (hcontent : t.content? (r.targetOf p i).real = some (.text text))
      (horder : inside.Perm (Import.scan text))
      (hinside : Follows r t (r.targetOf p i) inside
        (sources.insert (r.targetOf p i).virtual pending) inner (.error e)) :
      Follows r t p (i :: rest) sources (r.targetOf p i :: inner) (.error e)

/-- Adding the places of files found below the root, with all that they
import. -/
inductive Gathers (r : Resolver) (t : FileTree) :
    (places : List Place) → (sources : SourceSet) → (entered : List Place) →
    (outcome : Except ResolveError SourceSet) → Prop
  | done {sources : SourceSet} : Gathers r t [] sources [] (.ok sources)
  | unreadable {p : Place} {rest : List Place} {sources : SourceSet}
      (htext : t.text? p.real = none) :
      Gathers r t (p :: rest) sources [] (.error (.unreadable p.real))
  | adds {p : Place} {rest : List Place} {inside : List Import}
      {sources between : SourceSet} {text : String} {inner outer : List Place}
      {outcome : Except ResolveError SourceSet}
      (htext : t.text? p.real = some text) (horder : inside.Perm (Import.scan text))
      (hinside : Follows r t p inside sources inner (.ok between))
      (hrest : Gathers r t rest (between.insert p.virtual (r.contentOf p text)) outer outcome) :
      Gathers r t (p :: rest) sources (p :: (inner ++ outer)) outcome
  | fails {p : Place} {rest : List Place} {inside : List Import}
      {sources : SourceSet} {text : String} {inner : List Place} {e : ResolveError}
      (htext : t.text? p.real = some text) (horder : inside.Perm (Import.scan text))
      (hinside : Follows r t p inside sources inner (.error e)) :
      Gathers r t (p :: rest) sources (p :: inner) (.error e)

/-- The places of the files below a root, in the order of the walk. -/
def walkedPlaces (t : FileTree) (root : Path) : List Place :=
  (t.walk root).files.map placeOf

/-- Resolving everything below a root, its files taken in any order. A walk that
broke off is the last thing to be reported. -/
inductive Resolves (r : Resolver) (t : FileTree) (root : Path) :
    (entered : List Place) → (outcome : Except ResolveError SourceSet) → Prop
  | succeeds {places entered : List Place} {sources : SourceSet}
      (horder : places.Perm (walkedPlaces t root))
      (hgathers : Gathers r t places TextMap.empty entered (.ok sources))
      (hcomplete : (t.walk root).complete = true) :
      Resolves r t root entered (.ok sources)
  | breaksOff {places entered : List Place} {sources : SourceSet}
      (horder : places.Perm (walkedPlaces t root))
      (hgathers : Gathers r t places TextMap.empty entered (.ok sources))
      (hcomplete : (t.walk root).complete = false) :
      Resolves r t root entered (.error (.brokenWalk root))
  | fails {places entered : List Place} {e : ResolveError}
      (horder : places.Perm (walkedPlaces t root))
      (hgathers : Gathers r t places TextMap.empty entered (.error e)) :
      Resolves r t root entered (.error e)

/-! ## What one import adds to a visit -/

section Step

variable {r : Resolver} {t : FileTree} {depth : Nat} {p : Place} {i : Import}
  {rest : List Import} {sources : SourceSet}

/-- What following an import comes upon. -/
inductive Finds (r : Resolver) (t : FileTree) (p : Place) (sources : SourceSet) (i : Import) : Prop
  | known (hknown : sources.contains (r.targetOf p i).virtual = true)
  | absent (hnew : sources.contains (r.targetOf p i).virtual = false)
      (hcontent : t.content? (r.targetOf p i).real = none) (hkind : i.kind = .module)
  | missing (hnew : sources.contains (r.targetOf p i).virtual = false)
      (hcontent : t.content? (r.targetOf p i).real = none) (hkind : i.kind = .relative)
  | unreadable (bytes : List UInt8)
      (hnew : sources.contains (r.targetOf p i).virtual = false)
      (hcontent : t.content? (r.targetOf p i).real = some (.binary bytes))
  | text (text : String) (hnew : sources.contains (r.targetOf p i).virtual = false)
      (hcontent : t.content? (r.targetOf p i).real = some (.text text))

theorem finds (r : Resolver) (t : FileTree) (p : Place) (sources : SourceSet) (i : Import) :
    Finds r t p sources i := by
  cases hknown : sources.contains (r.targetOf p i).virtual with
  | true => exact .known hknown
  | false =>
    cases hcontent : t.content? (r.targetOf p i).real with
    | none =>
      cases hkind : i.kind with
      | module => exact .absent hknown hcontent hkind
      | relative => exact .missing hknown hcontent hkind
    | some content =>
      cases content with
      | binary bytes => exact .unreadable bytes hknown hcontent
      | text text => exact .text text hknown hcontent

theorem visit_nil : r.visit t depth p [] sources = .ok sources := by
  cases depth <;> rfl

theorem visit_cons :
    r.visit t (depth + 1) p (i :: rest) sources =
      (r.enter t (r.visit t depth) p sources i).bind (r.visit t (depth + 1) p rest) := by
  simp only [visit, List.foldlM_cons]
  rfl

theorem visit_known (hknown : sources.contains (r.targetOf p i).virtual = true) :
    r.visit t (depth + 1) p (i :: rest) sources = r.visit t (depth + 1) p rest sources := by
  rw [visit_cons, enter, hknown]
  rfl

theorem visit_absent (hnew : sources.contains (r.targetOf p i).virtual = false)
    (hcontent : t.content? (r.targetOf p i).real = none) (hkind : i.kind = .module) :
    r.visit t (depth + 1) p (i :: rest) sources = r.visit t (depth + 1) p rest sources := by
  rw [visit_cons, enter, hnew, hcontent, hkind]
  rfl

theorem visit_missing (hnew : sources.contains (r.targetOf p i).virtual = false)
    (hcontent : t.content? (r.targetOf p i).real = none) (hkind : i.kind = .relative) :
    r.visit t (depth + 1) p (i :: rest) sources =
      .error (.missingImport (r.targetOf p i).real p.real) := by
  rw [visit_cons, enter, hnew, hcontent, hkind]
  rfl

theorem visit_unreadable {bytes : List UInt8}
    (hnew : sources.contains (r.targetOf p i).virtual = false)
    (hcontent : t.content? (r.targetOf p i).real = some (.binary bytes)) :
    r.visit t (depth + 1) p (i :: rest) sources =
      .error (.unreadable (r.targetOf p i).real) := by
  rw [visit_cons, enter, hnew, hcontent]
  rfl

theorem visit_enters {text : String}
    (hnew : sources.contains (r.targetOf p i).virtual = false)
    (hcontent : t.content? (r.targetOf p i).real = some (.text text)) :
    r.visit t (depth + 1) p (i :: rest) sources =
      (r.visit t depth (r.targetOf p i) (Import.scan text)
        (sources.insert (r.targetOf p i).virtual pending)).bind fun between =>
          r.visit t (depth + 1) p rest
            (between.insert (r.targetOf p i).virtual (r.contentOf (r.targetOf p i) text)) := by
  rw [visit_cons, enter, hnew, hcontent]
  simp only [Bool.false_eq_true, if_false]
  cases hinside : r.visit t depth (r.targetOf p i) (Import.scan text)
    (sources.insert (r.targetOf p i).virtual pending) <;> rfl

end Step

/-! ## Answers are outcomes of runs -/

section Runs

variable {r : Resolver} {t : FileTree} {depth : Nat}

theorem follows_of_visit {p : Place} {imports : List Import} {sources : SourceSet}
    {outcome : Except ResolveError SourceSet}
    (hvisit : r.visit t depth p imports sources = outcome) (hends : Ends outcome) :
    ∃ entered, Follows r t p imports sources entered outcome := by
  induction depth generalizing p imports sources outcome with
  | zero =>
    cases imports with
    | nil => exact ⟨[], by rw [← hvisit, visit_nil]; exact .done⟩
    | cons i rest => exact absurd hvisit.symm (hends p.real)
  | succ depth ihdepth =>
    induction imports generalizing sources outcome with
    | nil => exact ⟨[], by rw [← hvisit, visit_nil]; exact .done⟩
    | cons i rest ih =>
      cases finds r t p sources i with
      | known hknown =>
        rw [visit_known hknown] at hvisit
        obtain ⟨entered, hrest⟩ := ih hvisit hends
        exact ⟨entered, .known hknown hrest⟩
      | absent hnew hcontent hkind =>
        rw [visit_absent hnew hcontent hkind] at hvisit
        obtain ⟨entered, hrest⟩ := ih hvisit hends
        exact ⟨entered, .absent hnew hcontent hkind hrest⟩
      | missing hnew hcontent hkind =>
        rw [visit_missing hnew hcontent hkind] at hvisit
        exact ⟨[], hvisit ▸ .missing hnew hcontent hkind⟩
      | unreadable bytes hnew hcontent =>
        rw [visit_unreadable hnew hcontent] at hvisit
        exact ⟨[], hvisit ▸ .unreadable hnew hcontent⟩
      | text text hnew hcontent =>
        rw [visit_enters hnew hcontent] at hvisit
        cases hinside : r.visit t depth (r.targetOf p i) (Import.scan text)
          (sources.insert (r.targetOf p i).virtual pending) with
        | error e =>
          rw [hinside] at hvisit
          subst hvisit
          obtain ⟨inner, hinner⟩ := ihdepth hinside hends
          exact ⟨_, .fails hnew hcontent (List.Perm.refl _) hinner⟩
        | ok between =>
          rw [hinside] at hvisit
          obtain ⟨inner, hinner⟩ := ihdepth hinside (ends_ok between)
          obtain ⟨outer, houter⟩ := ih hvisit hends
          exact ⟨_, .enters hnew hcontent (List.Perm.refl _) hinner houter⟩

theorem gathers_of_addFound {files : List FileTree.Found} {sources : SourceSet}
    {outcome : Except ResolveError SourceSet}
    (hadd : files.foldlM (r.addFound t depth) sources = outcome) (hends : Ends outcome) :
    ∃ entered, Gathers r t (files.map placeOf) sources entered outcome := by
  induction files generalizing sources with
  | nil =>
    subst hadd
    exact ⟨[], .done⟩
  | cons found rest ih =>
    rw [List.foldlM_cons, addFound] at hadd
    cases htext : t.text? (placeOf found).real with
    | none =>
      simp only [htext] at hadd
      subst hadd
      exact ⟨[], .unreadable htext⟩
    | some text =>
      simp only [htext] at hadd
      cases hinside : r.visit t depth (placeOf found) (Import.scan text) sources with
      | error e =>
        rw [hinside] at hadd
        subst hadd
        obtain ⟨inner, hinner⟩ := follows_of_visit hinside hends
        exact ⟨_, .fails htext (List.Perm.refl _) hinner⟩
      | ok between =>
        rw [hinside] at hadd
        obtain ⟨inner, hinner⟩ := follows_of_visit hinside (ends_ok between)
        obtain ⟨outer, houter⟩ := ih hadd
        exact ⟨_, .adds htext (List.Perm.refl _) hinner houter⟩

/-- Whatever the resolver answers, at any depth that sufficed, a run ends with. -/
theorem resolves_of_resolveWithin {root : Path} {outcome : Except ResolveError SourceSet}
    (hresolve : r.resolveWithin t depth root = outcome) (hends : Ends outcome) :
    ∃ entered, Resolves r t root entered outcome := by
  unfold resolveWithin resolveWalk at hresolve
  cases hadd : (t.walk root).files.foldlM (r.addFound t depth) TextMap.empty with
  | error e =>
    rw [hadd] at hresolve
    subst hresolve
    obtain ⟨entered, hgathers⟩ := gathers_of_addFound hadd hends
    exact ⟨entered, .fails (List.Perm.refl _) hgathers⟩
  | ok sources =>
    rw [hadd] at hresolve
    obtain ⟨entered, hgathers⟩ := gathers_of_addFound hadd (ends_ok sources)
    cases hcomplete : (t.walk root).complete with
    | true =>
      rw [hcomplete] at hresolve
      subst hresolve
      exact ⟨entered, .succeeds (List.Perm.refl _) hgathers hcomplete⟩
    | false =>
      rw [hcomplete] at hresolve
      subst hresolve
      exact ⟨entered, .breaksOff (List.Perm.refl _) hgathers hcomplete⟩

end Runs

end Resolver

end SolidityBuild
