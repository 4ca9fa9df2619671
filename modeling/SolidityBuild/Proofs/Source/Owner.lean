import SolidityBuild.Proofs.Source.Depth

/-!
Who an entry of a resolved set belongs to. What is entered through an import is
new to the set, so a virtual path is entered once unless a file of the walk has
it. The entry of such a path belongs to the last walked file that has it, and
that of any other path to the first file that was reached under it.
-/

namespace SolidityBuild.Resolver

variable {r : Resolver} {t : FileTree} {root : Path} {p q : Place} {sources after : SourceSet}
  {places starts entered : List Place}

/-- What is entered while imports are followed is new to the set before. -/
theorem fresh_of_follows {imports : List Import} {outcome : Except ResolveError SourceSet}
    (hfollows : Follows r t p imports sources entered outcome) :
    ∀ q ∈ entered, sources.contains q.virtual = false := by
  induction hfollows with
  | done => simp
  | known _ _ ih => exact ih
  | absent _ _ _ _ ih => exact ih
  | missing _ _ _ => simp
  | unreadable _ _ => simp
  | @enters p i _ _ sources between text inner outer _ hnew _ _ hinside _ ihinside ihrest =>
    have hopened := extends_insert sources (r.targetOf p i).virtual pending
    have hextends := (extends_insert between (r.targetOf p i).virtual
      (r.contentOf (r.targetOf p i) text)).trans
      ((accounted_of_follows hinside).extends.trans hopened)
    intro q hq
    rcases List.mem_cons.1 hq with rfl | hq
    · exact hnew
    · rcases List.mem_append.1 hq with hq | hq
      · exact hopened.contains_eq_false (ihinside q hq)
      · exact hextends.contains_eq_false (ihrest q hq)
  | @fails p i _ _ sources _ inner _ hnew _ _ _ ihinside =>
    have hopened := extends_insert sources (r.targetOf p i).virtual pending
    intro q hq
    rcases List.mem_cons.1 hq with rfl | hq
    · exact hnew
    · exact hopened.contains_eq_false (ihinside q hq)

theorem virtual_ne_of_fresh (hcontains : sources.contains p.virtual = true)
    (hfresh : sources.contains q.virtual = false) : p.virtual ≠ q.virtual := by
  intro heq
  rw [heq, hfresh] at hcontains
  cases hcontains

/-- While imports are followed no virtual path is entered twice. -/
theorem distinct_of_follows {imports : List Import}
    (hfollows : Follows r t p imports sources entered (.ok after)) :
    entered.Pairwise fun p q => p.virtual ≠ q.virtual := by
  generalize houtcome : Except.ok after = outcome at hfollows
  induction hfollows generalizing after with
  | done => exact .nil
  | known _ _ ih => exact ih houtcome
  | absent _ _ _ _ ih => exact ih houtcome
  | missing _ _ _ => cases houtcome
  | unreadable _ _ => cases houtcome
  | @enters p i _ _ sources between text inner outer _ _ _ _ hinside hrest ihinside ihrest =>
    have hclosed : (between.insert (r.targetOf p i).virtual
        (r.contentOf (r.targetOf p i) text)).contains (r.targetOf p i).virtual = true :=
      (TextMap.contains_insert ..).2 (.inl rfl)
    have hopened : (sources.insert (r.targetOf p i).virtual pending).contains
        (r.targetOf p i).virtual = true :=
      (TextMap.contains_insert ..).2 (.inl rfl)
    refine List.pairwise_cons.2 ⟨?_, List.pairwise_append.2
      ⟨ihinside rfl, ihrest houtcome, ?_⟩⟩
    · intro q hq
      rcases List.mem_append.1 hq with hq | hq
      · exact virtual_ne_of_fresh hopened (fresh_of_follows hinside q hq)
      · exact virtual_ne_of_fresh hclosed (fresh_of_follows hrest q hq)
    · intro p' hp' q hq
      have hsettled := ((settled_of_follows hinside).2 p' hp').1
      exact virtual_ne_of_fresh (extends_insert between _ _ _ hsettled)
        (fresh_of_follows hrest q hq)
  | fails _ _ _ _ _ => cases houtcome

/-! ## Files of the walk -/

theorem fresh_of_gathers (hgathers : Gathers r t places sources entered (.ok after)) :
    ∀ q ∈ entered, q ∈ places ∨ sources.contains q.virtual = false := by
  generalize houtcome : Except.ok after = outcome at hgathers
  induction hgathers generalizing after with
  | done => simp
  | unreadable _ => cases houtcome
  | @adds p rest _ sources between text inner outer _ _ _ hinside _ ihrest =>
    have hextends := (extends_insert between p.virtual (r.contentOf p text)).trans
      (accounted_of_follows hinside).extends
    intro q hq
    rcases List.mem_cons.1 hq with rfl | hq
    · exact .inl List.mem_cons_self
    · rcases List.mem_append.1 hq with hq | hq
      · exact .inr (fresh_of_follows hinside q hq)
      · rcases ihrest houtcome q hq with hplace | hnew
        · exact .inl (List.mem_cons_of_mem p hplace)
        · exact .inr (hextends.contains_eq_false hnew)
  | fails _ _ _ => cases houtcome

/-- A virtual path that is entered twice is that of a walked file. -/
theorem shared_of_gathers (hgathers : Gathers r t places sources entered (.ok after))
    (hstarts : places ⊆ starts) :
    entered.Pairwise fun p q => p.virtual = q.virtual → ∃ w ∈ starts, w.virtual = p.virtual := by
  generalize houtcome : Except.ok after = outcome at hgathers
  induction hgathers generalizing after with
  | done => exact .nil
  | unreadable _ => cases houtcome
  | @adds p rest _ sources between text inner outer _ _ _ hinside hrest ihrest =>
    subst houtcome
    have hrestStarts := List.subset_of_cons_subset hstarts
    refine List.pairwise_cons.2 ⟨?_, List.pairwise_append.2 ⟨?_, ihrest hrestStarts rfl, ?_⟩⟩
    · exact fun q _ _ => ⟨p, hstarts List.mem_cons_self, rfl⟩
    · exact (distinct_of_follows hinside).imp fun hne heq => absurd heq hne
    · intro p' hp' q hq heq
      have hsettled := extends_insert between p.virtual (r.contentOf p text) _
        ((settled_of_follows hinside).2 p' hp').1
      rcases fresh_of_gathers hrest q hq with hplace | hnew
      · exact ⟨q, hrestStarts hplace, heq.symm⟩
      · exact absurd heq (virtual_ne_of_fresh hsettled hnew)
  | fails _ _ _ => cases houtcome

/-- Under the virtual path of a walked file stands the text of one. -/
theorem holds_of_gathers (hgathers : Gathers r t places sources entered (.ok after)) :
    ∀ p ∈ places, ∃ w ∈ places, w.virtual = p.virtual ∧ Holds r t after w := by
  generalize houtcome : Except.ok after = outcome at hgathers
  induction hgathers generalizing after with
  | done => simp
  | unreadable _ => cases houtcome
  | @adds p rest _ sources between text inner outer _ htext _ _ hrest ihrest =>
    subst houtcome
    intro p' hp'
    rcases List.mem_cons.1 hp' with rfl | hp'
    · rcases accounted_of_gathers hrest p'.virtual with hkept | ⟨q, hq, hvirtual, hholds⟩
      · refine ⟨p', List.mem_cons_self, rfl, text, htext, hkept.trans ?_⟩
        exact TextMap.get?_insert_self ..
      · rcases fresh_of_gathers hrest q hq with hplace | hnew
        · exact ⟨q, List.mem_cons_of_mem p' hplace, hvirtual, hholds⟩
        · rw [hvirtual, Bool.eq_false_iff] at hnew
          exact absurd ((TextMap.contains_insert ..).2 (.inl rfl)) hnew
    · obtain ⟨w, hw, hvirtual, hholds⟩ := ihrest rfl p' hp'
      exact ⟨w, List.mem_cons_of_mem p hw, hvirtual, hholds⟩
  | fails _ _ _ => cases houtcome

/-! ## Owners -/

/-- In a resolved set the entry of every file that was found or imported belongs
to a file that was entered, a walked one if there is one with its virtual path. -/
structure Owned (r : Resolver) (t : FileTree) (root : Path) (entered : List Place)
    (sources : SourceSet) : Prop where
  walked : ∀ p ∈ walkedPlaces t root, ∃ owner ∈ walkedPlaces t root,
    owner.virtual = p.virtual ∧ Holds r t sources owner
  imported : ∀ p ∈ entered, ∀ q, Imports r t p q → t.isFile q.real = true →
    ∃ owner ∈ entered, owner.virtual = q.virtual ∧ Holds r t sources owner
  once : entered.Pairwise fun p q => p.virtual = q.virtual →
    ∃ w ∈ walkedPlaces t root, w.virtual = p.virtual

theorem reachable_of_mem_entered {entered : List Place}
    {outcome : Except ResolveError SourceSet} (hresolves : Resolves r t root entered outcome)
    (hp : p ∈ entered) : Reachable r t root p :=
  reachable_of_traced (traced_of_resolves hresolves) (by simp) p hp

theorem settled_of_resolves (hresolves : Resolves r t root entered (.ok sources)) :
    walkedPlaces t root ⊆ entered ∧ ∀ q ∈ entered, SettledPlace r t sources q := by
  cases hresolves with
  | succeeds horder hgathers _ =>
    obtain ⟨hwalked, hsettled⟩ := settled_of_gathers hgathers
    exact ⟨fun p hp => hwalked (horder.mem_iff.2 hp), hsettled⟩

/-- Every file that is imported has a key, its virtual path. -/
theorem contains_of_imports (hresolves : Resolves r t root entered (.ok sources))
    (hp : p ∈ entered) (himports : Imports r t p q) (hfile : t.isFile q.real = true) :
    sources.contains q.virtual = true := by
  obtain ⟨text, htext, i, hi, rfl⟩ := himports
  obtain ⟨-, text', htext', hsettled⟩ := (settled_of_resolves hresolves).2 p hp
  obtain rfl : text = text' := Option.some.inj (htext.symm.trans htext')
  rcases hsettled i hi with hcontains | ⟨habsent, -⟩
  · exact hcontains
  · exact absurd hfile (not_isFile_of_content? habsent)

/-- Every entry belongs to a file that was entered with its key. -/
theorem exists_owner (hresolves : Resolves r t root entered (.ok sources)) {key : String}
    (hcontains : sources.contains key = true) :
    ∃ owner ∈ entered, owner.virtual = key ∧ Holds r t sources owner := by
  obtain ⟨content, hget⟩ := (TextMap.contains_iff ..).1 hcontains
  obtain ⟨owner, howner, rfl, text, htext, rfl⟩ := exists_entered_of_get? hresolves hget
  exact ⟨owner, howner, rfl, text, htext, hget⟩

theorem owned_of_resolves (hresolves : Resolves r t root entered (.ok sources)) :
    Owned r t root entered sources := by
  have himported : ∀ p ∈ entered, ∀ q, Imports r t p q → t.isFile q.real = true →
      ∃ owner ∈ entered, owner.virtual = q.virtual ∧ Holds r t sources owner := by
    intro p hp q himports hfile
    exact exists_owner hresolves (contains_of_imports hresolves hp himports hfile)
  cases hresolves with
  | succeeds horder hgathers _ =>
    constructor
    case walked =>
      intro p hp
      obtain ⟨w, hw, howns⟩ := holds_of_gathers hgathers p (horder.mem_iff.2 hp)
      exact ⟨w, horder.mem_iff.1 hw, howns⟩
    case imported => exact himported
    case once => exact shared_of_gathers hgathers horder.subset

theorem Holds.isFile (h : Holds r t sources p) : t.isFile p.real = true := by
  obtain ⟨text, htext, -⟩ := h
  exact isFile_of_text? htext

/-- What is kept for a place depends on its virtual path and on where its real one
leads. -/
theorem Holds.of_locate?_eq (h : Holds r t sources p) (hvirtual : p.virtual = q.virtual)
    (hlocate : t.locate? p.real = t.locate? q.real) : Holds r t sources q := by
  obtain ⟨text, htext, hget⟩ := h
  have htext' : t.text? q.real = some text := by
    rw [← htext, FileTree.text?, FileTree.text?, FileTree.content?, FileTree.content?,
      FileTree.entry?, FileTree.entry?, hlocate]
  refine ⟨text, htext', ?_⟩
  rw [← hvirtual, hget, contentOf, contentOf, hvirtual]

end SolidityBuild.Resolver
