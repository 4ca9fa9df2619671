import SolidityBuild.Proofs.Source.Owner
import SolidityBuild.Proofs.Source.Termination

/-!
What resolving reads. The walk, the texts of the files on it, and what the imports of
reachable files lead to are all that an answer depends on: in two trees that have these
in common everything is resolved in the same way, at every depth.
-/

namespace SolidityBuild.Resolver

open FileTree

/-- The other tree has the same walk, with the same texts on it, and the imports of
reachable files lead to the same contents. -/
structure SameFootprint (r : Resolver) (t t' : FileTree) (root : Path) : Prop where
  walk : t'.walk root = t.walk root
  walked : ∀ p ∈ walkedPlaces t root, t'.text? p.real = t.text? p.real
  imported : ∀ p q, Reachable r t root p → Imports r t p q →
    t'.content? q.real = t.content? q.real

variable {r : Resolver} {t t' : FileTree} {root : Path} {depth : Nat} {p q : Place}
  {sources : SourceSet}

/-- What is resolved has come to the end of its walk, and has what is found on it. -/
theorem walked_of_resolve (hresolve : r.resolve t root = .ok sources) :
    (t.walk root).complete = true ∧ ∀ p ∈ walkedPlaces t root,
      sources.contains p.virtual = true ∧ ∃ text, t.text? p.real = some text := by
  rw [resolve] at hresolve
  obtain ⟨entered, hresolves⟩ := resolves_of_resolveWithin hresolve (ends_ok sources)
  obtain ⟨hwalked, hsettled⟩ := settled_of_resolves hresolves
  cases hresolves with
  | succeeds _ _ hcomplete =>
    refine ⟨hcomplete, fun p hp => ?_⟩
    obtain ⟨hcontains, text, htext, -⟩ := hsettled p (hwalked hp)
    exact ⟨hcontains, text, htext⟩

namespace SameFootprint

theorem text?_eq (h : SameFootprint r t t' root) (hp : Reachable r t root p) :
    t'.text? p.real = t.text? p.real := by
  cases hp with
  | walked hwalked => exact h.walked p hwalked
  | imported hp himports => rw [FileTree.text?, FileTree.text?, h.imported _ _ hp himports]

/-! ## Answers -/

theorem visit_eq (h : SameFootprint r t t' root) {imports : List Import} {text : String}
    (hp : Reachable r t root p) (htext : t.text? p.real = some text)
    (hscanned : imports ⊆ Import.scan text) :
    r.visit t' depth p imports sources = r.visit t depth p imports sources := by
  induction depth generalizing p imports sources text with
  | zero => rfl
  | succ depth ihdepth =>
    induction imports generalizing sources with
    | nil => rw [visit_nil, visit_nil]
    | cons i rest ih =>
      have hrest := List.subset_of_cons_subset hscanned
      have himports := imports_of_mem (r := r) htext hscanned List.mem_cons_self
      have hsame := h.imported _ _ hp himports
      cases finds r t p sources i with
      | known hknown => rw [visit_known hknown, visit_known hknown, ih hrest]
      | absent hnew hcontent hkind =>
        rw [visit_absent hnew hcontent hkind, visit_absent hnew (hsame.trans hcontent) hkind,
          ih hrest]
      | missing hnew hcontent hkind =>
        rw [visit_missing hnew hcontent hkind, visit_missing hnew (hsame.trans hcontent) hkind]
      | unreadable bytes hnew hcontent =>
        rw [visit_unreadable hnew hcontent, visit_unreadable hnew (hsame.trans hcontent)]
      | text inside hnew hcontent =>
        rw [visit_enters hnew hcontent, visit_enters hnew (hsame.trans hcontent),
          ihdepth (.imported hp himports) (text?_of_content? hcontent) (List.Subset.refl _)]
        cases r.visit t depth (r.targetOf p i) (Import.scan inside)
          (sources.insert (r.targetOf p i).virtual pending) with
        | error e => rfl
        | ok between => exact ih hrest

theorem addFound_eq (h : SameFootprint r t t' root) {files : List Found}
    (hfiles : ∀ found ∈ files, placeOf found ∈ walkedPlaces t root) :
    files.foldlM (r.addFound t' depth) sources = files.foldlM (r.addFound t depth) sources := by
  induction files generalizing sources with
  | nil => rfl
  | cons found rest ih =>
    obtain ⟨hfound, hrest⟩ := List.forall_mem_cons.1 hfiles
    rw [List.foldlM_cons, List.foldlM_cons, addFound, addFound, h.walked _ hfound]
    cases htext : t.text? (placeOf found).real with
    | none => rfl
    | some text =>
      simp only [h.visit_eq (.walked hfound) htext (List.Subset.refl _)]
      cases r.visit t depth (placeOf found) (Import.scan text) sources with
      | error e => rfl
      | ok between => exact ih hrest

/-- Everything below the root is resolved in the same way. -/
theorem resolveWithin_eq (h : SameFootprint r t t' root) (depth : Nat) :
    r.resolveWithin t' depth root = r.resolveWithin t depth root := by
  have hfiles : ∀ found ∈ (t.walk root).files, placeOf found ∈ walkedPlaces t root :=
    fun _ => List.mem_map_of_mem
  rw [resolveWithin, resolveWithin, h.walk, resolveWalk, resolveWalk, h.addFound_eq hfiles]

/-- What has been resolved in the one tree is resolved in the other, wherever imports may
be followed as deep. -/
theorem resolveWithin_eq_ok (h : SameFootprint r t t' root)
    (hresolve : r.resolve t root = .ok sources) (hdepth : r.depthFor t root ≤ depth) :
    r.resolveWithin t' depth root = .ok sources := by
  have hends : Ends (r.resolve t root) := hresolve ▸ ends_ok sources
  rw [h.resolveWithin_eq depth, resolveWithin_of_le hdepth hends]
  exact hresolve

/-- Answers at the depths that the two trees are given agree, unless one of them is cut
short. -/
theorem resolve_eq (h : SameFootprint r t t' root) (hends : Ends (r.resolve t root))
    (hends' : Ends (r.resolve t' root)) : r.resolve t' root = r.resolve t root := by
  have hsame : r.resolve t' root = r.resolveWithin t (r.depthFor t' root) root :=
    h.resolveWithin_eq (r.depthFor t' root)
  rw [hsame] at hends' ⊢
  rcases Nat.le_total (r.depthFor t root) (r.depthFor t' root) with hle | hle
  · exact resolveWithin_of_le hle hends
  · exact (resolveWithin_of_le hle hends').symm

/-! ## Coming to an end -/

theorem reachable (h : SameFootprint r t t' root) (hp : Reachable r t' root p) :
    Reachable r t root p := by
  induction hp with
  | walked hwalked =>
    rw [walkedPlaces, h.walk] at hwalked
    exact .walked hwalked
  | imported _ himports ih =>
    obtain ⟨text, htext, i, hi, rfl⟩ := himports
    rw [h.text?_eq ih] at htext
    exact .imported ih ⟨text, htext, i, hi, rfl⟩

theorem stepsTo (h : SameFootprint r t t' root) (hp : Reachable r t root p)
    (hstep : StepsTo r t' p q) : StepsTo r t p q := by
  obtain ⟨text, htext, i, hi, hkind, rfl, hfile⟩ := hstep
  rw [h.text?_eq hp] at htext
  rw [isFile, h.imported _ _ hp ⟨text, htext, i, hi, rfl⟩] at hfile
  exact ⟨text, htext, i, hi, hkind, rfl, hfile⟩

theorem transGen (h : SameFootprint r t t' root) (hp : Reachable r t root p)
    (hchain : Relation.TransGen (StepsTo r t') p q) :
    Relation.TransGen (StepsTo r t) p q ∧ Reachable r t root q := by
  induction hchain with
  | single hstep =>
    have hstep' := h.stepsTo hp hstep
    exact ⟨.single hstep', reachable_of_stepsTo hp hstep'⟩
  | tail _ hstep ih =>
    have hstep' := h.stepsTo ih.2 hstep
    exact ⟨ih.1.tail hstep', reachable_of_stepsTo ih.2 hstep'⟩

theorem neverRaises (h : SameFootprint r t t' root) (hnever : NeverRaises r t root) :
    NeverRaises r t' root := by
  intro p q hp hraises
  obtain ⟨hchain, hreal, hvirtual⟩ := hraises
  exact hnever p q (h.reachable hp) ⟨(h.transGen (h.reachable hp) hchain).1, hreal, hvirtual⟩

theorem noBackslashes (h : SameFootprint r t t' root) (hplain : NoBackslashes r t root) :
    NoBackslashes r t' root := by
  intro p hp text htext
  rw [h.text?_eq (h.reachable hp)] at htext
  exact hplain p (h.reachable hp) text htext

end SameFootprint

end SolidityBuild.Resolver
