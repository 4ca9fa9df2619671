import Mathlib.Data.List.Nodup
import Mathlib.Data.List.ProdSigma
import SolidityBuild.Proofs.Source.Depth
import SolidityBuild.Proofs.Source.Raising

/-!
When resolving comes to an end. It does if finitely many virtual paths are reached,
and where nothing else is wrong only then. In a tree without links, and without
backslashes in relative imports, it does unless these lead from a file back to itself
with a virtual path that begins further up; and no file is led back to further up
unless an import climbs above the root of the file system.
-/

namespace SolidityBuild.Resolver

open SolidityBuild.Path FileTree

variable {r : Resolver} {t : FileTree} {root : Path}

/-! ## Counting -/

/-- Things that have codes, no two of them the same one, are no more than the
codes. -/
theorem length_le_of_pairwise {α β : Type} (HasCode : α → β → Prop) (xs : List α)
    (codes : List β) (hcodes : ∀ x ∈ xs, ∃ c ∈ codes, HasCode x c)
    (hdiffer : xs.Pairwise fun x y => ∀ c, HasCode x c → ¬ HasCode y c) :
    xs.length ≤ codes.length := by
  classical
  induction xs generalizing codes with
  | nil => exact Nat.zero_le _
  | cons x rest ih =>
    obtain ⟨hfirst, hrest⟩ := List.pairwise_cons.1 hdiffer
    obtain ⟨c, hc, hcode⟩ := hcodes x List.mem_cons_self
    have hothers : ∀ y ∈ rest, ∃ c' ∈ codes.erase c, HasCode y c' := by
      intro y hy
      obtain ⟨c', hc', hcode'⟩ := hcodes y (List.mem_cons_of_mem x hy)
      have hne : c' ≠ c := by
        rintro rfl
        exact hfirst y hy c' hcode hcode'
      exact ⟨c', (List.mem_erase_of_ne hne).2 hc', hcode'⟩
    have hle := ih (codes.erase c) hothers hrest
    have hlength := List.length_erase_of_mem hc
    have hpositive := List.length_pos_of_mem hc
    rw [List.length_cons]
    omega

/-- No reachable file is led back to further up. -/
def NeverRaises (r : Resolver) (t : FileTree) (root : Path) : Prop :=
  ∀ p q, Reachable r t root p → ¬ Raises r t p q

/-- What tells the files of a chain apart: the pair of directories that a file is
told by, its location, and how far it is from the end of the pair. -/
def HasCode (t : FileTree) (start : Place) (bound : Nat) (q : Place)
    (code : Base × Location × Nat) : Prop :=
  code.1 ∈ basesOf start ∧ ∃ count name names, StandsIn t q name ∧
    Steps code.1 q count name names ∧ code.2.1 = (name :: realStack q).reverse ∧
      code.2.2 = min count bound

/-- A chain of relative imports has no more files than there are codes. -/
theorem chain_length_le (hlinkless : Linkless t) (hplain : NoBackslashes r t root)
    (hnever : NeverRaises r t root) {start : Place} {chain : List Place}
    (hstart : Reachable r t root start) (hchain : List.IsChain (StepsTo r t) (start :: chain))
    (hdistinct : (chain.map Place.virtual).Nodup) {bound : Nat}
    (hreal : (realStack start).length ≤ bound) (hvirtual : (virtualStack start).length ≤ bound) :
    chain.length ≤ t.entries.length * ((bound + 1) * (bound + 2)) := by
  have hreached := reachedFrom_of_chain hlinkless hplain hstart (.inl rfl) hchain
  let codes : List (Base × Location × Nat) :=
    basesOf start ×ˢ t.entries.map Prod.fst ×ˢ List.range (bound + 1)
  have hlength : codes.length ≤ t.entries.length * ((bound + 1) * (bound + 2)) := by
    have hbases : (basesOf start).length = (realStack start).length + 2 := by simp [basesOf]
    have hcodes : codes.length =
        ((realStack start).length + 2) * (t.entries.length * (bound + 1)) := by
      simp only [codes, List.length_product, hbases, List.length_map, List.length_range]
    rw [hcodes, Nat.mul_comm, Nat.mul_assoc]
    exact Nat.mul_le_mul_left _ (Nat.mul_le_mul_left _ (by omega))
  refine Nat.le_trans (length_le_of_pairwise (HasCode t start bound) chain codes ?_ ?_) hlength
  · intro q hq
    obtain ⟨b, hb, count, name, names, hstands, hsteps⟩ := (hreached q hq).2
    obtain ⟨entry, hentry, -⟩ := Option.bind_eq_some_iff.1
      (Option.some_get hstands.isFile).symm
    have hlocation : (name :: realStack q).reverse ∈ t.entries.map Prod.fst :=
      List.mem_map.2 ⟨_, mem_entries_of_entryAt (by simp) hentry, rfl⟩
    refine ⟨(b, (name :: realStack q).reverse, min count bound), ?_,
      hb, count, name, names, hstands, hsteps, rfl, rfl⟩
    exact List.pair_mem_product.2 ⟨hb, List.pair_mem_product.2 ⟨hlocation,
      List.mem_range.2 (Nat.lt_succ_of_le (Nat.min_le_right ..))⟩⟩
  · have htrans : (start :: chain).Pairwise (Relation.TransGen (StepsTo r t)) :=
      List.isChain_iff_pairwise.1 (hchain.imp fun _ _ h => .single h)
    have hpairs := (List.pairwise_cons.1 htrans).2.and (List.pairwise_map.1 hdistinct)
    refine hpairs.imp_of_mem ?_
    rintro p q hp - ⟨hreach, hne⟩ ⟨b, location, height⟩ hcode hcode'
    obtain ⟨hb, count, name, names, -, hsteps, hlocation, hheight⟩ := hcode
    obtain ⟨-, count', name', names', -, hsteps', hlocation', hheight'⟩ := hcode'
    obtain ⟨rfl, hsame⟩ := List.cons.inj (List.reverse_inj.1 (hlocation.symm.trans hlocation'))
    obtain ⟨hclean, hlow⟩ := virtual_of_mem_basesOf hb
    have hreal' : b.real.length ≤ bound := by rw [real_of_mem_basesOf hb]; exact hreal
    rcases virtual_eq_or_raises hlinkless hplain (hreached p hp).1 hreach hsteps hsteps' hsame
      hclean hreal' (by omega) (hheight.symm.trans hheight') with heq | hraises
    · exact hne heq
    · exact hnever p q (hreached p hp).1 hraises

/-! ## Modules -/

theorem mem_importsOf {path : Path} {text : String} (htext : t.text? path = some text) {i : Import}
    (hi : i ∈ Import.scan text) : i ∈ importsOf t := by
  obtain ⟨entry, hentry, hcontent⟩ := Option.bind_eq_some_iff.1 (content?_of_text? htext)
  obtain ⟨location, -, hat⟩ := Option.bind_eq_some_iff.1 hentry
  cases entry with
  | directory => cases hcontent
  | link target => cases hcontent
  | file content executable =>
    obtain rfl : content = .text text := Option.some.inj hcontent
    have hne : location ≠ [] := by
      rintro rfl
      cases hat
    exact List.mem_flatMap.2 ⟨_, mem_entries_of_entryAt hne hat, hi⟩

theorem targetOf_mem_modulePlaces {p : Place} {text : String} (htext : t.text? p.real = some text)
    {i : Import} (hi : i ∈ Import.scan text) (hkind : i.kind = .module) :
    r.targetOf p i ∈ r.modulePlaces t := by
  have htarget : r.locate ⟨""⟩ "" i = r.targetOf p i := by
    rw [targetOf, locate, locate, hkind]
  refine List.mem_map.2 ⟨i, List.mem_filter.2 ⟨mem_importsOf htext hi, ?_⟩, htarget⟩
  rw [hkind]
  rfl

theorem stepsTo_or_mem_modulePlaces {p q : Place} (himports : Imports r t p q)
    (hfile : ∃ text, t.text? q.real = some text) : StepsTo r t p q ∨ q ∈ r.modulePlaces t := by
  obtain ⟨text, htext, i, hi, rfl⟩ := himports
  obtain ⟨_, htarget⟩ := hfile
  cases hkind : i.kind with
  | module => exact .inr (targetOf_mem_modulePlaces htext hi hkind)
  | relative => exact .inl ⟨text, htext, i, hi, hkind, rfl, isFile_of_text? htarget⟩

theorem Nested.tail {p q : Place} {chain : List Place} (h : Nested r t p (q :: chain)) :
    Nested r t q chain :=
  ⟨(List.isChain_cons_cons.1 h.imports).2, (List.forall_mem_cons.1 h.files).2,
    (List.nodup_cons.1 h.distinct).2⟩

/-- Nested files import each other relatively up to the first module. -/
theorem Nested.split {p : Place} {chain : List Place} (h : Nested r t p chain) :
    List.IsChain (StepsTo r t) (p :: chain) ∨
      ∃ front q rest, chain = front ++ q :: rest ∧ List.IsChain (StepsTo r t) (p :: front) ∧
        q ∈ r.modulePlaces t ∧ Nested r t q rest := by
  induction chain generalizing p with
  | nil => exact .inl (List.isChain_singleton p)
  | cons q chain ih =>
    have himports := (List.isChain_cons_cons.1 h.imports).1
    rcases stepsTo_or_mem_modulePlaces himports (h.files q List.mem_cons_self) with hstep | hmodule
    · rcases ih h.tail with hall | ⟨front, q', rest, rfl, hfront, hmodule, hrest⟩
      · exact .inl (List.isChain_cons_cons.2 ⟨hstep, hall⟩)
      · exact .inr ⟨q :: front, q', rest, rfl, List.isChain_cons_cons.2 ⟨hstep, hfront⟩, hmodule,
          hrest⟩
    · exact .inr ⟨[], q, chain, rfl, List.isChain_singleton p, hmodule, h.tail⟩

theorem Nested.reachable {p : Place} {chain : List Place} (h : Nested r t p chain)
    (hp : Reachable r t root p) : ∀ q ∈ chain, Reachable r t root q := by
  induction chain generalizing p with
  | nil => simp
  | cons q chain ih =>
    have hq : Reachable r t root q := .imported hp (List.isChain_cons_cons.1 h.imports).1
    exact List.forall_mem_cons.2 ⟨hq, ih h.tail hq⟩

/-! ## How deep files lie inside each other -/

/-- Where chains of relative imports begin: on the walk, and with a module. -/
def IsStart (r : Resolver) (t : FileTree) (root : Path) (p : Place) : Prop :=
  p ∈ walkedPlaces t root ∨ p ∈ r.modulePlaces t

theorem length_split_le (separator : Char) (cs : List Char) :
    (Text.split separator cs).length ≤ cs.length + 1 := by
  induction cs with
  | nil => simp [Text.split]
  | cons c cs ih =>
    rw [Text.split]
    split
    next => simpa using ih
    next =>
      cases hs : Text.split separator cs with
      | nil => simp
      | cons piece pieces =>
        rw [hs] at ih
        simp only [List.length_cons] at ih ⊢
        omega

theorem length_foldl_cleanStep_le (rooted : Bool) (done segments : List String) :
    (segments.foldl (cleanStep rooted) done).length ≤ done.length + segments.length := by
  induction segments generalizing done with
  | nil => simp
  | cons segment rest ih =>
    have hstep : (cleanStep rooted done segment).length ≤ done.length + 1 := by
      unfold cleanStep
      split
      · exact Nat.le_succ _
      · split
        · cases done with
          | nil => cases rooted <;> simp
          | cons last rest =>
            simp only
            split <;> simp only [List.length_cons] <;> omega
        · exact Nat.le_refl _
    have hrest := ih (cleanStep rooted done segment)
    rw [List.foldl_cons, List.length_cons]
    omega

theorem length_virtualStack_le (p : Place) :
    (virtualStack p).length ≤ p.virtual.length + 1 := by
  have hstack := length_foldl_cleanStep_le (virtualRooted p) []
    (segmentsOf (slashed (virtualParent p.virtual)))
  have hsegments : (segmentsOf (slashed (virtualParent p.virtual))).length ≤
      (slashed (virtualParent p.virtual)).toList.length + 1 := by
    rw [segmentsOf, List.length_map]
    exact length_split_le '/' _
  have hslashed : (slashed (virtualParent p.virtual)).toList.length =
      (virtualParent p.virtual).toList.length := by simp [slashed]
  have hparent : (virtualParent p.virtual).toList.length ≤ p.virtual.toList.length := by
    rw [virtualParent, String.toList_ofList, List.length_reverse, List.length_drop]
    have hdrop := (List.dropWhile_suffix (· ≠ '/') (l := p.virtual.toList.reverse)).length_le
    rw [List.length_reverse] at hdrop
    omega
  have hlength : p.virtual.toList.length = p.virtual.length := String.length_toList
  rw [virtualStack_eq]
  simp only [List.length_nil] at hstack
  omega

theorem le_foldl_max {xs : List Nat} {start x : Nat} (h : x ≤ start ∨ x ∈ xs) :
    x ≤ xs.foldl max start := by
  induction xs generalizing start with
  | nil => exact h.resolve_right List.not_mem_nil
  | cons y xs ih =>
    rw [List.foldl_cons]
    rcases h with h | h
    · exact ih (.inl (Nat.le_trans h (Nat.le_max_left start y)))
    · rcases List.mem_cons.1 h with rfl | h
      · exact ih (.inl (Nat.le_max_right start x))
      · exact ih (.inr h)

theorem length_stacks_le_extent (hlinkless : Linkless t) {p : Place} (hstart : IsStart r t root p)
    (hfile : t.isFile p.real = true) :
    (realStack p).length ≤ r.extent t root ∧ (virtualStack p).length ≤ r.extent t root := by
  obtain ⟨name, hstands⟩ := exists_standsIn hlinkless hfile
  obtain ⟨entry, hentry, -⟩ := Option.bind_eq_some_iff.1 (Option.some_get hstands.isFile).symm
  have hlocation := mem_entries_of_entryAt (by simp) hentry
  constructor
  · have hle : (name :: realStack p).reverse.length ≤ r.extent t root := by
      refine le_foldl_max (.inr (List.mem_append_left _ ?_))
      exact List.mem_map.2 ⟨_, hlocation, rfl⟩
    rw [List.length_reverse, List.length_cons] at hle
    omega
  · have hle : p.virtual.length + 1 ≤ r.extent t root := by
      refine le_foldl_max (.inr (List.mem_append_right _ ?_))
      exact List.mem_map.2 ⟨p, List.mem_append.2 hstart, rfl⟩
    exact Nat.le_trans (length_virtualStack_le p) hle

theorem run_length_le (hlinkless : Linkless t) (hplain : NoBackslashes r t root)
    (hnever : NeverRaises r t root) {p : Place} {chain : List Place}
    (hstart : IsStart r t root p) (hp : Reachable r t root p)
    (hchain : List.IsChain (StepsTo r t) (p :: chain))
    (hdistinct : (chain.map Place.virtual).Nodup) :
    chain.length ≤ t.entries.length * ((r.extent t root + 1) * (r.extent t root + 2)) := by
  cases chain with
  | nil => exact Nat.zero_le _
  | cons q rest =>
    obtain ⟨text, htext, -⟩ := (List.isChain_cons_cons.1 hchain).1
    obtain ⟨hreal, hvirtual⟩ := length_stacks_le_extent hlinkless hstart (isFile_of_text? htext)
    exact chain_length_le hlinkless hplain hnever hp hchain hdistinct hreal hvirtual

/-- Nested files pass through each module once at most, and from one module to
the next along a chain of relative imports. -/
theorem nested_length_le (hlinkless : Linkless t) (hplain : NoBackslashes r t root)
    (hnever : NeverRaises r t root) (modules : List String) {p : Place} {chain : List Place}
    (hstart : IsStart r t root p) (hp : Reachable r t root p) (hnested : Nested r t p chain)
    (hmodules : ∀ q ∈ chain, q ∈ r.modulePlaces t → q.virtual ∈ modules) :
    chain.length ≤ (modules.length + 1) *
      (t.entries.length * ((r.extent t root + 1) * (r.extent t root + 2)) + 1) := by
  have hrun : ∀ p chain, IsStart r t root p → Reachable r t root p →
      List.IsChain (StepsTo r t) (p :: chain) → (chain.map Place.virtual).Nodup →
      chain.length ≤ t.entries.length * ((r.extent t root + 1) * (r.extent t root + 2)) :=
    fun p chain => run_length_le hlinkless hplain hnever
  generalize t.entries.length * ((r.extent t root + 1) * (r.extent t root + 2)) = most at hrun ⊢
  generalize hlength : modules.length = n
  induction n generalizing modules p chain with
  | zero =>
    rcases hnested.split with hall | ⟨front, q, rest, rfl, -, hmodule, -⟩
    · have := hrun p chain hstart hp hall hnested.distinct
      omega
    · have hmem := hmodules q (by simp) hmodule
      rw [List.length_eq_zero_iff.1 hlength] at hmem
      cases hmem
  | succ n ih =>
    rcases hnested.split with hall | ⟨front, q, rest, rfl, hfront, hmodule, hrest⟩
    · have := hrun p chain hstart hp hall hnested.distinct
      rw [Nat.succ_mul]
      omega
    · have hdistinct := hnested.distinct
      rw [List.map_append, List.map_cons, List.nodup_append] at hdistinct
      have hle := hrun p front hstart hp hfront hdistinct.1
      have hnew := (List.nodup_cons.1 hdistinct.2.1).1
      have hmem := hmodules q (by simp) hmodule
      have hothers : ∀ q' ∈ rest, q' ∈ r.modulePlaces t → q'.virtual ∈ modules.erase q.virtual := by
        intro q' hq' hmodule'
        have hne : q'.virtual ≠ q.virtual := fun heq => hnew (List.mem_map.2 ⟨q', hq', heq⟩)
        exact (List.mem_erase_of_ne hne).2 (hmodules q' (by simp [hq']) hmodule')
      have hq := hnested.reachable hp q (by simp)
      have hle' := ih (modules.erase q.virtual) (.inr hmodule) hq hrest hothers
        (by rw [List.length_erase_of_mem hmem, hlength]; rfl)
      rw [List.length_append, List.length_cons, Nat.succ_mul]
      omega

/-- If no file is led back to further up, there is depth enough. -/
theorem ends_of_neverRaises (hlinkless : Linkless t) (hplain : NoBackslashes r t root)
    (hnever : NeverRaises r t root) {depth : Nat} (hdepth : r.depthFor t root ≤ depth) :
    Ends (r.resolveWithin t depth root) := by
  intro file hresolve
  obtain ⟨p, hp, chain, hlength, hnested⟩ := exists_nested_of_resolveWithin hresolve
  have hle := nested_length_le hlinkless hplain hnever ((r.modulePlaces t).map Place.virtual)
    (.inl hp) (.walked hp) hnested fun q _ hq => List.mem_map_of_mem hq
  have hpositive : 0 < (t.entries.length + 1) * ((importsOf t).length + 2) *
      (FileTree.linkLimit + 1) :=
    Nat.mul_pos (Nat.mul_pos (Nat.succ_pos _) (Nat.succ_pos _)) (Nat.succ_pos _)
  rw [List.length_map, hlength] at hle
  unfold depthFor at hdepth
  simp only at hdepth
  omega

/-! ## Termination -/

/-- Resolving everything below a root comes to an end: from some depth on, with one
answer. -/
def Terminates (r : Resolver) (t : FileTree) (root : Path) : Prop :=
  ∃ depth outcome, Ends outcome ∧ ∀ depth', depth ≤ depth' → r.resolveWithin t depth' root = outcome

theorem terminates_iff : Terminates r t root ↔ ∃ depth, Ends (r.resolveWithin t depth root) := by
  constructor
  · rintro ⟨depth, outcome, hends, hsame⟩
    exact ⟨depth, hsame depth (Nat.le_refl depth) ▸ hends⟩
  · rintro ⟨depth, hends⟩
    exact ⟨depth, _, hends, fun depth' hle => resolveWithin_of_le hle hends⟩

/-- The virtual paths of all reachable files are among finitely many. -/
def FinitelyReached (r : Resolver) (t : FileTree) (root : Path) : Prop :=
  ∃ virtuals : List String,
    ∀ p, Reachable r t root p → t.isFile p.real = true → p.virtual ∈ virtuals

/-- What else has to be right for everything below a root to be resolved. -/
structure Intact (r : Resolver) (t : FileTree) (root : Path) : Prop where
  unconfused : Unconfused r t root
  complete : (t.walk root).complete = true
  readable : AllReadable r t root
  located : AllLocated r t root

/-- Files that are entered inside each other have different virtual paths, so where
these are finitely many there is depth enough. -/
theorem terminates_of_finitelyReached (h : FinitelyReached r t root) : Terminates r t root := by
  obtain ⟨virtuals, hvirtuals⟩ := h
  refine terminates_iff.2 ⟨virtuals.length + 1, ?_⟩
  intro file hresolve
  obtain ⟨p, hp, chain, hlength, hnested⟩ := exists_nested_of_resolveWithin hresolve
  have hsubset : chain.map Place.virtual ⊆ virtuals := by
    intro virtual hvirtual
    obtain ⟨q, hq, rfl⟩ := List.mem_map.1 hvirtual
    obtain ⟨_, htext⟩ := hnested.files q hq
    exact hvirtuals q (hnested.reachable (.walked hp) q hq) (isFile_of_text? htext)
  have hle := hnested.distinct.length_le_of_subset hsubset
  rw [List.length_map, hlength] at hle
  omega

/-- Where nothing else is wrong, an answer at any depth lists all reachable files. -/
theorem finitelyReached_of_terminates (hintact : Intact r t root) (h : Terminates r t root) :
    FinitelyReached r t root := by
  obtain ⟨depth, hends⟩ := terminates_iff.1 h
  obtain ⟨entered, hresolves⟩ := resolves_of_resolveWithin rfl hends
  obtain ⟨sources, hsources⟩ := (isClosure_of_resolves hintact.unconfused hresolves).succeeds_iff.2
    ⟨hintact.complete, hintact.readable, hintact.located⟩
  rw [hsources] at hresolves
  refine ⟨entered.map Place.virtual, fun p hp hfile => ?_⟩
  exact List.mem_map_of_mem (mem_entered_of_reachable hintact.unconfused hresolves hp (.inr hfile))

/-- A file that is led back to further up is reachable under endless virtual paths. -/
theorem neverRaises_of_finitelyReached (hlinkless : Linkless t) (hplain : NoBackslashes r t root)
    (h : FinitelyReached r t root) : NeverRaises r t root := by
  intro p q hp hraises
  obtain ⟨virtuals, hvirtuals⟩ := h
  obtain ⟨count, hpositive, hreachable⟩ := exists_reachable_raise hlinkless hplain hp hraises
  have hfile : t.isFile p.real = true := by
    obtain ⟨_, ⟨_, htext, _⟩, _⟩ := Relation.TransGen.head'_iff.1 hraises.1
    exact isFile_of_text? htext
  have hinjective : Function.Injective fun n => (raise (n * count) p).virtual :=
    fun _ _ hsame => Nat.eq_of_mul_eq_mul_right hpositive (raise_injective hsame)
  have hdistinct := (List.nodup_range (n := virtuals.length + 1)).map hinjective
  have hsubset : (List.range (virtuals.length + 1)).map
      (fun n => (raise (n * count) p).virtual) ⊆ virtuals := by
    intro virtual hvirtual
    obtain ⟨n, -, rfl⟩ := List.mem_map.1 hvirtual
    exact hvirtuals _ (hreachable n) hfile
  have hle := hdistinct.length_le_of_subset hsubset
  rw [List.length_map, List.length_range] at hle
  omega

/-- Resolving everything below a root comes to an end if only finitely many virtual
paths are reached, and where nothing else is wrong only then. Without links and
backslashes it does, at the depth it is given, unless relative imports lead from a
file back to itself further up; and where nothing else is wrong only then. They do
not if no relative import climbs above the root of the file system. -/
theorem resolve_ends (r : Resolver) (t : FileTree) (root : Path) :
    (FinitelyReached r t root → Terminates r t root) ∧
    (Intact r t root → (Terminates r t root ↔ FinitelyReached r t root)) ∧
    (Linkless t → NoBackslashes r t root →
      (NeverRaises r t root → Ends (r.resolve t root) ∧
        ∀ depth, r.depthFor t root ≤ depth →
          r.resolveWithin t depth root = r.resolve t root) ∧
      (Intact r t root → (Terminates r t root ↔ NeverRaises r t root)) ∧
      (NeverClimbs r t root → NeverRaises r t root)) := by
  refine ⟨terminates_of_finitelyReached, fun hintact => ⟨finitelyReached_of_terminates hintact,
    terminates_of_finitelyReached⟩, fun hlinkless hplain => ⟨fun hnever => ?_,
      fun hintact => ⟨?_, fun hnever => ?_⟩, fun hnever p q hp => ?_⟩⟩
  · have hends : Ends (r.resolve t root) :=
      ends_of_neverRaises hlinkless hplain hnever (Nat.le_refl _)
    exact ⟨hends, fun depth hdepth => resolveWithin_of_le hdepth hends⟩
  · intro hterminates
    exact neverRaises_of_finitelyReached hlinkless hplain
      (finitelyReached_of_terminates hintact hterminates)
  · exact terminates_iff.2 ⟨_, ends_of_neverRaises hlinkless hplain hnever (Nat.le_refl _)⟩
  · exact not_raises_of_neverClimbs hlinkless hplain hnever hp

/-- Finitely many places show what holds of the relative imports of all reachable
files. -/
theorem IsClosed.forall_relative {places : List Place} (h : IsClosed r t root places)
    {P : Place → Import → Prop}
    (hplaces : ∀ p ∈ places, ∀ text ∈ t.text? p.real, ∀ i ∈ Import.scan text,
      i.kind = .relative → P p i) :
    ∀ p, Reachable r t root p → ∀ text, t.text? p.real = some text →
      ∀ i ∈ Import.scan text, i.kind = .relative → P p i :=
  fun p hp => hplaces p (h.mem_of_reachable hp)

instance (p : Place) (i : Import) : Decidable (Climbs p i) := inferInstanceAs (Decidable (_ < _))

theorem linkless_circle : Linkless circle := by
  intro entry hentry target
  simp only [circle, List.mem_cons, List.not_mem_nil, or_false] at hentry
  rcases hentry with rfl | rfl | rfl <;> simp

theorem intact_circle : Intact (ofModuleDir ⟨"/m"⟩) circle ⟨"/c"⟩ := by
  have hclosed : IsClosed (ofModuleDir ⟨"/m"⟩) circle ⟨"/c"⟩ circlePlaces := by decide +kernel
  constructor
  case unconfused => exact unconfused_circle
  case complete => decide +kernel
  case readable =>
    have hall : ∀ p ∈ circlePlaces, p ∈ walkedPlaces circle ⟨"/c"⟩ ∨ circle.isFile p.real = true →
        (circle.text? p.real).isSome = true := by
      decide +kernel
    intro p hp hregular
    exact Option.isSome_iff_exists.1 (hall p (hclosed.mem_of_reachable hp) hregular)
  case located => exact hclosed.forall_relative (by decide +kernel)

theorem resolve_circle_ends :
    Linkless circle ∧ NoBackslashes (ofModuleDir ⟨"/m"⟩) circle ⟨"/c"⟩ ∧
      NeverClimbs (ofModuleDir ⟨"/m"⟩) circle ⟨"/c"⟩ ∧
      Intact (ofModuleDir ⟨"/m"⟩) circle ⟨"/c"⟩ ∧
      Ends ((ofModuleDir ⟨"/m"⟩).resolve circle ⟨"/c"⟩) ∧
      FinitelyReached (ofModuleDir ⟨"/m"⟩) circle ⟨"/c"⟩ := by
  have hclosed : IsClosed (ofModuleDir ⟨"/m"⟩) circle ⟨"/c"⟩ circlePlaces := by decide +kernel
  have hplain : NoBackslashes (ofModuleDir ⟨"/m"⟩) circle ⟨"/c"⟩ :=
    hclosed.forall_relative (by decide +kernel)
  have hnever : NeverClimbs (ofModuleDir ⟨"/m"⟩) circle ⟨"/c"⟩ :=
    hclosed.forall_relative (by decide +kernel)
  obtain ⟨-, hfinite, hlaws⟩ := resolve_ends (ofModuleDir ⟨"/m"⟩) circle ⟨"/c"⟩
  obtain ⟨hends, hterminates, hraises⟩ := hlaws linkless_circle hplain
  exact ⟨linkless_circle, hplain, hnever, intact_circle, (hends (hraises hnever)).1,
    (hfinite intact_circle).1 ((hterminates intact_circle).2 (hraises hnever))⟩

/-- A file that imports itself along a path that climbs above the root. -/
def climber : FileTree :=
  ⟨[(["c"], .directory),
    (["c", "A.sol"], .file (.text "import '../../c/A.sol';\n") false)]⟩

/-- The one import of `climber`. -/
def climb : Import := ⟨"import '../../c/A.sol';", "../../c/A.sol"⟩

theorem text_climber : climber.text? ⟨"/c/A.sol"⟩ = some "import '../../c/A.sol';\n" := by
  decide +kernel

theorem mem_scan_climber {text : String} (htext : climber.text? ⟨"/c/A.sol"⟩ = some text)
    {i : Import} : i ∈ Import.scan text ↔ i = climb := by
  have hscan : Import.scan "import '../../c/A.sol';\n" = [climb] := by decide +kernel
  rw [text_climber, Option.some.injEq] at htext
  rw [← htext, hscan, List.mem_singleton]

theorem real_of_reachable_climber {p : Place}
    (hp : Reachable (ofModuleDir ⟨"/m"⟩) climber ⟨"/c"⟩ p) : p.real = ⟨"/c/A.sol"⟩ := by
  induction hp with
  | walked hwalked =>
    have hall : ∀ p ∈ walkedPlaces climber ⟨"/c"⟩, p.real = ⟨"/c/A.sol"⟩ := by decide +kernel
    exact hall _ hwalked
  | @imported p q _ himports ih =>
    obtain ⟨text, htext, i, hi, rfl⟩ := himports
    rw [ih] at htext
    obtain rfl := (mem_scan_climber htext).1 hi
    have hkind : climb.kind = .relative := by decide +kernel
    have hreal : ((directoryOf ⟨"/c/A.sol"⟩).join ⟨climb.specifier⟩).clean = ⟨"/c/A.sol"⟩ := by
      decide +kernel
    rw [targetOf, locate, hkind, ih]
    exact hreal

theorem intact_climber : Intact (ofModuleDir ⟨"/m"⟩) climber ⟨"/c"⟩ := by
  constructor
  case unconfused =>
    intro p q hp hq _
    rw [real_of_reachable_climber hp, real_of_reachable_climber hq]
  case complete => decide +kernel
  case readable =>
    intro p hp _
    rw [real_of_reachable_climber hp]
    exact ⟨_, text_climber⟩
  case located =>
    intro p hp text htext i hi _
    rw [real_of_reachable_climber (.imported hp ⟨text, htext, i, hi, rfl⟩)]
    exact isFile_of_text? text_climber

theorem raises_climber :
    Raises (ofModuleDir ⟨"/m"⟩) climber ⟨⟨"/c/A.sol"⟩, "../../c/A.sol"⟩
      ⟨⟨"/c/A.sol"⟩, "../../../c/A.sol"⟩ := by
  have hstep : StepsTo (ofModuleDir ⟨"/m"⟩) climber ⟨⟨"/c/A.sol"⟩, "../../c/A.sol"⟩
      ⟨⟨"/c/A.sol"⟩, "../../../c/A.sol"⟩ :=
    ⟨_, text_climber, climb, (mem_scan_climber text_climber).2 rfl, by decide +kernel,
      by decide +kernel, isFile_of_text? text_climber⟩
  exact ⟨.single hstep, rfl, 1, Nat.one_pos, by decide⟩

/-- No depth is enough for a file that imports itself from above the root. -/
theorem not_terminates_climber : ¬ Terminates (ofModuleDir ⟨"/m"⟩) climber ⟨"/c"⟩ := by
  intro hterminates
  have hlinkless : Linkless climber := by
    intro entry hentry target
    simp only [climber, List.mem_cons, List.not_mem_nil, or_false] at hentry
    rcases hentry with rfl | rfl <;> simp
  have hplain : NoBackslashes (ofModuleDir ⟨"/m"⟩) climber ⟨"/c"⟩ := by
    intro p hp text htext i hi _
    rw [real_of_reachable_climber hp] at htext
    rw [(mem_scan_climber htext).1 hi]
    decide
  have hwalked : (⟨⟨"/c/A.sol"⟩, "A.sol"⟩ : Place) ∈ walkedPlaces climber ⟨"/c"⟩ := by
    decide +kernel
  have hreachable : Reachable (ofModuleDir ⟨"/m"⟩) climber ⟨"/c"⟩
      ⟨⟨"/c/A.sol"⟩, "../../c/A.sol"⟩ :=
    .imported (.walked hwalked) ⟨_, text_climber, climb, (mem_scan_climber text_climber).2 rfl,
      by decide +kernel⟩
  have hfinite := finitelyReached_of_terminates intact_climber hterminates
  exact neverRaises_of_finitelyReached hlinkless hplain hfinite _ _ hreachable raises_climber

end SolidityBuild.Resolver
