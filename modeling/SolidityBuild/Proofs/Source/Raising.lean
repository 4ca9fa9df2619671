import SolidityBuild.Proofs.Source.Ascent

/-!
Files that lead back to themselves further up. What leads back once does so
again from there, so there is no end to their virtual paths. It takes an import
that climbs above the root of the file system: below, the heights of the two
directories rise and fall together.
-/

namespace SolidityBuild.Resolver

open SolidityBuild.Path FileTree

variable {r : Resolver} {t : FileTree} {root : Path}

/-! ## Raised places -/

/-- The same file, with a virtual path that begins further up. -/
def raise (count : Nat) (p : Place) : Place := ⟨p.real, ups count ++ p.virtual⟩

/-- A virtual path in normal form that is not from the root. -/
def Unrooted (p : Place) (name : String) (stack : List String) : Prop :=
  p.virtual = render false (name :: stack) ∧ Unslashed (name :: stack) ∧ CleanStack false stack

theorem Unrooted.directory {p : Place} {name : String} {stack : List String}
    (h : Unrooted p name stack) : virtualRooted p = false ∧ virtualStack p = stack :=
  virtualStack_of_render h.1 h.2.1 h.2.2

theorem unslashed_append_replicate {stack : List String} (h : Unslashed stack) (count : Nat) :
    Unslashed (stack ++ List.replicate count "..") := by
  have hup : Named [".."] ∧ '\\' ∉ "..".toList := by
    refine ⟨fun s hs => ?_, by decide⟩
    obtain rfl := List.mem_singleton.1 hs
    decide
  constructor
  · intro s hs
    rcases List.mem_append.1 hs with hs | hs
    · exact h.1 s hs
    · obtain rfl := (List.mem_replicate.1 hs).2
      exact hup.1 ".." List.mem_cons_self
  · intro s hs
    rcases List.mem_append.1 hs with hs | hs
    · exact h.2 s hs
    · obtain rfl := (List.mem_replicate.1 hs).2
      exact hup.2

theorem Unrooted.raise {p : Place} {name : String} {stack : List String}
    (h : Unrooted p name stack) (count : Nat) :
    Unrooted (raise count p) name (stack ++ List.replicate count "..") := by
  obtain ⟨hvirtual, hunslashed, hclean⟩ := h
  refine ⟨?_, unslashed_append_replicate hunslashed count, hclean.append_replicate count⟩
  rw [Resolver.raise, hvirtual, ← render_append_replicate (List.cons_ne_nil name stack),
    List.cons_append]

theorem ups_add (count count' : Nat) : ups (count + count') = ups count ++ ups count' := by
  induction count with
  | zero => rw [Nat.zero_add, ups, String.empty_append]
  | succ count ih => rw [Nat.succ_add, ups, ups, ih, String.append_assoc]

theorem raise_raise (count count' : Nat) (p : Place) :
    raise count (raise count' p) = raise (count + count') p := by
  rw [raise, raise, raise, ups_add, String.append_assoc]

theorem length_ups (count : Nat) : (ups count).length = 3 * count := by
  induction count with
  | zero => rfl
  | succ count ih =>
    rw [ups, String.length_append, ih]
    have hstep : "../".length = 3 := by decide
    omega

theorem raise_injective {p : Place} {count count' : Nat}
    (h : (raise count p).virtual = (raise count' p).virtual) : count = count' := by
  have hlength := congrArg String.length h
  simp only [raise, String.length_append, length_ups] at hlength
  omega

/-! ## Raising a chain -/

theorem Steps.cleanStack {b : Base} {q : Place} {count : Nat} {name : String}
    {names : List String} (h : Steps b q count name names) :
    CleanStack b.rooted (names ++ pops b.rooted count b.virtual) := by
  have hclean := cleanStack_virtualStack q
  rw [h.rooted, h.virtualDir] at hclean
  cases hstack : names ++ pops b.rooted count b.virtual with
  | nil => exact .nil _
  | cons first rest =>
    rw [hstack] at hclean
    simpa using hclean

theorem Steps.unrooted {b : Base} {q : Place} {count : Nat} {name : String} {names : List String}
    (h : Steps b q count name names) (hrooted : b.rooted = false) :
    Unrooted q name (names ++ pops false count b.virtual) := by
  have hclean := h.cleanStack
  have hunslashed := h.unslashed
  have hvirtual := h.virtual
  rw [hrooted] at hclean hunslashed hvirtual
  exact ⟨hvirtual, hunslashed, hclean⟩

theorem targetOf_raise {p : Place} {i : Import} (hkind : i.kind = .relative) (count : Nat) :
    (r.targetOf (raise count p) i).real = (r.targetOf p i).real := by
  rw [targetOf, targetOf, locate, locate, hkind]
  rfl

/-- A relative import leads from a file further up to its target further up. -/
theorem stepsTo_raise (hlinkless : Linkless t) (hplain : NoBackslashes r t root) {p q : Place}
    (hp : Reachable r t root p) {name : String} {stack : List String}
    (hunrooted : Unrooted p name stack) (h : StepsTo r t p q) (count : Nat) :
    StepsTo r t (raise count p) (raise count q) ∧ ∃ name stack, Unrooted q name stack := by
  obtain ⟨text, htext, i, hi, hkind, rfl, hfile⟩ := h
  have hspecifier := hplain p hp text htext i hi hkind
  obtain ⟨hrooted, hstack⟩ := hunrooted.directory
  obtain ⟨hrooted', hstack'⟩ := (hunrooted.raise count).directory
  obtain ⟨name', names, hnet, -, hsteps⟩ := exists_steps hlinkless (isFile_of_text? htext) hkind
    hspecifier hfile
  have htarget : r.targetOf (raise count p) i = raise count (r.targetOf p i) := by
    have hvirtual := targetOf_virtual (r := r) (p := raise count p) hkind hspecifier
    rw [hrooted', hstack', foldl_cleanStep_eq, hunrooted.2.2.pops_append_replicate,
      ← List.append_assoc, ← foldl_cleanStep_eq, ← hrooted, ← hstack] at hvirtual
    have hbefore := targetOf_virtual (r := r) (p := p) hkind hspecifier
    have hne : (segmentsOf i.specifier).foldl (cleanStep false) (virtualStack p) ≠ [] := by
      rw [foldl_cleanStep_eq, hnet]
      exact List.cons_ne_nil _ _
    rw [hrooted] at hvirtual hbefore
    rw [render_append_replicate hne, ← hbefore] at hvirtual
    have hreal := targetOf_raise (r := r) (p := p) hkind count
    generalize r.targetOf (raise count p) i = q' at hvirtual hreal
    obtain ⟨real, virtual⟩ := q'
    rw [raise]
    simp only at hvirtual hreal
    rw [hvirtual, hreal]
  refine ⟨⟨text, htext, i, hi, hkind, htarget, hfile⟩, name', _, hsteps.unrooted hrooted⟩

theorem transGen_raise (hlinkless : Linkless t) (hplain : NoBackslashes r t root) {p q : Place}
    (hp : Reachable r t root p) {name : String} {stack : List String}
    (hunrooted : Unrooted p name stack) (h : Relation.TransGen (StepsTo r t) p q) (count : Nat) :
    Relation.TransGen (StepsTo r t) (raise count p) (raise count q) ∧
      ∃ name stack, Unrooted q name stack := by
  induction h with
  | single h =>
    obtain ⟨hstep, hq⟩ := stepsTo_raise hlinkless hplain hp hunrooted h count
    exact ⟨.single hstep, hq⟩
  | tail hpq h ih =>
    obtain ⟨hchain, name', stack', hunrooted'⟩ := ih
    obtain ⟨hstep, hq⟩ := stepsTo_raise hlinkless hplain
      (reachable_of_transGen hp hpq) hunrooted' h count
    exact ⟨hchain.tail hstep, hq⟩

theorem segmentsOf_ups_append (count : Nat) (virtual : String) :
    segmentsOf (ups count ++ virtual) = List.replicate count ".." ++ segmentsOf virtual := by
  induction count with
  | zero => rw [ups, String.empty_append, List.replicate_zero, List.nil_append]
  | succ count ih =>
    have hslash : ups (count + 1) ++ virtual = ".." ++ "/" ++ (ups count ++ virtual) := by
      rw [ups, String.append_assoc]
      rfl
    have hup : segmentsOf ".." = [".."] := by decide
    rw [hslash, segmentsOf_append_slash, ih, hup, List.replicate_succ]
    rfl

theorem exists_steps_of_transGen (hlinkless : Linkless t) (hplain : NoBackslashes r t root)
    {p q : Place} (hp : Reachable r t root p) (h : Relation.TransGen (StepsTo r t) p q) :
    ∃ b count name names, Steps b q count name names := by
  obtain ⟨p', hp', hstep⟩ : ∃ p', Reachable r t root p' ∧ StepsTo r t p' q := by
    cases h with
    | single h => exact ⟨p, hp, h⟩
    | tail hpq h => exact ⟨_, reachable_of_transGen hp hpq, h⟩
  obtain ⟨count, name, names, -, hsteps⟩ := steps_of_stepsTo hlinkless hplain hp' hstep
  exact ⟨baseOf p', count, name, names, hsteps⟩

theorem Unslashed.of_append {stack others : List String} (h : Unslashed (stack ++ others)) :
    Unslashed stack :=
  ⟨fun s hs => h.1 s (List.mem_append_left others hs),
    fun s hs => h.2 s (List.mem_append_left others hs)⟩

/-- A file that is led back to further up has a virtual path in normal form. -/
theorem Raises.unrooted (hlinkless : Linkless t) (hplain : NoBackslashes r t root) {p q : Place}
    (hp : Reachable r t root p) (h : Raises r t p q) : ∃ name stack, Unrooted p name stack := by
  obtain ⟨hreach, -, count, hpositive, hvirtual⟩ := h
  obtain ⟨b, n, name, names, hsteps⟩ := exists_steps_of_transGen hlinkless hplain hp hreach
  have hclean := hsteps.cleanStack
  have hunslashed := hsteps.unslashed
  have hrendered := hsteps.virtual
  generalize names ++ pops b.rooted n b.virtual = stack at hclean hunslashed hrendered
  have hsegments := segmentsOf_ups_append count p.virtual
  rw [← hvirtual, hrendered] at hsegments
  cases hrooted : b.rooted with
  | true =>
    rw [hrooted, segmentsOf_render_rooted hunslashed.1 (List.cons_ne_nil name stack)] at hsegments
    obtain ⟨n', rfl⟩ := Nat.exists_eq_add_of_lt hpositive
    rw [Nat.zero_add, List.replicate_succ, List.cons_append] at hsegments
    exact absurd (List.cons.inj hsegments).1 (by decide)
  | false =>
    rw [hrooted] at hclean
    rw [hrooted, segmentsOf_render_unrooted hunslashed.1 (List.cons_ne_nil name stack)] at hsegments
    have hreverse := congrArg List.reverse hsegments
    rw [List.reverse_reverse, List.reverse_append, List.reverse_replicate] at hreverse
    cases hparts : (segmentsOf p.virtual).reverse with
    | nil => exact absurd (List.reverse_eq_nil_iff.1 hparts) (segmentsOf_ne_nil p.virtual)
    | cons first rest =>
      rw [hparts, List.cons_append] at hreverse
      obtain ⟨rfl, rfl⟩ := List.cons.inj hreverse
      refine ⟨name, rest, ?_, hunslashed.of_append, hclean.of_append_replicate⟩
      have hjoined := joinSegments_segmentsOf p.virtual
      rw [← List.reverse_reverse (segmentsOf p.virtual), hparts] at hjoined
      exact hjoined.symm

theorem Raises.exists_eq_raise {p q : Place} (h : Raises r t p q) :
    ∃ count, 0 < count ∧ q = raise count p := by
  obtain ⟨-, hreal, count, hpositive, hvirtual⟩ := h
  obtain ⟨real, virtual⟩ := q
  simp only at hreal hvirtual
  exact ⟨count, hpositive, by rw [raise, hreal, hvirtual]⟩

/-- From a file that is led back to further up, there is no end to the places of
that file. -/
theorem exists_reachable_raise (hlinkless : Linkless t) (hplain : NoBackslashes r t root)
    {p q : Place} (hp : Reachable r t root p) (h : Raises r t p q) :
    ∃ count, 0 < count ∧ ∀ n, Reachable r t root (raise (n * count) p) := by
  obtain ⟨name, stack, hunrooted⟩ := h.unrooted hlinkless hplain hp
  obtain ⟨count, hpositive, rfl⟩ := h.exists_eq_raise
  have hreach := h.1
  refine ⟨count, hpositive, fun n => ?_⟩
  induction n with
  | zero =>
    have hsame : raise (0 * count) p = p := by rw [Nat.zero_mul, raise, ups, String.empty_append]
    rwa [hsame]
  | succ n ih =>
    have hagain := (transGen_raise hlinkless hplain hp hunrooted hreach (n * count)).1
    rw [raise_raise, ← Nat.succ_mul] at hagain
    exact reachable_of_transGen ih hagain

/-! ## Climbing above the root -/

/-- An import takes more names back than its real directory has. -/
def Climbs (p : Place) (i : Import) : Prop :=
  (realStack p).length < (net (segmentsOf i.specifier)).1

/-- No relative import of a reachable file climbs above the root. -/
def NeverClimbs (r : Resolver) (t : FileTree) (root : Path) : Prop :=
  ∀ p, Reachable r t root p → ∀ text, t.text? p.real = some text →
    ∀ i ∈ Import.scan text, i.kind = .relative → ¬ Climbs p i

/-- How high a stack that is not from the root stands above its start. -/
def level (stack : List String) : Int := stack.length - 2 * stack.count ".."

theorem level_append {names : List String} (hnames : ".." ∉ names) (stack : List String) :
    level (names ++ stack) = names.length + level stack := by
  rw [level, level, List.length_append, List.count_append, List.count_eq_zero.2 hnames]
  omega

theorem level_pops (count : Nat) (stack : List String) :
    level (pops false count stack) = level stack - count := by
  induction count with
  | zero => simp [pops]
  | succ count ih =>
    have hstep : ∀ stack, level (cleanStep false stack "..") = level stack - 1 := by
      intro stack
      cases stack with
      | nil => decide
      | cons name rest =>
        by_cases hname : name = ".."
        · subst hname
          simp [cleanStep, level]
          omega
        · simp [cleanStep, level, hname]
          omega
    rw [pops, hstep, ih]
    omega

/-- Below the root of the file system the heights of the two directories rise and
fall together. -/
theorem level_eq_of_transGen (hlinkless : Linkless t) (hplain : NoBackslashes r t root)
    (hnever : NeverClimbs r t root) {p q : Place} (hp : Reachable r t root p)
    (hrooted : virtualRooted p = false) (h : Relation.TransGen (StepsTo r t) p q) :
    virtualRooted q = false ∧
      level (virtualStack q) - (realStack q).length =
        level (virtualStack p) - (realStack p).length := by
  have hstep {p q : Place} (hp : Reachable r t root p) (hrooted : virtualRooted p = false)
      (h : StepsTo r t p q) : virtualRooted q = false ∧
        level (virtualStack q) - (realStack q).length =
          level (virtualStack p) - (realStack p).length := by
    obtain ⟨text, htext, i, hi, hkind, rfl, hfile⟩ := h
    obtain ⟨name, names, -, -, hsteps⟩ := exists_steps hlinkless (isFile_of_text? htext) hkind
      (hplain p hp text htext i hi hkind) hfile
    have hclimbs := hnever p hp text htext i hi hkind
    have hnames : ".." ∉ names := fun hmem => hsteps.not_up (List.mem_cons_of_mem name hmem)
    have hbase : (baseOf p).rooted = false := hrooted
    refine ⟨by rw [hsteps.rooted, hbase, Bool.false_and], ?_⟩
    have hreal : (baseOf p).real = realStack p := rfl
    have hvirtual : (baseOf p).virtual = virtualStack p := rfl
    rw [hsteps.virtualDir, hsteps.realDir, hbase, hreal, hvirtual, level_append hnames,
      level_pops, List.length_append, List.length_drop]
    rw [Climbs] at hclimbs
    omega
  induction h with
  | single h => exact hstep hp hrooted h
  | tail hpq h ih =>
    obtain ⟨hrooted', hlevel⟩ := ih
    obtain ⟨hrooted'', hlevel'⟩ :=
      hstep (reachable_of_transGen hp hpq) hrooted' h
    exact ⟨hrooted'', hlevel'.trans hlevel⟩

/-- No file is led back to further up if no import climbs above the root. -/
theorem not_raises_of_neverClimbs (hlinkless : Linkless t) (hplain : NoBackslashes r t root)
    (hnever : NeverClimbs r t root) {p q : Place} (hp : Reachable r t root p) :
    ¬ Raises r t p q := by
  intro h
  obtain ⟨name, stack, hunrooted⟩ := h.unrooted hlinkless hplain hp
  obtain ⟨count, hpositive, rfl⟩ := h.exists_eq_raise
  have hreach := h.1
  obtain ⟨hrooted, hstack⟩ := hunrooted.directory
  obtain ⟨-, hstack'⟩ := (hunrooted.raise count).directory
  have hlevel := (level_eq_of_transGen hlinkless hplain hnever hp hrooted hreach).2
  have hsame : realStack (raise count p) = realStack p := by
    rw [realStack_eq, realStack_eq]
    rfl
  rw [hsame, hstack, hstack', level, level, List.length_append, List.count_append,
    List.length_replicate, List.count_replicate_self] at hlevel
  omega

end SolidityBuild.Resolver
