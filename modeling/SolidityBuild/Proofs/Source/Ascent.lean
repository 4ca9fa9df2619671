import Mathlib.Data.List.Chain
import Mathlib.Logic.Relation
import SolidityBuild.Proofs.Source.Closure
import SolidityBuild.Proofs.Source.Directory

/-!
Chains of relative imports. From a place on, the two directories of every file
that is reached are the first ones without some names and with others in their
place, the same for both. Only above the root do they part: there the virtual
one may grow while the real one stays. A file that leads back to itself this
way, with more `..` in front of its virtual path, raises itself; without such
files the directories that a chain passes through are soon used up.
-/

namespace SolidityBuild.Resolver

open SolidityBuild.Path FileTree

variable {r : Resolver} {t : FileTree} {root : Path}

/-- A file imports another relatively. -/
def StepsTo (r : Resolver) (t : FileTree) (p q : Place) : Prop :=
  ∃ text, t.text? p.real = some text ∧ ∃ i ∈ Import.scan text, i.kind = .relative ∧
    r.targetOf p i = q ∧ t.isFile q.real = true

/-- No relative import of a reachable file is written with a backslash. -/
def NoBackslashes (r : Resolver) (t : FileTree) (root : Path) : Prop :=
  ∀ p, Reachable r t root p → ∀ text, t.text? p.real = some text →
    ∀ i ∈ Import.scan text, i.kind = .relative → '\\' ∉ i.specifier.toList

/-- A path from the directory so many levels up. -/
def ups : (count : Nat) → String
  | 0 => ""
  | count + 1 => "../" ++ ups count

/-- Relative imports lead from a file to itself, with a virtual path that begins
further up. -/
def Raises (r : Resolver) (t : FileTree) (p q : Place) : Prop :=
  Relation.TransGen (StepsTo r t) p q ∧ q.real = p.real ∧
    ∃ count, 0 < count ∧ q.virtual = ups count ++ p.virtual

theorem reachable_of_stepsTo {p q : Place} (hp : Reachable r t root p) (h : StepsTo r t p q) :
    Reachable r t root q := by
  obtain ⟨text, htext, i, hi, -, htarget, -⟩ := h
  exact .imported hp ⟨text, htext, i, hi, htarget⟩

theorem reachable_of_transGen {p q : Place} (hp : Reachable r t root p)
    (h : Relation.TransGen (StepsTo r t) p q) : Reachable r t root q := by
  induction h with
  | single h => exact reachable_of_stepsTo hp h
  | tail _ h ih => exact reachable_of_stepsTo ih h

theorem steps_of_stepsTo (hlinkless : Linkless t) (hplain : NoBackslashes r t root) {p q : Place}
    (hp : Reachable r t root p) (h : StepsTo r t p q) :
    ∃ count name names, StandsIn t q name ∧ Steps (baseOf p) q count name names := by
  obtain ⟨text, htext, i, hi, hkind, rfl, hfile⟩ := h
  obtain ⟨name, names, -, hstands, hsteps⟩ := exists_steps hlinkless (isFile_of_text? htext) hkind
    (hplain p hp text htext i hi hkind) hfile
  exact ⟨_, name, names, hstands, hsteps⟩

/-! ## From a pair of directories on -/

section Bases

variable {b : Base} {p q : Place} {count count' : Nat} {name name' : String}
  {names names' : List String}

/-- What one step takes and puts comes on top of the steps before it. -/
theorem Steps.trans (h : Steps b p count name names)
    (h' : Steps (baseOf p) q count' name' names')
    (hrooted : b.rooted = true → virtualStack p ≠ []) :
    Steps b q (count + (count' - names.length)) name' (names' ++ names.drop count') := by
  have hnames : ".." ∉ names := fun hmem => h.not_up (List.mem_cons_of_mem name hmem)
  have hsame : virtualRooted p = b.rooted := by
    rw [h.rooted]
    cases hb : b.rooted with
    | false => rfl
    | true => simpa using hrooted hb
  have hvirtual : names' ++ pops (baseOf p).rooted count' (baseOf p).virtual =
      (names' ++ names.drop count') ++
        pops b.rooted (count + (count' - names.length)) b.virtual := by
    rw [baseOf, hsame, h.virtualDir, pops_append hnames, pops_add, List.append_assoc]
  have hreal : names' ++ (baseOf p).real.drop count' =
      (names' ++ names.drop count') ++ b.real.drop (count + (count' - names.length)) := by
    rw [baseOf, h.realDir, List.drop_append, List.drop_drop, List.append_assoc]
  have hbase : (baseOf p).rooted = b.rooted := by rw [baseOf, hsame]
  constructor
  case not_up =>
    have hdropped : ".." ∉ names.drop count' := fun hmem => hnames (List.mem_of_mem_drop hmem)
    have := h'.not_up
    simp only [List.mem_cons, List.mem_append, not_or] at this ⊢
    exact ⟨this.1, this.2, hdropped⟩
  case real => exact h'.real
  case realDir => rw [h'.realDir, hreal]
  case virtual => rw [h'.virtual, hvirtual, hbase]
  case unslashed => rw [← hvirtual]; exact h'.unslashed
  case virtualDir => rw [h'.virtualDir, hvirtual]
  case rooted => rw [h'.rooted, hbase]

/-- Where a virtual directory from the root has been used up, the next one is not
from the root. It is as if as many names had been taken back as the real
directory has lost. -/
def usedUp (real : List String) (count : Nat) : Base :=
  ⟨false, real, List.replicate count "-"⟩

theorem pops_usedUp (real : List String) (count count' : Nat) :
    pops (usedUp real count).rooted (count + count') (usedUp real count).virtual =
      pops false count' [] := by
  have hnames : ".." ∉ List.replicate count "-" := by simp
  have hall : pops false count (List.replicate count "-" ++ []) = _ := pops_append hnames count []
  rw [List.append_nil, List.length_replicate, Nat.sub_self,
    List.drop_eq_nil_of_le (Nat.le_of_eq List.length_replicate)] at hall
  rw [pops_add]
  exact congrArg (pops false count') hall

theorem Steps.trans_usedUp (h : Steps b p count name names)
    (h' : Steps (baseOf p) q count' name' names') (hnil : virtualStack p = []) :
    ∃ count'' ≤ b.real.length,
      Steps (usedUp b.real count'') q (count'' + count') name' names' := by
  have hnames : names = [] := by
    have hstack := h.virtualDir
    rw [hnil] at hstack
    exact (List.append_eq_nil_iff.1 hstack.symm).1
  have hunrooted : virtualRooted p = false := by rw [h.rooted, hnil, Bool.and_comm]; rfl
  have hvirtual : pops (baseOf p).rooted count' (baseOf p).virtual = pops false count' [] := by
    rw [baseOf, hunrooted, hnil]
  have hbase : (baseOf p).rooted = false := by rw [baseOf, hunrooted]
  have hreal : (baseOf p).real.drop count' = b.real.drop (min count b.real.length + count') := by
    have hmin : b.real.drop (min count b.real.length) = b.real.drop count :=
      List.drop_eq_drop_iff.2 (by omega)
    rw [baseOf, h.realDir, hnames, List.nil_append, ← List.drop_drop, hmin]
  refine ⟨min count b.real.length, Nat.min_le_right .., ?_⟩
  have hpops := pops_usedUp b.real (min count b.real.length) count'
  constructor
  case not_up => exact h'.not_up
  case real => exact h'.real
  case realDir => rw [h'.realDir, hreal]; rfl
  case virtual => rw [h'.virtual, hpops, hvirtual, hbase]; rfl
  case unslashed => rw [hpops, ← hvirtual]; exact h'.unslashed
  case virtualDir => rw [h'.virtualDir, hpops, hvirtual]
  case rooted => rw [h'.rooted, hbase]; rfl

end Bases

/-- The pairs of directories that the files reached from a place are told by. -/
def basesOf (start : Place) : List Base :=
  baseOf start :: (List.range ((realStack start).length + 1)).map (usedUp (realStack start))

/-- A file that is told by a pair of directories of a place. -/
def ReachedFrom (t : FileTree) (start q : Place) : Prop :=
  ∃ b ∈ basesOf start, ∃ count name names, StandsIn t q name ∧ Steps b q count name names

theorem real_of_mem_basesOf {start : Place} {b : Base} (hb : b ∈ basesOf start) :
    b.real = realStack start := by
  rcases List.mem_cons.1 hb with rfl | hb
  · rfl
  · obtain ⟨n, -, rfl⟩ := List.mem_map.1 hb
    rfl

theorem virtual_of_mem_basesOf {start : Place} {b : Base} (hb : b ∈ basesOf start) :
    CleanStack b.rooted b.virtual ∧
      b.virtual.length ≤ max (realStack start).length (virtualStack start).length := by
  rcases List.mem_cons.1 hb with rfl | hb
  · exact ⟨cleanStack_virtualStack start, Nat.le_max_right ..⟩
  · obtain ⟨n, hn, rfl⟩ := List.mem_map.1 hb
    rw [List.mem_range] at hn
    refine ⟨⟨List.replicate n "-", 0, by simp [usedUp], by simp, fun _ => rfl⟩, ?_⟩
    have hlength : (usedUp (realStack start) n).virtual.length = n := List.length_replicate
    rw [hlength]
    omega

theorem reachedFrom_of_steps {start q : Place} {count : Nat} {name : String}
    {names : List String} (hstands : StandsIn t q name)
    (h : Steps (baseOf start) q count name names) : ReachedFrom t start q :=
  ⟨_, List.mem_cons_self, count, name, names, hstands, h⟩

theorem ReachedFrom.step {start p q : Place} {count : Nat} {name : String} {names : List String}
    (hp : ReachedFrom t start p) (hstands : StandsIn t q name)
    (h : Steps (baseOf p) q count name names) : ReachedFrom t start q := by
  obtain ⟨b, hb, count', name', names', -, hsteps⟩ := hp
  by_cases hrooted : b.rooted = true → virtualStack p ≠ []
  · exact ⟨b, hb, _, name, _, hstands, hsteps.trans h hrooted⟩
  · obtain ⟨-, hnil⟩ := Classical.not_imp.1 hrooted
    obtain ⟨n, hn, hsteps'⟩ := hsteps.trans_usedUp h (Classical.not_not.1 hnil)
    rw [real_of_mem_basesOf hb] at hn hsteps'
    refine ⟨_, List.mem_cons_of_mem _ (List.mem_map.2 ⟨n, ?_, rfl⟩), _, name, names, hstands,
      hsteps'⟩
    rw [List.mem_range]
    omega

/-- Along a chain of relative imports every file is told by a pair of directories
of the place it begins with. -/
theorem reachedFrom_of_chain (hlinkless : Linkless t) (hplain : NoBackslashes r t root)
    {start p : Place} {chain : List Place} (hp : Reachable r t root p)
    (hstart : p = start ∨ ReachedFrom t start p)
    (hchain : List.IsChain (StepsTo r t) (p :: chain)) :
    ∀ q ∈ chain, Reachable r t root q ∧ ReachedFrom t start q := by
  induction chain generalizing p with
  | nil => simp
  | cons q rest ih =>
    obtain ⟨hstep, hrest⟩ := List.isChain_cons_cons.1 hchain
    have hq := reachable_of_stepsTo hp hstep
    obtain ⟨count, name, names, hstands, hsteps⟩ := steps_of_stepsTo hlinkless hplain hp hstep
    have hreached : ReachedFrom t start q := by
      rcases hstart with rfl | hstart
      · exact reachedFrom_of_steps hstands hsteps
      · exact hstart.step hstands hsteps
    exact List.forall_mem_cons.2 ⟨⟨hq, hreached⟩, ih hq (.inr hreached) hrest⟩

/-! ## Further and further up -/

/-- How many levels above its start the virtual directory of a place is. -/
def height (p : Place) : Nat := (virtualStack p).count ".."

theorem count_le_count_pops (rooted : Bool) (count : Nat) (stack : List String) :
    stack.count ".." ≤ (pops rooted count stack).count ".." := by
  induction count with
  | zero => exact Nat.le_refl _
  | succ count ih =>
    refine Nat.le_trans ih ?_
    rw [pops]
    cases pops rooted count stack with
    | nil => simp
    | cons name rest =>
      by_cases hname : name = ".."
      · simp [cleanStep, hname]
      · simp [cleanStep, hname]

theorem height_le_of_transGen (hlinkless : Linkless t) (hplain : NoBackslashes r t root)
    {p q : Place} (hp : Reachable r t root p) (h : Relation.TransGen (StepsTo r t) p q) :
    height p ≤ height q := by
  have hstep {p q : Place} (hp : Reachable r t root p) (h : StepsTo r t p q) :
      height p ≤ height q := by
    obtain ⟨count, name, names, -, hsteps⟩ := steps_of_stepsTo hlinkless hplain hp h
    rw [height, height, hsteps.virtualDir, List.count_append]
    exact Nat.le_trans (count_le_count_pops _ _ _) (Nat.le_add_left _ _)
  induction h with
  | single h => exact hstep hp h
  | tail hpq h ih => exact Nat.le_trans ih (hstep (reachable_of_transGen hp hpq) h)

theorem render_append_replicate {stack : List String} (hne : stack ≠ []) (count : Nat) :
    render false (stack ++ List.replicate count "..") = ups count ++ render false stack := by
  induction count with
  | zero => simp [ups]
  | succ count ih =>
    have hne' : stack ++ List.replicate count ".." ≠ [] := by simp [hne]
    have hlast : stack ++ List.replicate (count + 1) ".." =
        (stack ++ List.replicate count "..") ++ [".."] := by
      rw [List.replicate_succ', List.append_assoc]
    have hjoin : render false ((stack ++ List.replicate count "..") ++ [".."]) =
        ".." ++ "/" ++ render false (stack ++ List.replicate count "..") := by
      simp only [render, Bool.false_eq_true, if_false, List.isEmpty_iff, hne',
        List.append_eq_nil_iff, and_false, List.cons_ne_nil, List.reverse_append,
        List.reverse_cons, List.reverse_nil, List.nil_append, List.cons_append]
      rw [joinSegments_cons (by simp [hne])]
    rw [hlast, hjoin, ih, ups, String.append_assoc]
    rfl

/-- Two files that are told by one pair of directories, in one real directory and
both or neither beyond the end of the pair, have the same virtual path, or the
later one is the earlier one raised. -/
theorem virtual_eq_or_raises (hlinkless : Linkless t) (hplain : NoBackslashes r t root)
    {b : Base} {p q : Place} {count count' bound : Nat} {name : String}
    {names names' : List String} (hp : Reachable r t root p)
    (hreach : Relation.TransGen (StepsTo r t) p q) (h : Steps b p count name names)
    (h' : Steps b q count' name names') (hsame : realStack p = realStack q)
    (hclean : CleanStack b.rooted b.virtual) (hreal : b.real.length ≤ bound)
    (hvirtual : b.virtual.length ≤ bound) (hcount : min count bound = min count' bound) :
    p.virtual = q.virtual ∨ Raises r t p q := by
  by_cases heq : count = count'
  · subst heq
    have hnames := hsame
    rw [h.realDir, h'.realDir, List.append_cancel_right_eq] at hnames
    exact .inl (by rw [h.virtual, h'.virtual, hnames])
  · have hnames : names = names' := by
      have hall := hsame
      rwa [h.realDir, h'.realDir, List.drop_eq_nil_of_le (by omega),
        List.drop_eq_nil_of_le (by omega), List.append_nil, List.append_nil] at hall
    subst hnames
    have hheight := height_le_of_transGen hlinkless hplain hp hreach
    rw [height, height, h.virtualDir, h'.virtualDir, List.count_append,
      List.count_append] at hheight
    have hpops (low high : Nat) (hlow : bound ≤ low) (hhigh : low ≤ high) :=
      hclean.pops_eq (Nat.le_trans hvirtual hlow) hhigh
    cases hrooted : b.rooted with
    | true =>
      left
      have hbound := hpops bound count (Nat.le_refl bound) (by omega)
      have hbound' := hpops bound count' (Nat.le_refl bound) (by omega)
      rw [hrooted, if_pos rfl, List.replicate_zero, List.append_nil] at hbound hbound'
      rw [h.virtual, h'.virtual, hrooted, hbound, hbound']
    | false =>
      right
      rw [hrooted] at hpops hheight
      rcases Nat.lt_or_gt_of_ne heq with hlt | hlt
      · have hup := hpops count count' (by omega) (by omega)
        rw [if_neg Bool.false_ne_true] at hup
        refine ⟨hreach, by rw [h.real, h'.real, hsame], count' - count, by omega, ?_⟩
        rw [h.virtual, h'.virtual, hrooted, hup, ← List.append_assoc, ← List.cons_append,
          render_append_replicate (List.cons_ne_nil _ _)]
      · have hup := hpops count' count (by omega) (by omega)
        rw [if_neg Bool.false_ne_true] at hup
        rw [hup, List.count_append, List.count_replicate_self] at hheight
        omega

end SolidityBuild.Resolver
