import SolidityBuild.Proofs.Path

/-!
Normal forms as stacks. Cleaning works on a stack of segments, the innermost
first. Segments that are cleaned onto a stack take some of its names back and
put others in their place, and what they take and put does not depend on the
stack. What is taken from below the names is dropped in a path from the root,
and leaves a `..` in another one.
-/

namespace SolidityBuild.Path

/-! ## Taking names back -/

/-- A stack without its last names, as many as there are `..`. -/
def pops (rooted : Bool) : (count : Nat) → List String → List String
  | 0, stack => stack
  | count + 1, stack => cleanStep rooted (pops rooted count stack) ".."

theorem pops_add (rooted : Bool) (count count' : Nat) (stack : List String) :
    pops rooted (count + count') stack = pops rooted count' (pops rooted count stack) := by
  induction count' with
  | zero => rfl
  | succ count' ih => rw [← Nat.add_assoc, pops, pops, ih]

theorem cleanStep_up {rooted : Bool} {name : String} {stack : List String} (hname : name ≠ "..") :
    cleanStep rooted (name :: stack) ".." = stack := by
  simp [cleanStep, hname]

theorem cleanStep_name {rooted : Bool} {stack : List String} {name : String} (hempty : name ≠ "")
    (hdot : name ≠ ".") (hup : name ≠ "..") : cleanStep rooted stack name = name :: stack := by
  simp [cleanStep, hempty, hdot, hup]

theorem pops_append {rooted : Bool} {names : List String} (hnames : ".." ∉ names) (count : Nat)
    (stack : List String) :
    pops rooted count (names ++ stack) =
      names.drop count ++ pops rooted (count - names.length) stack := by
  induction names generalizing count with
  | nil => simp
  | cons name names ih =>
    obtain ⟨hname, hrest⟩ := not_or.1 (mt List.mem_cons.2 hnames)
    cases count with
    | zero => simp [pops]
    | succ count =>
      rw [Nat.add_comm, pops_add, pops, pops, List.cons_append, cleanStep_up (Ne.symm hname),
        ih hrest, Nat.add_comm 1, List.drop_succ_cons, List.length_cons, Nat.add_sub_add_right]

theorem pops_rooted_nil (count : Nat) : pops true count [] = [] := by
  induction count with
  | zero => rfl
  | succ count ih =>
    rw [pops, ih]
    rfl

/-- From the root, names are taken back until none is left. -/
theorem pops_rooted {stack : List String} (hstack : ".." ∉ stack) (count : Nat) :
    pops true count stack = stack.drop count := by
  have h : pops true count (stack ++ []) = _ := pops_append hstack count []
  rwa [List.append_nil, pops_rooted_nil, List.append_nil] at h

theorem pops_replicate (count height : Nat) :
    pops false count (List.replicate height "..") = List.replicate (height + count) ".." := by
  induction count with
  | zero => rfl
  | succ count ih =>
    rw [pops, ih, ← Nat.add_assoc, List.replicate_succ]
    cases height + count with
    | zero => rfl
    | succ n => rfl

/-- Names are taken back, and then what is missing leaves `..` segments. -/
theorem pops_names {names : List String} (hnames : ".." ∉ names) (count : Nat) :
    pops false count names =
      names.drop count ++ List.replicate (count - names.length) ".." := by
  have h : pops false count (names ++ List.replicate 0 "..") = _ := pops_append hnames count _
  rwa [pops_replicate, List.replicate_zero, List.append_nil, Nat.zero_add] at h

theorem append_replicate_inj {names names' : List String} {height height' : Nat}
    (hnames : ".." ∉ names) (hnames' : ".." ∉ names')
    (h : names ++ List.replicate height ".." = names' ++ List.replicate height' "..") :
    names = names' ∧ height = height' := by
  have hheight := congrArg (List.count "..") h
  rw [List.count_append, List.count_append, List.count_eq_zero.2 hnames,
    List.count_eq_zero.2 hnames', List.count_replicate_self, List.count_replicate_self,
    Nat.zero_add, Nat.zero_add] at hheight
  rw [hheight] at h
  exact ⟨List.append_cancel_right h, hheight⟩

/-! ## Clean stacks -/

/-- A stack of names above `..` segments, which are there only in a path that is
not from the root. -/
def CleanStack (rooted : Bool) (stack : List String) : Prop :=
  ∃ names height, stack = names ++ List.replicate height ".." ∧ ".." ∉ names ∧
    (rooted = true → height = 0)

theorem CleanStack.nil (rooted : Bool) : CleanStack rooted [] := ⟨[], 0, rfl, by simp, fun _ => rfl⟩

theorem CleanStack.step {rooted : Bool} {stack : List String} (h : CleanStack rooted stack)
    (segment : String) : CleanStack rooted (cleanStep rooted stack segment) := by
  obtain ⟨names, height, rfl, hnames, hheight⟩ := h
  unfold cleanStep
  split
  next => exact ⟨names, height, rfl, hnames, hheight⟩
  next =>
    split
    next =>
      cases names with
      | nil =>
        cases height with
        | zero =>
          cases rooted with
          | true => exact .nil true
          | false => exact ⟨[], 1, rfl, by simp, fun h => by cases h⟩
        | succ height => exact ⟨[], height + 2, rfl, by simp, fun h => by cases hheight h⟩
      | cons name names =>
        obtain ⟨hname, hrest⟩ := not_or.1 (mt List.mem_cons.2 hnames)
        simp only [List.cons_append, if_neg (Ne.symm hname)]
        exact ⟨names, height, rfl, hrest, hheight⟩
    next hup =>
      exact ⟨segment :: names, height, rfl, by simp [hnames, Ne.symm hup], hheight⟩

theorem cleanStack_foldl {rooted : Bool} {stack : List String} (h : CleanStack rooted stack)
    (segments : List String) : CleanStack rooted (segments.foldl (cleanStep rooted) stack) := by
  induction segments generalizing stack with
  | nil => exact h
  | cons segment rest ih => exact ih (h.step segment)

theorem CleanStack.tail {rooted : Bool} {name : String} {stack : List String}
    (h : CleanStack rooted (name :: stack)) : CleanStack rooted stack := by
  obtain ⟨names, height, hstack, hnames, hheight⟩ := h
  cases names with
  | nil =>
    cases height with
    | zero => cases hstack
    | succ height =>
      obtain ⟨-, rfl⟩ := List.cons.inj hstack
      exact ⟨[], height, rfl, by simp, fun h => by cases hheight h⟩
  | cons first names =>
    obtain ⟨-, rfl⟩ := List.cons.inj hstack
    exact ⟨names, height, rfl, fun hmem => hnames (List.mem_cons_of_mem first hmem), hheight⟩

theorem CleanStack.not_mem_up {stack : List String} (h : CleanStack true stack) :
    ".." ∉ stack := by
  obtain ⟨names, height, rfl, hnames, hheight⟩ := h
  rw [hheight rfl]
  simpa using hnames

/-- All names are gone once as many are taken back as the stack is high. -/
theorem CleanStack.pops_eq {rooted : Bool} {stack : List String} (h : CleanStack rooted stack)
    {count count' : Nat} (hcount : stack.length ≤ count) (hcount' : count ≤ count') :
    pops rooted count' stack = pops rooted count stack ++
      List.replicate (if rooted then 0 else count' - count) ".." := by
  obtain ⟨names, height, rfl, hnames, hheight⟩ := h
  rw [List.length_append, List.length_replicate] at hcount
  rw [pops_append hnames, pops_append hnames, List.drop_eq_nil_of_le (by omega),
    List.drop_eq_nil_of_le (by omega), List.nil_append, List.nil_append]
  cases rooted with
  | true => simp [hheight rfl, pops_rooted_nil]
  | false =>
    rw [pops_replicate, pops_replicate, if_neg Bool.false_ne_true, List.replicate_append_replicate]
    congr 1
    omega

/-- What stands further up stays below whatever is taken back. -/
theorem CleanStack.pops_append_replicate {stack : List String} (h : CleanStack false stack)
    (count height : Nat) :
    pops false count (stack ++ List.replicate height "..") =
      pops false count stack ++ List.replicate height ".." := by
  obtain ⟨names, height', rfl, hnames, -⟩ := h
  rw [List.append_assoc, List.replicate_append_replicate, pops_append hnames, pops_append hnames,
    pops_replicate, pops_replicate, List.append_assoc, List.replicate_append_replicate]
  congr 2
  omega

theorem CleanStack.append_replicate {stack : List String} (h : CleanStack false stack)
    (count : Nat) : CleanStack false (stack ++ List.replicate count "..") := by
  obtain ⟨names, height, rfl, hnames, -⟩ := h
  exact ⟨names, height + count, by rw [List.append_assoc, List.replicate_append_replicate], hnames,
    fun h => by cases h⟩

theorem CleanStack.of_append_replicate {stack : List String} {count : Nat}
    (h : CleanStack false (stack ++ List.replicate count "..")) : CleanStack false stack := by
  induction count with
  | zero => simpa using h
  | succ count ih =>
    apply ih
    obtain ⟨names, height, hstack, hnames, -⟩ := h
    rw [List.replicate_succ', ← List.append_assoc] at hstack
    cases height with
    | zero =>
      rw [List.replicate_zero, List.append_nil] at hstack
      rw [← hstack] at hnames
      simp at hnames
    | succ height =>
      rw [List.replicate_succ', ← List.append_assoc] at hstack
      exact ⟨names, height, List.append_cancel_right hstack, hnames, fun h => by cases h⟩

/-- Cleaning a clean stack once more changes nothing. -/
theorem foldl_cleanStep_reverse {rooted : Bool} {stack : List String} (h : CleanStack rooted stack)
    (hnamed : ∀ s ∈ stack, s ≠ "" ∧ s ≠ ".") :
    stack.reverse.foldl (cleanStep rooted) [] = stack := by
  induction stack with
  | nil => rfl
  | cons name stack ih =>
    obtain ⟨hempty, hdot⟩ := hnamed name List.mem_cons_self
    rw [List.reverse_cons, List.foldl_append,
      ih h.tail fun s hs => hnamed s (List.mem_cons_of_mem name hs), List.foldl_cons,
      List.foldl_nil]
    by_cases hup : name = ".."
    · subst hup
      obtain ⟨names, height, hstack, hnames, hheight⟩ := h
      cases names with
      | cons first names =>
        obtain ⟨rfl, -⟩ := List.cons.inj hstack
        simp at hnames
      | nil =>
        cases height with
        | zero => cases hstack
        | succ height =>
          obtain ⟨-, rfl⟩ := List.cons.inj hstack
          cases rooted with
          | true => cases hheight rfl
          | false => cases height <;> rfl
    · exact cleanStep_name hempty hdot hup

/-! ## What segments do to every stack -/

/-- One more segment of what is taken back and put in its place. -/
def netStep (net : Nat × List String) (segment : String) : Nat × List String :=
  if segment = "" ∨ segment = "." then net
  else if segment = ".." then
    match net.2 with
    | [] => (net.1 + 1, [])
    | _ :: rest => (net.1, rest)
  else (net.1, segment :: net.2)

/-- How many names the segments take back, and which they put in their place. -/
def net (segments : List String) : Nat × List String := segments.foldl netStep (0, [])

theorem up_not_mem_netStep {total : Nat × List String} (h : ".." ∉ total.2) (segment : String) :
    ".." ∉ (netStep total segment).2 := by
  obtain ⟨count, names⟩ := total
  unfold netStep
  split
  next => exact h
  next =>
    split
    next =>
      cases names with
      | nil => simp
      | cons name names => exact fun hmem => h (List.mem_cons_of_mem name hmem)
    next hup => simpa [Ne.symm hup] using h

theorem up_not_mem_net (segments : List String) : ".." ∉ (net segments).2 := by
  unfold net
  have hstart : ".." ∉ ((0, []) : Nat × List String).2 := by simp
  generalize ((0, []) : Nat × List String) = start at hstart
  induction segments generalizing start with
  | nil => exact hstart
  | cons segment rest ih => exact ih _ (up_not_mem_netStep hstart segment)

theorem cleanStep_append_pops {rooted : Bool} {total : Nat × List String} (h : ".." ∉ total.2)
    (stack : List String) (segment : String) :
    cleanStep rooted (total.2 ++ pops rooted total.1 stack) segment =
      (netStep total segment).2 ++ pops rooted (netStep total segment).1 stack := by
  obtain ⟨count, names⟩ := total
  by_cases hidle : segment = "" ∨ segment = "."
  · simp [cleanStep, netStep, hidle]
  · obtain ⟨hempty, hdot⟩ := not_or.1 hidle
    by_cases hup : segment = ".."
    · subst hup
      cases names with
      | nil => simp [netStep, pops]
      | cons name names =>
        have hname : name ≠ ".." := fun hname => h (by simp [hname])
        simp [netStep, cleanStep_up hname]
    · rw [cleanStep_name hempty hdot hup]
      simp [netStep, hempty, hdot, hup]

theorem foldl_append_pops {rooted : Bool} (total : Nat × List String) (h : ".." ∉ total.2)
    (stack segments : List String) :
    segments.foldl (cleanStep rooted) (total.2 ++ pops rooted total.1 stack) =
      (segments.foldl netStep total).2 ++ pops rooted (segments.foldl netStep total).1 stack := by
  induction segments generalizing total with
  | nil => rfl
  | cons segment rest ih =>
    rw [List.foldl_cons, List.foldl_cons, cleanStep_append_pops h]
    exact ih _ (up_not_mem_netStep h segment)

/-- Segments do the same to every stack. -/
theorem foldl_cleanStep_eq (rooted : Bool) (stack segments : List String) :
    segments.foldl (cleanStep rooted) stack =
      (net segments).2 ++ pops rooted (net segments).1 stack :=
  foldl_append_pops (0, []) (by simp) stack segments

end SolidityBuild.Path
