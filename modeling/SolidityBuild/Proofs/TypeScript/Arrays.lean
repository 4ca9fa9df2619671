import SolidityBuild.Proofs.TypeScript.Expansion

/-!
Array markers. A marker belongs to what stands directly in front of it, so it takes in
all of an element type unless a bar stands there outside all brackets. Parentheses are
put around an element type with a blank in it. That is enough for unions written with
blanks, while a mapping with a union without any makes an array of its last member only.
-/

namespace SolidityBuild.TypeScript

open Abi (Field)
open BaseType (named? normalize)

/-! ## Reading brackets -/

/-- What is known of a type expression behind some of its characters. -/
structure Scan where
  /-- What the open brackets are to be closed with, the innermost first. -/
  pending : List Char
  /-- Whether the last character was an equals sign, with which `>` makes an arrow. -/
  arrow : Bool
  /-- Whether a bar stood outside all brackets. -/
  split : Bool
deriving DecidableEq

namespace Scan

/-- What a bracket is closed with. -/
def closer? : Char → Option Char
  | '(' => some ')'
  | '[' => some ']'
  | '\x7b' => some '\x7d'
  | '<' => some '>'
  | _ => none

def closers : List Char := [')', ']', '\x7d', '>']

/-- What the members of a union or an intersection stand between. -/
def bars : List Char := ['|', '&']

/-- The characters that matter for reading brackets. -/
def marks : List Char := ['(', '[', '\x7b', '<'] ++ closers ++ bars

/-- Read one character, which fails at a bracket that closes none. -/
def step (s : Scan) (c : Char) : Option Scan :=
  match closer? c with
  | some closer => some ⟨closer :: s.pending, false, s.split⟩
  | none =>
    if c ∈ closers ∧ ¬ (c = '>' ∧ s.arrow = true) then
      if s.pending.head? = some c then some ⟨s.pending.tail, false, s.split⟩ else none
    else some ⟨s.pending, c = '=', s.split || (s.pending.isEmpty && bars.contains c)⟩

def start : Scan := ⟨[], false, false⟩

/-- Read characters from left to right. -/
def run (s : Scan) (cs : List Char) : Option Scan := cs.foldlM step s

theorem run_cons (s : Scan) (c : Char) (cs : List Char) :
    s.run (c :: cs) = (s.step c).bind (·.run cs) := List.foldlM_cons

theorem run_append (s : Scan) (front back : List Char) :
    s.run (front ++ back) = (s.run front).bind (·.run back) := List.foldlM_append

variable {s t : Scan} {outer : List Char}

/-- A bracket that closes the innermost open one. An arrow may stand in front of it,
so it is not `>`. -/
theorem step_close {c : Char} (h : c ∈ [')', ']', '\x7d']) (arrow split : Bool) :
    step ⟨c :: outer, arrow, split⟩ c = some ⟨outer, false, split⟩ := by
  simp only [List.mem_cons, List.not_mem_nil, or_false] at h
  rcases h with rfl | rfl | rfl <;> simp [step, closer?, closers]

/-- What stands between two brackets is read in between, and is forgotten. -/
theorem run_enclosed {opening closing : Char} {cs : List Char} {arrow : Bool}
    (hopening : closer? opening = some closing) (hclosing : closing ∈ [')', ']', '\x7d'])
    (h : run ⟨closing :: s.pending, false, s.split⟩ cs =
      some ⟨closing :: s.pending, arrow, s.split⟩) :
    s.run (opening :: (cs ++ [closing])) = some ⟨s.pending, false, s.split⟩ := by
  have hopen : s.step opening = some ⟨closing :: s.pending, false, s.split⟩ := by
    rw [step, hopening]
  rw [run_cons, hopen, Option.bind_some, run_append, h, Option.bind_some, run_cons,
    step_close hclosing, Option.bind_some]
  rfl

theorem step_bare {c : Char} (h : c ∉ marks) :
    s.step c = some ⟨s.pending, c = '=', s.split⟩ := by
  simp only [marks, List.mem_append, not_or] at h
  obtain ⟨⟨hopening, hclosers⟩, hbars⟩ := h
  have hnone : closer? c = none := by
    unfold closer?
    split <;> simp_all
  rw [step, hnone]
  simp [hclosers, hbars]

/-- Within further brackets no bar counts, and all else is as it is without them. -/
theorem step_inside {c : Char} (houter : outer ≠ []) (split : Bool) (h : s.step c = some t) :
    step ⟨s.pending ++ outer, s.arrow, split⟩ c = some ⟨t.pending ++ outer, t.arrow, split⟩ := by
  simp only [step] at h ⊢
  split at h
  next closer _ =>
    cases h
    rfl
  next _ =>
    split at h
    next hcloses =>
      split at h
      next hhead =>
        cases h
        obtain ⟨rest, hrest⟩ := List.head?_eq_some_iff.1 hhead
        rw [if_pos hcloses, hrest]
        simp
      next _ => cases h
    next hcloses =>
      cases h
      have hnonempty : (s.pending ++ outer).isEmpty = false := by simp [houter]
      rw [if_neg hcloses, hnonempty, Bool.false_and, Bool.or_false]

theorem run_inside {cs : List Char} (houter : outer ≠ []) (split : Bool) (h : s.run cs = some t) :
    run ⟨s.pending ++ outer, s.arrow, split⟩ cs =
      some ⟨t.pending ++ outer, t.arrow, split⟩ := by
  induction cs generalizing s with
  | nil =>
    cases h
    rfl
  | cons c cs ih =>
    rw [run_cons] at h ⊢
    obtain ⟨next, hstep, hrest⟩ := Option.bind_eq_some_iff.1 h
    rw [step_inside houter split hstep, Option.bind_some, ih hrest]

/-- Bars in front do not matter for what is read. -/
theorem step_split {c : Char} (split : Bool) (h : s.step c = some t) :
    ∃ split', step ⟨s.pending, s.arrow, split⟩ c = some ⟨t.pending, t.arrow, split'⟩ := by
  simp only [step] at h ⊢
  split at h
  next =>
    cases h
    exact ⟨_, rfl⟩
  next =>
    split at h
    next hcloses =>
      split at h
      next hhead =>
        cases h
        exact ⟨_, by rw [if_pos hcloses, if_pos hhead]⟩
      next => cases h
    next hcloses =>
      cases h
      exact ⟨_, by rw [if_neg hcloses]⟩

theorem run_split {cs : List Char} (split : Bool) (h : s.run cs = some t) :
    ∃ split', run ⟨s.pending, s.arrow, split⟩ cs = some ⟨t.pending, t.arrow, split'⟩ := by
  induction cs generalizing s split with
  | nil =>
    cases h
    exact ⟨split, rfl⟩
  | cons c cs ih =>
    rw [run_cons] at h
    obtain ⟨next, hstep, hrest⟩ := Option.bind_eq_some_iff.1 h
    obtain ⟨split', hstep'⟩ := step_split split hstep
    obtain ⟨split'', hrest'⟩ := ih split' hrest
    refine ⟨split'', ?_⟩
    rw [run_cons, hstep', Option.bind_some, hrest']

/-- Characters that are no brackets and no bars change nothing but the arrow. -/
theorem run_bare {cs : List Char} (h : ∀ c ∈ cs, c ∉ marks) :
    ∃ arrow, s.run cs = some ⟨s.pending, arrow, s.split⟩ := by
  induction cs generalizing s with
  | nil => exact ⟨s.arrow, rfl⟩
  | cons c cs ih =>
    have hc := h c List.mem_cons_self
    rw [run_cons, step_bare hc, Option.bind_some]
    exact ih fun d hd => h d (List.mem_cons_of_mem c hd)

end Scan

/-! ## Balanced and split expressions -/

/-- The brackets of an expression are balanced, and `split` says whether a bar stands
outside all of them. -/
def Reads (expr : String) (split : Bool) : Prop :=
  ∃ arrow, Scan.start.run expr.toList = some ⟨[], arrow, split⟩

def IsBalanced (expr : String) : Prop := ∃ split, Reads expr split

/-- A bar stands outside all brackets, so that an array marker behind the expression
belongs to what follows the last such bar. -/
def IsSplit (expr : String) : Prop := Reads expr true

/-- Whether there is a blank in an expression, which decides on parentheses. -/
def hasBlank (expr : String) : Bool := expr.toList.any Text.isBlank

/-- A text without brackets and bars. Every alphanumeric name is one. -/
def IsBare (s : String) : Prop := ∀ c ∈ s.toList, c ∉ Scan.marks

instance (s : String) : Decidable (IsBare s) := List.decidableBAll (· ∉ Scan.marks) s.toList

variable {m : Mapping} {typeName expr : String} {split split' : Bool} {dims : List Abi.Dim}

theorem Reads.unique (h : Reads expr split) (h' : Reads expr split') : split = split' := by
  obtain ⟨arrow, hrun⟩ := h
  obtain ⟨arrow', hrun'⟩ := h'
  rw [hrun] at hrun'
  cases hrun'
  rfl

theorem Reads.isSplit_iff (h : Reads expr split) : IsSplit expr ↔ split = true := by
  constructor
  · intro hsplit
    exact h.unique hsplit
  · rintro rfl
    exact h

theorem reads_of_isBare (h : IsBare expr) : Reads expr false := Scan.run_bare h

/-- Between brackets an expression is read as by itself, but for its bars. -/
theorem Reads.run_inside (h : Reads expr split) {outer : List Char} (houter : outer ≠ [])
    (before : Bool) :
    ∃ arrow, Scan.run ⟨outer, false, before⟩ expr.toList = some ⟨outer, arrow, before⟩ := by
  obtain ⟨arrow, hrun⟩ := h
  exact ⟨arrow, Scan.run_inside houter before hrun⟩

theorem enclose_of_hasBlank (h : hasBlank expr = true) :
    Mapping.enclose expr = "(" ++ expr ++ ")" := if_pos h

theorem enclose_of_not_hasBlank (h : hasBlank expr = false) : Mapping.enclose expr = expr := by
  rw [Mapping.enclose, if_neg]
  rwa [Bool.not_eq_true]

/-- Parentheses stand around an expression with a blank, so that it is split no more. -/
theorem Reads.enclose (h : Reads expr split) :
    Reads (Mapping.enclose expr) (split && !hasBlank expr) := by
  cases hblank : hasBlank expr with
  | true =>
    obtain ⟨arrow, hrun⟩ := h.run_inside (List.cons_ne_nil ')' []) false
    have hlist : ("(" ++ expr ++ ")").toList = '(' :: (expr.toList ++ [')']) := by simp
    rw [enclose_of_hasBlank hblank, Bool.not_true, Bool.and_false, Reads, hlist]
    exact ⟨false, Scan.run_enclosed rfl (by decide) hrun⟩
  | false =>
    rw [enclose_of_not_hasBlank hblank, Bool.not_false, Bool.and_true]
    exact h

theorem Reads.append_brackets (h : Reads expr split) : Reads (expr ++ "[]") split := by
  obtain ⟨arrow, hrun⟩ := h
  have hlist : (expr ++ "[]").toList = expr.toList ++ '[' :: ([] ++ [']']) := by simp
  refine ⟨false, ?_⟩
  rw [hlist, Scan.run_append, hrun, Option.bind_some]
  exact Scan.run_enclosed rfl (by decide) rfl

/-- An array type has a blank only from its element type. -/
theorem hasBlank_enclose_append_brackets (expr : String) :
    hasBlank (Mapping.enclose expr ++ "[]") = hasBlank expr := by
  have hmarks : Text.isBlank '[' = false ∧ Text.isBlank ']' = false ∧
      Text.isBlank '(' = false ∧ Text.isBlank ')' = false := by
    decide
  cases hblank : hasBlank expr with
  | true =>
    rw [enclose_of_hasBlank hblank]
    rw [hasBlank] at hblank ⊢
    simp [hmarks, hblank]
  | false =>
    rw [enclose_of_not_hasBlank hblank]
    rw [hasBlank] at hblank ⊢
    simp [hmarks, hblank]

/-- At any depth of arrays, a bar of the innermost element type stays outside all
brackets unless a blank brings in parentheses. -/
theorem Reads.enclose_arrayOf (h : Reads expr split) (dims : List Abi.Dim) :
    Reads (Mapping.enclose (Mapping.arrayOf expr dims)) (split && !hasBlank expr) := by
  induction dims generalizing expr split with
  | nil => exact h.enclose
  | cons dim dims ih =>
    have hnext := ih h.enclose.append_brackets
    rw [hasBlank_enclose_append_brackets, Bool.and_assoc, Bool.and_self] at hnext
    exact hnext

theorem IsBalanced.run_from (h : IsBalanced expr) (split : Bool) :
    ∃ arrow split', Scan.run ⟨[], false, split⟩ expr.toList = some ⟨[], arrow, split'⟩ := by
  obtain ⟨_, arrow, hrun⟩ := h
  obtain ⟨split', hrun'⟩ := Scan.run_split split hrun
  exact ⟨arrow, split', hrun'⟩

theorem isBalanced_intercalate {exprs : List String} (h : ∀ expr ∈ exprs, IsBalanced expr) :
    IsBalanced (String.intercalate ", " exprs) := by
  induction exprs with
  | nil => exact ⟨false, false, rfl⟩
  | cons expr rest ih =>
    have hexpr := h expr List.mem_cons_self
    cases rest with
    | nil => rwa [String.intercalate_singleton]
    | cons next rest =>
      have hrest := ih fun e he => h e (List.mem_cons_of_mem expr he)
      obtain ⟨split, arrow, hrun⟩ := hexpr
      obtain ⟨arrow', split', hrun'⟩ := hrest.run_from split
      -- neither the comma nor the blank changes anything
      have hseparator : Scan.run ⟨[], arrow, split⟩ ", ".toList = some ⟨[], false, split⟩ := by
        cases split <;> rfl
      refine ⟨split', arrow', ?_⟩
      rw [String.intercalate_cons_cons, String.toList_append, String.toList_append,
        Scan.run_append, Scan.run_append, hrun, Option.bind_some, hseparator, Option.bind_some,
        hrun']

/-- A tuple type stands in brackets as a whole. -/
theorem reads_tuple {exprs : List String} (h : ∀ expr ∈ exprs, IsBalanced expr) :
    Reads ("[" ++ String.intercalate ", " exprs ++ "]") false := by
  obtain ⟨_, hreads⟩ := isBalanced_intercalate h
  obtain ⟨arrow, hrun⟩ := hreads.run_inside (List.cons_ne_nil ']' []) false
  have hlist : ("[" ++ String.intercalate ", " exprs ++ "]").toList =
      '[' :: ((String.intercalate ", " exprs).toList ++ [']']) := by
    simp
  rw [Reads, hlist]
  exact ⟨false, Scan.run_enclosed rfl (by decide) hrun⟩

/-! ## Type expressions -/

theorem isBare_normalize (h : IsBare typeName) : IsBare (normalize typeName) := by
  have hall : ∀ a ∈ BaseType.aliases, IsBare a.2 := by decide
  rcases BaseType.normalize_cases typeName with hself | halias
  · rwa [hself]
  · exact hall (typeName, normalize typeName) halias

theorem isBare_name (b : BaseType) : IsBare b.name := by
  have hnone : Scan.marks.any Char.isAlphanum = false := by decide
  exact fun _ => BaseType.not_mem_of_mem_name hnone

theorem exprOfName_of_lookup? (h : m.lookup? typeName = some expr) :
    m.exprOfName typeName = expr := by
  obtain ⟨b, hnamed, hget⟩ := Option.bind_eq_some_iff.1 h
  exact Mapping.exprOfName_of_mapped hnamed hget

theorem exprOfName_of_lookup?_eq_none (h : m.lookup? typeName = none) :
    m.exprOfName typeName = normalize typeName :=
  Mapping.exprOfName_of_unmapped (Option.bind_eq_none_iff.1 h)

theorem typeOf_eq_arrayOf (m : Mapping) (f : Field) :
    m.typeOf f = Mapping.arrayOf (m.typeOf (f.withDims [])) f.dims := by
  cases f <;> rfl

theorem dims_of_element? {f element : Field} (h : f.element? = some element) :
    ∃ last, f.dims = element.dims ++ [last] ∧ element.withDims [] = f.withDims [] := by
  rw [Field.element?] at h
  split at h
  next => cases h
  next hdims =>
    cases h
    have hne : f.dims ≠ [] := by simpa using hdims
    refine ⟨f.dims.getLast hne, ?_⟩
    cases f <;> exact ⟨(List.dropLast_concat_getLast hne).symm, rfl⟩

/-- The type of an array is that of its elements, in parentheses if there is a blank in
it, and a marker. -/
theorem typeOf_of_element? {f element : Field} (h : f.element? = some element) :
    m.typeOf f = Mapping.enclose (m.typeOf element) ++ "[]" := by
  obtain ⟨last, hdims, hplain⟩ := dims_of_element? h
  rw [typeOf_eq_arrayOf, hdims, typeOf_eq_arrayOf m element, hplain, Mapping.arrayOf,
    List.foldl_append]
  rfl

/-- Every expression of a mapping has balanced brackets. -/
def Mapping.IsBalanced (m : Mapping) : Prop :=
  ∀ b expr, m.get? b = some expr → TypeScript.IsBalanced expr

theorem IsBalanced.arrayOf (h : IsBalanced expr) (dims : List Abi.Dim) :
    IsBalanced (Mapping.arrayOf expr dims) := by
  induction dims generalizing expr with
  | nil => exact h
  | cons dim dims ih =>
    obtain ⟨split, hreads⟩ := h
    exact ih ⟨_, hreads.enclose.append_brackets⟩

theorem isBalanced_exprOfName (hm : m.IsBalanced) (h : IsBare typeName) :
    IsBalanced (m.exprOfName typeName) := by
  cases hlookup : m.lookup? typeName with
  | none =>
    rw [exprOfName_of_lookup?_eq_none hlookup]
    exact ⟨false, reads_of_isBare (isBare_normalize h)⟩
  | some expr =>
    obtain ⟨b, -, hget⟩ := Option.bind_eq_some_iff.1 hlookup
    rw [exprOfName_of_lookup? hlookup]
    exact hm b expr hget

mutual

theorem isBalanced_typeOf (hm : m.IsBalanced) : ∀ f : Field,
    (∀ n ∈ typeNames f, IsBare n) → IsBalanced (m.typeOf f)
  | .regular label typeName dims, h => by
      rw [Mapping.typeOf]
      exact (isBalanced_exprOfName hm (h typeName List.mem_cons_self)).arrayOf dims
  | .tuple label components dims, h => by
      rw [Mapping.typeOf]
      apply IsBalanced.arrayOf
      exact ⟨false, reads_tuple (isBalanced_typesOf hm components h)⟩

theorem isBalanced_typesOf (hm : m.IsBalanced) : ∀ fs : List Field,
    (∀ n ∈ typeNamesAll fs, IsBare n) → ∀ expr ∈ m.typesOf fs, IsBalanced expr
  | [], _ => by simp [Mapping.typesOf]
  | f :: fs, h => by
      rw [typeNamesAll, List.forall_mem_append] at h
      rw [Mapping.typesOf, List.forall_mem_cons]
      exact ⟨isBalanced_typeOf hm f h.1, isBalanced_typesOf hm fs h.2⟩

end

/-! ## Markers -/

/-- A union or an intersection without blanks. -/
def IsTightUnion (expr : String) : Prop := IsSplit expr ∧ hasBlank expr = false

theorem isSplit_enclose_arrayOf_iff (h : IsBalanced expr) (dims : List Abi.Dim) :
    IsSplit (Mapping.enclose (Mapping.arrayOf expr dims)) ↔ IsTightUnion expr := by
  obtain ⟨split, hreads⟩ := h
  rw [IsTightUnion, hreads.isSplit_iff, (hreads.enclose_arrayOf dims).isSplit_iff]
  simp

/-- What stands in front of the first marker is a tight union only if it is mapped to
one, since names have no bars and a tuple stands in brackets. -/
theorem isTightUnion_typeOf_iff (hm : m.IsBalanced) (f : Field)
    (hbare : ∀ n ∈ typeNames f, IsBare n) :
    IsTightUnion (m.typeOf (f.withDims [])) ↔
      ∃ expr, m.lookup? f.baseType = some expr ∧ IsTightUnion expr := by
  cases f with
  | regular label typeName dims =>
    show IsTightUnion (m.exprOfName typeName) ↔ ∃ expr, m.lookup? typeName = some expr ∧ _
    cases hlookup : m.lookup? typeName with
    | none =>
      have hname := reads_of_isBare (isBare_normalize (hbare typeName List.mem_cons_self))
      rw [exprOfName_of_lookup?_eq_none hlookup, IsTightUnion, hname.isSplit_iff]
      simp
    | some expr =>
      rw [exprOfName_of_lookup? hlookup]
      simp
  | tuple label components dims =>
    have hnone : m.lookup? Field.tupleName = none := by
      have hnamed : named? Field.tupleName = none := by decide
      rw [Mapping.lookup?, hnamed, Option.bind_none]
    have htuple : Reads (m.typeOf (.tuple label components [])) false :=
      reads_tuple (isBalanced_typesOf hm components hbare)
    rw [IsTightUnion]
    show IsSplit (m.typeOf (.tuple label components [])) ∧ _ ↔
      ∃ expr, m.lookup? Field.tupleName = some expr ∧ _
    rw [htuple.isSplit_iff, hnone]
    simp

theorem isSplit_element_iff (hm : m.IsBalanced) {f element : Field}
    (h : f.element? = some element) (hbare : ∀ n ∈ typeNames f, IsBare n) :
    IsBalanced (Mapping.enclose (m.typeOf element)) ∧
    (IsSplit (Mapping.enclose (m.typeOf element)) ↔
      ∃ expr, m.lookup? f.baseType = some expr ∧ IsTightUnion expr) := by
  obtain ⟨last, -, hplain⟩ := dims_of_element? h
  have hnames : typeNames (f.withDims []) = typeNames f := by cases f <;> rfl
  have hbalanced : IsBalanced (m.typeOf (f.withDims [])) := by
    apply isBalanced_typeOf hm
    rwa [hnames]
  rw [typeOf_eq_arrayOf m element, hplain]
  constructor
  · obtain ⟨split, hreads⟩ := hbalanced
    exact ⟨_, hreads.enclose_arrayOf element.dims⟩
  · rw [isSplit_enclose_arrayOf_iff hbalanced]
    exact isTightUnion_typeOf_iff hm f hbare

theorem exists_element_of_isArray {f : Field} (h : f.isArray = true) :
    ∃ element, f.element? = some element := by
  have hdims : ¬ f.dims.isEmpty = true := by simpa [Field.isArray] using h
  exact ⟨_, if_neg hdims⟩

/-- If the expressions of a mapping have balanced brackets and names have none, then the
type of an array is an expression with balanced brackets and a marker behind it. The
marker takes in all of the expression unless the base type is mapped to a union or an
intersection without blanks. So all markers do, whatever the arrays are, if and only if
no expression of the mapping is one. -/
theorem markers_bind_iff (hm : m.IsBalanced) :
    (∀ f element : Field, f.element? = some element → (∀ n ∈ typeNames f, IsBare n) →
      m.typeOf f = Mapping.enclose (m.typeOf element) ++ "[]" ∧
      IsBalanced (Mapping.enclose (m.typeOf element)) ∧
      (IsSplit (Mapping.enclose (m.typeOf element)) ↔
        ∃ expr, m.lookup? f.baseType = some expr ∧ IsTightUnion expr)) ∧
    ((∀ f : Field, f.isArray = true → (∀ n ∈ typeNames f, IsBare n) →
        ∃ front, m.typeOf f = front ++ "[]" ∧ IsBalanced front ∧ ¬ IsSplit front) ↔
      ∀ b expr, m.get? b = some expr → ¬ IsTightUnion expr) := by
  refine ⟨fun f element h hbare => ⟨typeOf_of_element? h, isSplit_element_iff hm h hbare⟩, ?_, ?_⟩
  · intro hbind b expr hget htight
    let f : Field := .regular Field.unnamed b.name [.dynamic]
    have hbare : ∀ n ∈ typeNames f, IsBare n := by
      intro n hn
      rw [List.mem_singleton.1 hn]
      exact isBare_name b
    have helement : f.element? = some (.regular Field.unnamed b.name []) := rfl
    obtain ⟨front, hfront, -, hnot⟩ := hbind f rfl hbare
    have hlookup : m.lookup? f.baseType = some expr := by
      show m.lookup? b.name = some expr
      rw [Mapping.lookup?, BaseType.named?_name, Option.bind_some, hget]
    rw [typeOf_of_element? helement] at hfront
    rw [← (String.append_left_inj _).1 hfront] at hnot
    exact hnot ((isSplit_element_iff hm helement hbare).2.2 ⟨expr, hlookup, htight⟩)
  · intro hmapped f harray hbare
    obtain ⟨element, helement⟩ := exists_element_of_isArray harray
    obtain ⟨hbalanced, hsplit⟩ := isSplit_element_iff hm helement hbare
    refine ⟨_, typeOf_of_element? helement, hbalanced, fun h => ?_⟩
    obtain ⟨expr, hlookup, htight⟩ := hsplit.1 h
    obtain ⟨b, -, hget⟩ := Option.bind_eq_some_iff.1 hlookup
    exact hmapped b expr hget htight

/-! ## Mappings -/

theorem Mapping.IsBalanced.set (hm : m.IsBalanced) (h : TypeScript.IsBalanced expr)
    (base : BaseType) : (m.set base expr).IsBalanced := by
  intro b other hget
  simp only [Mapping.set] at hget
  split at hget
  next => exact Option.some.inj hget ▸ h
  next => exact hm b other hget

/-- The unions that are mapped to by default are written with blanks. -/
theorem reads_defaults {b : BaseType} (h : Mapping.defaults.get? b = some expr) :
    Reads expr (hasBlank expr) := by
  cases b with
  | address | string | uint step | int step =>
    cases h
    exact ⟨false, by decide⟩
  | bool | bytes | fixedBytes step => cases h

theorem isBalanced_defaults : Mapping.defaults.IsBalanced := fun _ _ h => ⟨_, reads_defaults h⟩

/-- An array of arrays of addresses. -/
def owners : Field := .regular ⟨"owners", none, none⟩ "account" [.fixed 2, .dynamic]

/-- With blanks in its unions a mapping puts every marker behind the whole element type,
without them behind the last member only. -/
theorem tight_union_escapes :
    Mapping.defaults.IsBalanced ∧
    (∀ f : Field, f.isArray = true → (∀ n ∈ typeNames f, IsBare n) →
      ∃ front, Mapping.defaults.typeOf f = front ++ "[]" ∧ IsBalanced front ∧ ¬ IsSplit front) ∧
    (Mapping.defaults.set .address "string|bigint").IsBalanced ∧
    (∀ n ∈ typeNames owners, IsBare n) ∧
    (Mapping.defaults.set .address "string|bigint").typeOf owners = "string|bigint[][]" ∧
    IsSplit "string|bigint[]" := by
  have htight : IsTightUnion "string|bigint" := ⟨⟨false, by decide⟩, by decide⟩
  have hbalanced : (Mapping.defaults.set .address "string|bigint").IsBalanced :=
    isBalanced_defaults.set ⟨true, htight.1⟩ .address
  have hbare : ∀ n ∈ typeNames owners, IsBare n := by decide
  have helement : owners.element? =
      some (.regular ⟨"owners", none, none⟩ "account" [.fixed 2]) := rfl
  obtain ⟨-, -, hsplit⟩ := (markers_bind_iff hbalanced).1 owners _ helement hbare
  have hlookup : (Mapping.defaults.set .address "string|bigint").lookup? owners.baseType =
      some "string|bigint" := by
    decide
  have hfront : Mapping.enclose ((Mapping.defaults.set .address "string|bigint").typeOf
      (.regular ⟨"owners", none, none⟩ "account" [.fixed 2])) = "string|bigint[]" := by
    decide
  rw [hfront] at hsplit
  refine ⟨isBalanced_defaults, ?_, hbalanced, hbare, by decide, hsplit.2 ⟨_, hlookup, htight⟩⟩
  apply (markers_bind_iff isBalanced_defaults).2.2
  rintro b expr hget ⟨hsplit, hblank⟩
  have hreads := reads_defaults hget
  rw [hblank] at hreads
  cases hreads.unique hsplit

end SolidityBuild.TypeScript
