import SolidityBuild.Proofs.Text.Decimal
import SolidityBuild.Proofs.TypeScript.Members
import SolidityBuild.TypeScript.Client

/-!
Arguments that are taken apart. A reader goes over the value that is passed for an
argument from left to right and collects what is accessed in it. It finds each component
that is neither a tuple nor an array, nor in an array, once and in order, by the path to
it; that is the path at which the type of the component stands in the type of the
parameter. In place of an array there is an empty one.
-/

namespace SolidityBuild.TypeScript

open Abi (Field)
open BaseType (named? normalize)
open Text (Decimal.print)

/-! ## Reading accesses -/

/-- A name with indices behind it. -/
structure Access where
  name : String
  path : List Nat
deriving DecidableEq

/-- Where the reader of accesses is. -/
inductive Place
  | between
  /-- Behind a slash, with which a comment may begin. -/
  | slash
  /-- In a comment; `star` if the last character may be the first of its end. -/
  | comment (star : Bool)
  /-- In or behind a name, or behind an index. -/
  | access (name : List Char) (path : List Nat)
  /-- In an index, with the number read so far. -/
  | index (name : List Char) (path : List Nat) (value : Nat)

/-- Where a character leads that belongs to nothing in front of it. -/
def enter (c : Char) : Place :=
  if c = '/' then .slash else if c ∈ signs then .between else .access [c] []

/-- Read on from a place. A name with an opening parenthesis behind it is called; it is no
access, and neither is what stands in a comment. -/
def accessesFrom : Place → List Char → List Access
  | .access name path, [] | .index name path _, [] => [⟨String.ofList name, path⟩]
  | _, [] => []
  | .between, c :: cs => accessesFrom (enter c) cs
  | .slash, c :: cs => accessesFrom (if c = '*' then .comment false else enter c) cs
  | .comment star, c :: cs =>
    accessesFrom (if star ∧ c = '/' then .between else .comment (c = '*')) cs
  | .access name path, c :: cs =>
    if c = '[' then accessesFrom (.index name path 0) cs
    else if c = '(' then accessesFrom .between cs
    else if c ∈ signs then ⟨String.ofList name, path⟩ :: accessesFrom (enter c) cs
    else accessesFrom (.access (name ++ [c]) path) cs
  | .index name path value, c :: cs =>
    if c.isDigit then accessesFrom (.index name path (Nat.ofDigitChars 10 [c] value)) cs
    else if c = ']' then accessesFrom (.access name (path ++ [value])) cs
    else ⟨String.ofList name, path⟩ :: accessesFrom (enter c) cs

/-- What is accessed in an expression, from left to right. -/
def accesses (expr : String) : List Access := accessesFrom .between expr.toList

variable {m : Mapping} {expr typeName : String} {name : List Char} {path : List Nat}
  {f g : Field} {rest : List Char}

theorem accessesFrom_access_plain {cs : List Char} (h : ∀ c ∈ cs, c ∉ signs) :
    accessesFrom (.access name path) (cs ++ rest) =
      accessesFrom (.access (name ++ cs) path) rest := by
  have hbrackets : '[' ∈ signs ∧ '(' ∈ signs := by decide
  induction cs generalizing name with
  | nil => rw [List.nil_append, List.append_nil]
  | cons c cs ih =>
      have hc := h c List.mem_cons_self
      have hopen : c ≠ '[' := fun heq => hc (heq ▸ hbrackets.1)
      have hcall : c ≠ '(' := fun heq => hc (heq ▸ hbrackets.2)
      rw [List.cons_append, accessesFrom, if_neg hopen, if_neg hcall, if_neg hc,
        ih fun d hd => h d (List.mem_cons_of_mem c hd), List.append_assoc,
        List.singleton_append]

theorem accessesFrom_index {cs : List Char} (h : ∀ c ∈ cs, c.isDigit = true) (value : Nat) :
    accessesFrom (.index name path value) (cs ++ ']' :: rest) =
      accessesFrom (.access name (path ++ [Nat.ofDigitChars 10 cs value])) rest := by
  induction cs generalizing value with
  | nil => rfl
  | cons c cs ih =>
      rw [List.cons_append, accessesFrom, if_pos (h c List.mem_cons_self),
        ih fun d hd => h d (List.mem_cons_of_mem c hd)]
      rfl

/-- An expression is one access, and no more than that. -/
def IsAccess (expr : String) (name : List Char) (path : List Nat) : Prop :=
  ∀ rest, accessesFrom .between (expr.toList ++ rest) = accessesFrom (.access name path) rest

theorem IsWord.isAccess (h : IsWord expr) : IsAccess expr expr.toList [] := by
  intro rest
  obtain ⟨c, cs, hcons⟩ := List.exists_cons_of_ne_nil (mt String.toList_eq_nil_iff.1 h.nonempty)
  have hplain : ∀ d ∈ c :: cs, d ∉ signs := hcons ▸ h.plain
  have hc := hplain c List.mem_cons_self
  have henter : enter c = .access [c] [] := by
    have hslash : c ≠ '/' := fun heq => hc (heq ▸ by decide)
    rw [enter, if_neg hslash, if_neg hc]
  rw [hcons, List.cons_append, accessesFrom, henter,
    accessesFrom_access_plain fun d hd => hplain d (List.mem_cons_of_mem c hd)]
  rfl

/-- The expression for the component at a position. -/
def indexed (expr : String) (position : Nat) : String :=
  expr ++ "[" ++ Decimal.print position ++ "]"

theorem toList_indexed (expr : String) (position : Nat) :
    (indexed expr position).toList =
      expr.toList ++ '[' :: ((Decimal.print position).toList ++ [']']) := by
  simp [indexed]

theorem IsAccess.indexed (h : IsAccess expr name path) (position : Nat) :
    IsAccess (indexed expr position) name (path ++ [position]) := by
  intro rest
  rw [toList_indexed, List.append_assoc, h, List.cons_append, accessesFrom, if_pos rfl,
    List.append_assoc, List.singleton_append,
    accessesFrom_index fun c hc => Text.Decimal.isDigit_of_mem_print hc,
    Text.Decimal.toList_print, Nat.ofDigitChars_ten_toDigits]

/-- An access ends where a text like this follows. -/
def EndsAccess (rest : List Char) : Prop := ∀ c ∈ rest.head?, c ∈ [',', ']', ')', ' ']

theorem accessesFrom_access_end (h : EndsAccess rest) :
    accessesFrom (.access name path) rest =
      ⟨String.ofList name, path⟩ :: accessesFrom .between rest := by
  cases rest with
  | nil => rfl
  | cons c cs =>
      have hc := h c rfl
      simp only [List.mem_cons, List.not_mem_nil, or_false] at hc
      rcases hc with rfl | rfl | rfl | rfl <;> rfl

theorem IsAccess.accessesFrom_append (h : IsAccess expr name path)
    (hrest : EndsAccess rest) :
    accessesFrom .between (expr.toList ++ rest) =
      ⟨String.ofList name, path⟩ :: accessesFrom .between rest := by
  rw [h, accessesFrom_access_end hrest]

theorem accessesFrom_comment {cs : List Char} (h : '*' ∉ cs) :
    accessesFrom (.comment false) (cs ++ rest) = accessesFrom (.comment false) rest := by
  induction cs with
  | nil => rfl
  | cons c cs ih =>
      have hstar : c ≠ '*' := fun heq => h (heq ▸ List.mem_cons_self)
      rw [List.cons_append, accessesFrom, ← ih fun hmem => h (List.mem_cons_of_mem c hmem)]
      simp [hstar]

/-- The value for an argument of a base type has one access. -/
theorem accessesFrom_wireArgOfName (h : IsAccess expr name path) (hword : IsWord typeName)
    (hrest : EndsAccess rest) :
    accessesFrom .between ((wireArgOfName typeName expr).toList ++ rest) =
      ⟨String.ofList name, path⟩ :: accessesFrom .between rest := by
  have hcall : ∀ cs, accessesFrom .between ("ethers.BigNumber.from(".toList ++ cs) =
      accessesFrom .between cs := fun cs => rfl
  have hopen : ∀ cs, accessesFrom .between (" /* ".toList ++ cs) =
      accessesFrom (.comment false) cs := fun cs => rfl
  have hclose : ∀ cs, accessesFrom (.comment false) (" */".toList ++ cs) =
      accessesFrom .between cs := fun cs => rfl
  simp only [wireArgOfName]
  split
  · rw [String.toList_append, String.toList_append, List.append_assoc, List.append_assoc, hcall,
      h.accessesFrom_append (by simp [EndsAccess])]
    rfl
  split
  · exact h.accessesFrom_append hrest
  · rw [String.toList_append, String.toList_append, String.toList_append, List.append_assoc,
      List.append_assoc, List.append_assoc, h.accessesFrom_append (by simp [EndsAccess]), hopen,
      accessesFrom_comment (hword.not_mem (by decide)), hclose]

/-! ## Paths of leaves -/

mutual

/-- The paths to the components that are neither tuples nor arrays, nor in an array. -/
def leafPaths : Field → List (List Nat)
  | .regular _ _ dims => if dims.isEmpty then [[]] else []
  | .tuple _ components dims => if dims.isEmpty then leafPathsAll 0 components else []

def leafPathsAll (position : Nat) : List Field → List (List Nat)
  | [] => []
  | f :: fs => (leafPaths f).map (position :: ·) ++ leafPathsAll (position + 1) fs

end

theorem leafPaths_of_isArray (h : f.isArray = true) : leafPaths f = [] := by
  cases f <;> simp_all [leafPaths, Field.isArray, Field.dims]

theorem mem_leafPathsAll_iff {fs : List Field} {position : Nat} :
    path ∈ leafPathsAll position fs ↔
      ∃ i tail component, path = (position + i) :: tail ∧ fs[i]? = some component ∧
        tail ∈ leafPaths component := by
  induction fs generalizing position with
  | nil => simp [leafPathsAll]
  | cons f fs ih =>
      rw [leafPathsAll, List.mem_append, List.mem_map, ih]
      constructor
      · rintro (⟨tail, htail, rfl⟩ | ⟨i, tail, component, rfl, hcomponent, htail⟩)
        · exact ⟨0, tail, f, rfl, rfl, htail⟩
        · refine ⟨i + 1, tail, component, ?_, hcomponent, htail⟩
          rw [Nat.add_right_comm, Nat.add_assoc]
      · rintro ⟨i, tail, component, rfl, hcomponent, htail⟩
        cases i with
        | zero =>
            obtain rfl := Option.some.inj hcomponent
            exact .inl ⟨tail, htail, rfl⟩
        | succ i =>
            refine .inr ⟨i, tail, component, ?_, hcomponent, htail⟩
            rw [Nat.add_right_comm, Nat.add_assoc]

/-- A path leads to a component with a base type that is no array, through tuples that are
none, if and only if it is one of these paths. -/
theorem mem_leafPaths_iff : path ∈ leafPaths f ↔
    ∃ label typeName, componentAt? path f = some (.regular label typeName []) := by
  induction path generalizing f with
  | nil =>
      cases f with
      | regular label typeName dims => cases dims <;> simp [leafPaths, componentAt?]
      | tuple label components dims =>
          cases dims <;> simp [leafPaths, componentAt?, mem_leafPathsAll_iff]
  | cons position path ih =>
      cases f with
      | regular label typeName dims => cases dims <;> simp [leafPaths, componentAt?]
      | tuple label components dims =>
          cases dims with
          | cons dim dims => simp [leafPaths, componentAt?]
          | nil =>
              rw [leafPaths, List.isEmpty_nil, if_pos rfl, mem_leafPathsAll_iff, componentAt?]
              simp only [Nat.zero_add, Option.bind_eq_some_iff]
              constructor
              · rintro ⟨i, tail, component, hpath, hcomponent, htail⟩
                obtain ⟨rfl, rfl⟩ := List.cons.inj hpath
                obtain ⟨label, typeName, hrest⟩ := ih.1 htail
                exact ⟨label, typeName, component, hcomponent, hrest⟩
              · rintro ⟨label, typeName, component, hcomponent, hrest⟩
                have htail := ih.2 ⟨label, typeName, hrest⟩
                exact ⟨position, path, component, rfl, hcomponent, htail⟩

mutual

/-- The paths are in order, each once: one that branches off further to the left comes
first. -/
theorem pairwise_leafPaths : ∀ f : Field, (leafPaths f).Pairwise (· < ·)
  | .regular label typeName dims => by cases dims <;> simp [leafPaths]
  | .tuple label components dims => by
      cases dims with
      | cons dim dims => simp [leafPaths]
      | nil =>
          rw [leafPaths, List.isEmpty_nil, if_pos rfl]
          exact pairwise_leafPathsAll 0 components

theorem pairwise_leafPathsAll : ∀ (position : Nat) (fs : List Field),
    (leafPathsAll position fs).Pairwise (· < ·)
  | position, [] => by simp [leafPathsAll]
  | position, f :: fs => by
      rw [leafPathsAll, List.pairwise_append, List.pairwise_map]
      refine ⟨?_, pairwise_leafPathsAll (position + 1) fs, ?_⟩
      · exact (pairwise_leafPaths f).imp fun hlt => List.cons_lt_cons_iff.2 (.inr ⟨rfl, hlt⟩)
      · intro first hfirst second hsecond
        obtain ⟨tail, -, rfl⟩ := List.mem_map.1 hfirst
        obtain ⟨i, tail', component, rfl, -, -⟩ := mem_leafPathsAll_iff.1 hsecond
        apply List.cons_lt_cons_iff.2
        left
        omega

end

/-! ## Accesses in values -/

theorem wireArg_of_isArray (h : f.isArray = true) : wireArg expr f = "[]" := by
  cases f <;> simp_all [wireArg, Field.isArray, Field.dims]

theorem accessesFrom_behindFirst (members : List String) :
    accessesFrom .between (behindFirst members ++ rest) =
      accessesFrom .between ((String.intercalate ", " members).toList ++ rest) := by
  cases members <;> rfl

theorem endsAccess_behindFirst (members : List String) (rest : List Char) :
    EndsAccess (behindFirst members ++ ']' :: rest) := by
  intro c hc
  cases members with
  | nil =>
      obtain rfl := Option.some.inj hc
      decide
  | cons member members =>
      obtain rfl := Option.some.inj hc
      decide

mutual

/-- In the value for an argument its leaves are accessed. -/
theorem accessesFrom_wireArg : ∀ (f : Field) (rest : List Char) {expr : String} {path : List Nat},
    IsAccess expr name path → (∀ n ∈ typeNames f, IsWord n) → EndsAccess rest →
      accessesFrom .between ((wireArg expr f).toList ++ rest) =
        (leafPaths f).map (fun p => ⟨String.ofList name, path ++ p⟩) ++
          accessesFrom .between rest
  | .regular label typeName [], rest, expr, path, h, hwords, hrest => by
      have hread := accessesFrom_wireArgOfName h (hwords typeName List.mem_cons_self) hrest
      simpa [wireArg, leafPaths] using hread
  | .tuple label components [], rest, expr, path, h, hwords, hrest => by
      have hlist : (wireArg expr (.tuple label components [])).toList ++ rest =
          '[' :: ((String.intercalate ", " (wireArgs expr 0 components)).toList ++
            ']' :: rest) := by
        simp [wireArg]
      rw [hlist]
      exact accessesFrom_wireArgs 0 components rest h hwords
  | .regular label typeName (dim :: dims), rest, expr, path, h, hwords, hrest => by
      rw [wireArg_of_isArray rfl, leafPaths_of_isArray rfl]
      rfl
  | .tuple label components (dim :: dims), rest, expr, path, h, hwords, hrest => by
      rw [wireArg_of_isArray rfl, leafPaths_of_isArray rfl]
      rfl

theorem accessesFrom_wireArgs : ∀ (position : Nat) (fs : List Field) (rest : List Char)
    {expr : String} {path : List Nat},
    IsAccess expr name path → (∀ n ∈ typeNamesAll fs, IsWord n) →
      accessesFrom .between
          ((String.intercalate ", " (wireArgs expr position fs)).toList ++ ']' :: rest) =
        (leafPathsAll position fs).map (fun p => ⟨String.ofList name, path ++ p⟩) ++
          accessesFrom .between rest
  | position, [], rest, expr, path, h, hwords => rfl
  | position, f :: fs, rest, expr, path, h, hwords => by
      rw [typeNamesAll, List.forall_mem_append] at hwords
      have hfirst := accessesFrom_wireArg f
        (behindFirst (wireArgs expr (position + 1) fs) ++ ']' :: rest)
        (h.indexed position) hwords.1 (endsAccess_behindFirst _ rest)
      rw [accessesFrom_behindFirst,
        accessesFrom_wireArgs (position + 1) fs rest h hwords.2] at hfirst
      rw [wireArgs, toList_intercalate_cons, List.append_assoc]
      refine hfirst.trans ?_
      rw [leafPathsAll, List.map_append, List.map_map, List.append_assoc]
      simp only [Function.comp_def, List.append_assoc, List.singleton_append]

end

theorem accesses_wireArg (hword : IsWord expr) (hwords : ∀ n ∈ typeNames f, IsWord n) :
    accesses (wireArg expr f) = (leafPaths f).map (Access.mk expr) := by
  have hread := accessesFrom_wireArg f [] hword.isAccess hwords (by simp [EndsAccess])
  rw [List.append_nil] at hread
  rw [accesses, hread, String.ofList_toList]
  exact List.append_nil _

/-! ## Positions in values -/

/-- An expression with balanced brackets and without commas. -/
structure IsSingle (expr : String) : Prop where
  nonempty : expr ≠ ""
  balanced : IsBalanced expr
  joined : ',' ∉ expr.toList

theorem IsSingle.isMember (h : IsSingle expr) : IsMember expr :=
  isMember_of_not_mem h.nonempty h.balanced h.joined

theorem IsWord.isSingle (h : IsWord expr) : IsSingle expr :=
  ⟨h.nonempty, h.isMember.balanced, h.not_mem (by decide)⟩

theorem IsSingle.append {inner : String} (h : IsSingle expr)
    (hbalanced : IsBalanced (expr ++ inner)) (hcomma : ',' ∉ inner.toList) :
    IsSingle (expr ++ inner) := by
  refine ⟨fun hempty => h.nonempty (String.append_eq_empty_iff.1 hempty).1, hbalanced, ?_⟩
  rw [String.toList_append, List.mem_append, not_or]
  exact ⟨h.joined, hcomma⟩

theorem IsSingle.append_enclosed {opening closing : Char} {inner : String} (h : IsSingle expr)
    (hopening : Scan.closer? opening = some closing) (hclosing : closing ∈ [')', ']', '\x7d'])
    (hinner : IsBalanced inner) (hcomma : ',' ∉ inner.toList) :
    IsSingle (expr ++ enclosed opening closing inner) := by
  have hbrackets : Scan.closer? ',' = none ∧ ',' ∉ [')', ']', '\x7d'] := by decide
  apply h.append (h.balanced.append_enclosed hopening hclosing hinner)
  rw [enclosed, String.toList_ofList, List.mem_cons, List.mem_append, List.mem_singleton]
  rintro (rfl | hmem | rfl)
  · rw [hbrackets.1] at hopening
    cases hopening
  · exact hcomma hmem
  · exact hbrackets.2 hclosing

theorem isWord_print (position : Nat) : IsWord (Decimal.print position) := by
  apply isWord_of_all (mt String.toList_eq_nil_iff.2 (Text.Decimal.print_ne_nil _))
  apply List.all_eq_true.2
  intro c hc
  simp [isNameChar, Char.isAlphanum, Text.Decimal.isDigit_of_mem_print hc]

theorem IsSingle.indexed (h : IsSingle expr) (position : Nat) :
    IsSingle (indexed expr position) := by
  have hprint := (isWord_print position).isSingle
  have hlist : TypeScript.indexed expr position =
      expr ++ ("[" ++ Decimal.print position ++ "]") := by
    rw [TypeScript.indexed, String.append_assoc, String.append_assoc, String.append_assoc]
  rw [hlist, in_brackets]
  exact h.append_enclosed rfl (by decide) hprint.balanced hprint.joined

theorem isSingle_wireArgOfName (h : IsSingle expr) (hword : IsWord typeName) :
    IsSingle (wireArgOfName typeName expr) := by
  simp only [wireArgOfName]
  split
  · have hfrom : IsSingle "ethers.BigNumber.from" :=
      ⟨by decide, ⟨false, reads_of_isBare (by decide)⟩, by decide⟩
    have hcall : "ethers.BigNumber.from(" ++ expr ++ ")" =
        "ethers.BigNumber.from" ++ ("(" ++ expr ++ ")") := by
      rw [← String.append_assoc, ← String.append_assoc]
      rfl
    rw [hcall, in_parentheses]
    exact hfrom.append_enclosed rfl (by decide) h.balanced h.joined
  split
  · exact h
  · have hopen : IsSingle (expr ++ " /* ") :=
      h.append (h.balanced.append_bare (by decide)) (by decide)
    have hname : IsSingle (expr ++ " /* " ++ typeName) :=
      hopen.append (hopen.balanced.append_bare hword.isBare) (hword.not_mem (by decide))
    exact hname.append (hname.balanced.append_bare (by decide)) (by decide)

theorem isMember_emptyArray : IsMember "[]" :=
  isMember_of_not_mem (by decide) ⟨false, false, by decide⟩ (by decide)

mutual

theorem isMember_wireArg : ∀ {expr : String} (f : Field),
    IsSingle expr → (∀ n ∈ typeNames f, IsWord n) → IsMember (wireArg expr f)
  | expr, .regular label typeName dims, h, hwords => by
      rw [wireArg]
      split
      · exact (isSingle_wireArgOfName h (hwords typeName List.mem_cons_self)).isMember
      · exact isMember_emptyArray
  | expr, .tuple label components dims, h, hwords => by
      rw [wireArg]
      split
      · have hmembers := isMember_wireArgs 0 components h hwords
        exact isMember_tupleText fun e he => (hmembers e he).balanced
      · exact isMember_emptyArray

theorem isMember_wireArgs : ∀ {expr : String} (position : Nat) (fs : List Field),
    IsSingle expr → (∀ n ∈ typeNamesAll fs, IsWord n) →
      ∀ e ∈ wireArgs expr position fs, IsMember e
  | expr, position, [], h, hwords => by simp [wireArgs]
  | expr, position, f :: fs, h, hwords => by
      rw [typeNamesAll, List.forall_mem_append] at hwords
      rw [wireArgs, List.forall_mem_cons]
      exact ⟨isMember_wireArg f (h.indexed position) hwords.1,
        isMember_wireArgs (position + 1) fs h hwords.2⟩

end

theorem getElem?_wireArgs (expr : String) (position i : Nat) (fs : List Field) :
    (wireArgs expr position fs)[i]? = fs[i]?.map (wireArg (indexed expr (position + i))) := by
  induction fs generalizing position i with
  | nil => rfl
  | cons f fs ih =>
      rw [wireArgs]
      cases i with
      | zero => rfl
      | succ i =>
          rw [List.getElem?_cons_succ, List.getElem?_cons_succ, ih, Nat.add_right_comm,
            Nat.add_assoc]

/-- The value for a component stands at its path in the value for the argument. -/
theorem standsAt_wireArg (h : IsSingle expr) (hwords : ∀ n ∈ typeNames f, IsWord n)
    (hcomponent : componentAt? path f = some g) :
    StandsAt IsMember path (wireArg expr f) (wireArg (path.foldl indexed expr) g) := by
  induction path generalizing expr f with
  | nil => exact congrArg (wireArg expr) (Option.some.inj hcomponent).symm
  | cons position path ih =>
      obtain ⟨label, components, component, rfl, hmem, hrest⟩ :=
        exists_of_componentAt?_cons hcomponent
      have hwords' : ∀ n ∈ typeNames component, IsWord n := fun n hn =>
        hwords n (mem_typeNamesAll_of_mem (List.mem_of_getElem? hmem) hn)
      refine ⟨wireArgs expr 0 components, wireArg (indexed expr position) component, rfl,
        isMember_wireArgs 0 components h hwords, ?_, ih (h.indexed position) hwords' hrest⟩
      rw [getElem?_wireArgs, hmem, Option.map_some, Nat.zero_add]

/-- In the value that is passed for an argument the leaves of the parameter are accessed by
their paths, from left to right in order and each once. The path to a component is the one
at which its type stands in the type of the parameter: it does under every mapping, and
nothing else can be read there if members can be told apart. At the same path the value
for the component stands in the value for the argument, which is an empty array if the
component is an array. -/
theorem components_addressed_once {expr : String} {f : Field} (hexpr : IsWord expr)
    (hwords : ∀ n ∈ typeNames f, IsWord n) :
    accesses (wireArg expr f) = (leafPaths f).map (Access.mk expr) ∧
    (leafPaths f).Pairwise (· < ·) ∧
    (∀ path, path ∈ leafPaths f ↔
      ∃ label typeName, componentAt? path f = some (.regular label typeName [])) ∧
    ∀ path g, componentAt? path f = some g →
      (∀ m : Mapping, StandsAt (fun _ => True) path (m.typeOf f) (m.typeOf g)) ∧
      (∀ m : Mapping, m.IsMemberwise → ∀ text,
        StandsAt IsMember path (m.typeOf f) text ↔ text = m.typeOf g) ∧
      ∀ text, StandsAt IsMember path (wireArg expr f) text ↔
        text = if g.isArray then "[]" else wireArg (path.foldl indexed expr) g := by
  refine ⟨accesses_wireArg hexpr hwords, pairwise_leafPaths f, fun path => mem_leafPaths_iff,
    fun path g hg => ⟨fun m => standsAt_typeOf (fun _ _ => trivial) hg, ?_, ?_⟩⟩
  · intro m hm text
    have hstands : StandsAt IsMember path (m.typeOf f) (m.typeOf g) :=
      standsAt_typeOf (fun c hc => isMember_typeOf hm c fun n hn => hwords n (hc n hn)) hg
    constructor
    · exact fun htext => htext.unique hstands
    · rintro rfl
      exact hstands
  · intro text
    have hstands := standsAt_wireArg hexpr.isSingle hwords hg
    have hvalue : (if g.isArray then "[]" else wireArg (path.foldl indexed expr) g) =
        wireArg (path.foldl indexed expr) g := by
      split
      next harray => exact (wireArg_of_isArray harray).symm
      next => rfl
    rw [hvalue]
    constructor
    · exact fun htext => htext.unique hstands
    · rintro rfl
      exact hstands

/-- A tuple with a further tuple, arrays and aliases in it. -/
def purchase : Field :=
  .tuple ⟨"new", none, none⟩
    [.regular ⟨"buyer", none, none⟩ "account" [],
      .tuple ⟨"item", none, none⟩
        [.regular ⟨"size", none, none⟩ "byte" [],
          .regular ⟨"tags", none, none⟩ "string" [.dynamic]] [],
      .tuple ⟨"lines", none, none⟩ [.regular ⟨"price", none, none⟩ "uint" []] [.fixed 2],
      .regular ⟨"hash", none, none⟩ "bytes32" []] []

theorem purchase_addressed :
    Mapping.ethers.IsMemberwise ∧
    Mapping.ethers.typeOf purchase = "[string, [number, string[]], [bigint][], string]" ∧
    wireArg "new_" purchase =
      "[new_[0], [ethers.BigNumber.from(new_[1][0]), []], [], new_[3] /* bytes32 */]" ∧
    accesses (wireArg "new_" purchase) = [⟨"new_", [0]⟩, ⟨"new_", [1, 0]⟩, ⟨"new_", [3]⟩] ∧
    (∀ text, StandsAt IsMember [1, 0] (Mapping.ethers.typeOf purchase) text ↔ text = "number") ∧
    ∀ text, StandsAt IsMember [2] (wireArg "new_" purchase) text ↔ text = "[]" := by
  have hexpr : IsWord "new_" := isWord_of_all (by decide) (by decide)
  have hwords : ∀ n ∈ typeNames purchase, IsWord n := by
    have hchars : ∀ n ∈ typeNames purchase, n ≠ "" ∧ n.toList.all isNameChar = true := by decide
    exact fun n hn => isWord_of_all (hchars n hn).1 (hchars n hn).2
  obtain ⟨haccesses, -, -, hcomponents⟩ := components_addressed_once hexpr hwords
  obtain ⟨-, htype, -⟩ := hcomponents [1, 0] _ rfl
  obtain ⟨-, -, hvalue⟩ := hcomponents [2] _ rfl
  refine ⟨isMemberwise_ethers, by decide +kernel, by decide +kernel, ?_, ?_, hvalue⟩
  · rw [haccesses]
    rfl
  · exact htype Mapping.ethers isMemberwise_ethers

end SolidityBuild.TypeScript
