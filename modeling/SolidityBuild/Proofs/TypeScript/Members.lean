import SolidityBuild.Proofs.TypeScript.Arrays

/-!
Members of tuples. The members of a tuple stand between its brackets, with a comma and a
blank between each and the next. They are told apart if each of them has balanced
brackets and no comma outside of them. The types of the components of a parameter stand
in its type like this, at any depth, and each of them at the position it has.
-/

namespace SolidityBuild.TypeScript

open Abi (Field)
open BaseType (named? normalize)

variable {m : Mapping} {expr inner typeName : String} {path : List Nat} {f g : Field}

/-! ## Balanced brackets -/

theorem IsBalanced.append_bare (h : IsBalanced expr) (hinner : IsBare inner) :
    IsBalanced (expr ++ inner) := by
  obtain ⟨split, arrow, hrun⟩ := h
  obtain ⟨arrow', hbare⟩ := Scan.run_bare (s := ⟨[], arrow, split⟩) hinner
  refine ⟨split, arrow', ?_⟩
  rw [String.toList_append, Scan.run_append, hrun, Option.bind_some, hbare]

/-- A text in brackets. -/
def enclosed (opening closing : Char) (inner : String) : String :=
  String.ofList (opening :: (inner.toList ++ [closing]))

theorem in_parentheses (inner : String) : "(" ++ inner ++ ")" = enclosed '(' ')' inner := by
  apply String.toList_inj.1
  simp [enclosed]

theorem in_brackets (inner : String) : "[" ++ inner ++ "]" = enclosed '[' ']' inner := by
  apply String.toList_inj.1
  simp [enclosed]

/-- Brackets around a text that has balanced ones, behind another such text. -/
theorem IsBalanced.append_enclosed {opening closing : Char} (h : IsBalanced expr)
    (hopening : Scan.closer? opening = some closing) (hclosing : closing ∈ [')', ']', '\x7d'])
    (hinner : IsBalanced inner) :
    IsBalanced (expr ++ enclosed opening closing inner) := by
  obtain ⟨split, arrow, hrun⟩ := h
  obtain ⟨_, hreads⟩ := hinner
  obtain ⟨arrow', hinside⟩ := hreads.run_inside (List.cons_ne_nil closing []) split
  refine ⟨split, false, ?_⟩
  rw [String.toList_append, enclosed, String.toList_ofList, Scan.run_append, hrun,
    Option.bind_some]
  exact Scan.run_enclosed hopening hclosing hinside

/-! ## Members -/

/-- An expression that is one member of a tuple: its brackets are balanced, and what
stands in front of a comma in it has open ones. -/
structure IsMember (expr : String) : Prop where
  nonempty : expr ≠ ""
  balanced : IsBalanced expr
  joined : ∀ front back, expr.toList = front ++ ',' :: back → ¬ IsBalanced (String.ofList front)

theorem isMember_of_not_mem (hne : expr ≠ "") (h : IsBalanced expr) (hcomma : ',' ∉ expr.toList) :
    IsMember expr := by
  refine ⟨hne, h, fun front back hsplit => ?_⟩
  rw [hsplit] at hcomma
  exact absurd (List.mem_append_right front List.mem_cons_self) hcomma

/-- Behind an opening bracket the brackets are open until the one that closes it. -/
theorem not_isBalanced_cons {opening closing : Char} {front back : List Char}
    (hopening : Scan.closer? opening = some closing) (h : IsBalanced inner)
    (hsplit : inner.toList = front ++ back) :
    ¬ IsBalanced (String.ofList (opening :: front)) := by
  obtain ⟨split, arrow, hrun⟩ := h
  rw [hsplit, Scan.run_append] at hrun
  obtain ⟨s, hfront, -⟩ := Option.bind_eq_some_iff.1 hrun
  rintro ⟨split', arrow', hrun'⟩
  have hopen : Scan.start.step opening = some ⟨[closing], false, false⟩ := by
    rw [Scan.step, hopening]
    rfl
  have hinside := Scan.run_inside (List.cons_ne_nil closing []) false hfront
  rw [String.toList_ofList, Scan.run_cons, hopen, Option.bind_some] at hrun'
  have hsame := hinside.symm.trans hrun'
  simp at hsame

/-- A text in brackets is one member, whatever commas stand in it. -/
theorem isMember_enclosed {opening closing : Char}
    (hopening : Scan.closer? opening = some closing) (hclosing : closing ∈ [')', ']', '\x7d'])
    (h : IsBalanced inner) :
    IsMember (enclosed opening closing inner) := by
  refine ⟨by simp [enclosed], ?_, fun front back hsplit => ?_⟩
  · have hempty : IsBalanced "" := ⟨false, false, rfl⟩
    have hbalanced := hempty.append_enclosed hopening hclosing h
    rwa [String.empty_append] at hbalanced
  · rw [enclosed, String.toList_ofList] at hsplit
    have hcomma : Scan.closer? ',' = none := by decide
    cases front with
    | nil =>
        rw [(List.cons.inj hsplit).1, hcomma] at hopening
        cases hopening
    | cons c front =>
        obtain ⟨rfl, hinner⟩ := List.cons.inj hsplit
        -- in front of the comma there is only what stands between the brackets
        obtain ⟨rest, hrest⟩ : ∃ rest, inner.toList = front ++ rest := by
          rcases List.append_eq_append_iff.1 hinner with ⟨rest, hfront, hback⟩ | ⟨rest, hfront, -⟩
          · cases rest with
            | nil => exact ⟨[], by rw [hfront, List.append_nil, List.append_nil]⟩
            | cons c rest =>
                have hlength := congrArg List.length hback
                simp at hlength
          · exact ⟨rest, hfront⟩
        exact not_isBalanced_cons hopening h hrest

theorem IsMember.append (h : IsMember expr) (hbalanced : IsBalanced (expr ++ inner))
    (hcomma : ',' ∉ inner.toList) : IsMember (expr ++ inner) := by
  refine ⟨?_, hbalanced, fun front back hsplit => ?_⟩
  · intro hempty
    exact h.nonempty (String.append_eq_empty_iff.1 hempty).1
  rw [String.toList_append] at hsplit
  rcases List.append_eq_append_iff.1 hsplit with ⟨rest, -, hinner⟩ | ⟨rest, hexpr, hrest⟩
  · rw [hinner] at hcomma
    exact absurd (List.mem_append_right rest List.mem_cons_self) hcomma
  cases rest with
  | nil =>
      rw [List.nil_append] at hrest
      rw [← hrest] at hcomma
      exact absurd List.mem_cons_self hcomma
  | cons c rest =>
      rw [(List.cons.inj hrest).1.symm] at hexpr
      exact h.joined front rest hexpr

theorem IsMember.enclose (h : IsMember expr) : IsMember (Mapping.enclose expr) := by
  cases hblank : hasBlank expr with
  | true =>
      rw [enclose_of_hasBlank hblank, in_parentheses]
      exact isMember_enclosed rfl (by decide) h.balanced
  | false =>
      rw [enclose_of_not_hasBlank hblank]
      exact h

theorem IsMember.arrayOf (h : IsMember expr) (dims : List Abi.Dim) :
    IsMember (Mapping.arrayOf expr dims) := by
  induction dims generalizing expr with
  | nil => exact h
  | cons dim dims ih =>
      obtain ⟨split, hreads⟩ := h.enclose.balanced
      exact ih (h.enclose.append ⟨split, hreads.append_brackets⟩ (by decide))

/-! ## Tuples -/

/-- The tuple with the given members. -/
def tupleText (members : List String) : String := "[" ++ String.intercalate ", " members ++ "]"

theorem isMember_tupleText {members : List String} (h : ∀ member ∈ members, IsBalanced member) :
    IsMember (tupleText members) := by
  rw [tupleText, in_brackets]
  exact isMember_enclosed rfl (by decide) (isBalanced_intercalate h)

theorem IsMember.toList_ne_nil (h : IsMember expr) : expr.toList ≠ [] :=
  mt String.toList_eq_nil_iff.1 h.nonempty

/-- No comma stands behind a member within another member. -/
theorem IsMember.eq_nil_of_append {expr' : String} {more rest : List Char} (h : IsMember expr)
    (h' : IsMember expr') (hmore : expr'.toList = expr.toList ++ more)
    (hcomma : ∀ c ∈ (more ++ rest).head?, c = ',') : more = [] := by
  cases more with
  | nil => rfl
  | cons c more =>
      rw [hcomma c rfl] at hmore
      have hnot := h'.joined expr.toList more hmore
      rw [String.ofList_toList] at hnot
      exact absurd h.balanced hnot

/-- A member ends where a comma or the end comes. -/
theorem IsMember.append_inj {expr' : String} {rest rest' : List Char} (h : IsMember expr)
    (h' : IsMember expr') (hrest : ∀ c ∈ rest.head?, c = ',')
    (hrest' : ∀ c ∈ rest'.head?, c = ',')
    (hsame : expr.toList ++ rest = expr'.toList ++ rest') : expr = expr' ∧ rest = rest' := by
  rcases List.append_eq_append_iff.1 hsame with ⟨more, hmore, hback⟩ | ⟨more, hmore, hback⟩
  · obtain rfl := h.eq_nil_of_append h' hmore (hback ▸ hrest)
    rw [List.append_nil] at hmore
    exact ⟨String.toList_inj.1 hmore.symm, hback⟩
  · obtain rfl := h'.eq_nil_of_append h hmore (hback ▸ hrest')
    rw [List.append_nil] at hmore
    exact ⟨String.toList_inj.1 hmore, hback.symm⟩

/-- What stands behind the first member. -/
def behindFirst : List String → List Char
  | [] => []
  | members => ',' :: ' ' :: (String.intercalate ", " members).toList

theorem toList_intercalate_cons (member : String) (members : List String) :
    (String.intercalate ", " (member :: members)).toList =
      member.toList ++ behindFirst members := by
  cases members with
  | nil => rw [String.intercalate_singleton, behindFirst, List.append_nil]
  | cons next members =>
      rw [String.intercalate_cons_cons, String.toList_append, String.toList_append,
        List.append_assoc]
      rfl

theorem eq_comma_of_mem_head?_behindFirst {members : List String} :
    ∀ c ∈ (behindFirst members).head?, c = ',' := by
  intro c hc
  cases members with
  | nil => cases hc
  | cons member members => exact (Option.some.inj hc).symm

theorem toList_intercalate_eq_of_behindFirst_eq {members members' : List String}
    (h : behindFirst members = behindFirst members') :
    (String.intercalate ", " members).toList = (String.intercalate ", " members').toList := by
  cases members with
  | nil =>
      cases members' with
      | nil => rfl
      | cons member' members' => cases h
  | cons member members =>
      cases members' with
      | nil => cases h
      | cons member' members' => exact (List.cons.inj (List.cons.inj h).2).2

theorem intercalate_injective {members members' : List String}
    (h : ∀ member ∈ members, IsMember member) (h' : ∀ member ∈ members', IsMember member)
    (hsame : (String.intercalate ", " members).toList =
      (String.intercalate ", " members').toList) : members = members' := by
  induction members generalizing members' with
  | nil =>
      cases members' with
      | nil => rfl
      | cons member' members' =>
          rw [toList_intercalate_cons] at hsame
          have hnil := (List.append_eq_nil_iff.1 hsame.symm).1
          exact absurd hnil (h' member' List.mem_cons_self).toList_ne_nil
  | cons member members ih =>
      rw [toList_intercalate_cons] at hsame
      cases members' with
      | nil =>
          have hnil := (List.append_eq_nil_iff.1 hsame).1
          exact absurd hnil (h member List.mem_cons_self).toList_ne_nil
      | cons member' members' =>
          rw [toList_intercalate_cons] at hsame
          obtain ⟨rfl, hbehind⟩ := (h member List.mem_cons_self).append_inj
            (h' member' List.mem_cons_self) eq_comma_of_mem_head?_behindFirst
            eq_comma_of_mem_head?_behindFirst hsame
          have hrest := ih (fun e he => h e (List.mem_cons_of_mem _ he))
            (fun e he => h' e (List.mem_cons_of_mem _ he))
            (toList_intercalate_eq_of_behindFirst_eq hbehind)
          rw [hrest]

theorem tupleText_injective {members members' : List String}
    (h : ∀ member ∈ members, IsMember member) (h' : ∀ member ∈ members', IsMember member)
    (hsame : tupleText members = tupleText members') : members = members' := by
  apply intercalate_injective h h'
  rw [tupleText, tupleText, String.append_left_inj, String.append_right_inj] at hsame
  rw [hsame]

/-! ## Positions -/

/-- A text stands at a path in a whole, which is taken apart into members at each
position of the path. -/
def StandsAt (IsPart : String → Prop) : List Nat → String → String → Prop
  | [], whole, text => text = whole
  | position :: path, whole, text =>
    ∃ members member, whole = tupleText members ∧ (∀ e ∈ members, IsPart e) ∧
      members[position]? = some member ∧ StandsAt IsPart path member text

/-- At most one text stands at a path, if members can be told apart. -/
theorem StandsAt.unique {whole text text' : String} (h : StandsAt IsMember path whole text)
    (h' : StandsAt IsMember path whole text') : text = text' := by
  induction path generalizing whole with
  | nil => exact h.trans h'.symm
  | cons position path ih =>
      obtain ⟨members, member, hwhole, hmembers, hmember, hrest⟩ := h
      obtain ⟨members', member', hwhole', hmembers', hmember', hrest'⟩ := h'
      obtain rfl := tupleText_injective hmembers hmembers' (hwhole.symm.trans hwhole')
      obtain rfl := Option.some.inj (hmember.symm.trans hmember')
      exact ih hrest hrest'

/-- The component at a path of positions. Arrays are not taken apart. -/
def componentAt? : List Nat → Field → Option Field
  | [], f => some f
  | position :: path, .tuple _ components [] =>
    components[position]?.bind (componentAt? path)
  | _ :: _, _ => none

/-! ## Types of components -/

/-- The characters that are no part of a name. -/
def signs : List Char := Scan.marks ++ [',', ' ', '/', '*']

/-- A name. -/
structure IsWord (name : String) : Prop where
  nonempty : name ≠ ""
  plain : ∀ c ∈ name.toList, c ∉ signs

/-- Whether an identifier may have this character: letters and digits, also beyond ASCII,
and two more. -/
def isNameChar (c : Char) : Bool := c.isAlphanum || c = '_' || c = '$' || 128 ≤ c.toNat

/-- Every alphanumeric name is a word, and every identifier. -/
theorem isWord_of_all (hne : typeName ≠ "") (h : typeName.toList.all isNameChar = true) :
    IsWord typeName := by
  have hsigns : signs.any isNameChar = false := by decide
  refine ⟨hne, fun c hc hsign => ?_⟩
  have hnot := List.any_eq_false.1 hsigns c hsign
  exact hnot (List.all_eq_true.1 h c hc)

theorem IsWord.isBare (h : IsWord typeName) : IsBare typeName :=
  fun c hc hmark => h.plain c hc (List.mem_append_left _ hmark)

theorem IsWord.not_mem (h : IsWord typeName) {c : Char} (hc : c ∈ signs) : c ∉ typeName.toList :=
  fun hmem => h.plain c hmem hc

theorem IsWord.isMember (h : IsWord typeName) : IsMember typeName :=
  isMember_of_not_mem h.nonempty ⟨false, reads_of_isBare h.isBare⟩ (h.not_mem (by decide))

theorem IsWord.normalize (h : IsWord typeName) : IsWord (normalize typeName) := by
  rcases BaseType.normalize_cases typeName with hself | halias
  · rwa [hself]
  · have hall : ∀ a ∈ BaseType.aliases, a.2 ≠ "" ∧ a.2.toList.all isNameChar = true := by
      decide
    obtain ⟨hne, hchars⟩ := hall _ halias
    exact isWord_of_all hne hchars

/-- Every expression of a mapping is one member of a tuple. -/
def Mapping.IsMemberwise (m : Mapping) : Prop := ∀ b expr, m.get? b = some expr → IsMember expr

theorem isMember_exprOfName (hm : m.IsMemberwise) (h : IsWord typeName) :
    IsMember (m.exprOfName typeName) := by
  cases hlookup : m.lookup? typeName with
  | none =>
      rw [exprOfName_of_lookup?_eq_none hlookup]
      exact h.normalize.isMember
  | some expr =>
      obtain ⟨b, -, hget⟩ := Option.bind_eq_some_iff.1 hlookup
      rw [exprOfName_of_lookup? hlookup]
      exact hm b expr hget

/-- The types of parameters in clients are words. -/
theorem isMemberwise_ethers : Mapping.ethers.IsMemberwise := by
  have hwords : ∀ e ∈ ["string", "number", "bigint", "boolean"],
      e ≠ "" ∧ e.toList.all isNameChar = true := by
    decide
  intro b expr h
  have hmem : expr ∈ ["string", "number", "bigint", "boolean"] := by
    cases b with
    | uint step | int step =>
        obtain rfl := Option.some.inj h
        rw [Mapping.integerExpr]
        split <;> decide
    | address | string | bool | bytes | fixedBytes step =>
        obtain rfl := Option.some.inj h
        decide
  obtain ⟨hne, hchars⟩ := hwords expr hmem
  exact (isWord_of_all hne hchars).isMember

mutual

theorem isMember_typeOf (hm : m.IsMemberwise) : ∀ f : Field,
    (∀ n ∈ typeNames f, IsWord n) → IsMember (m.typeOf f)
  | .regular label typeName dims, h => by
      rw [Mapping.typeOf]
      exact (isMember_exprOfName hm (h typeName List.mem_cons_self)).arrayOf dims
  | .tuple label components dims, h => by
      rw [Mapping.typeOf]
      apply IsMember.arrayOf
      exact isMember_tupleText fun e he => (isMember_typesOf hm components h e he).balanced

theorem isMember_typesOf (hm : m.IsMemberwise) : ∀ fs : List Field,
    (∀ n ∈ typeNamesAll fs, IsWord n) → ∀ expr ∈ m.typesOf fs, IsMember expr
  | [], _ => by simp [Mapping.typesOf]
  | f :: fs, h => by
      rw [typeNamesAll, List.forall_mem_append] at h
      rw [Mapping.typesOf, List.forall_mem_cons]
      exact ⟨isMember_typeOf hm f h.1, isMember_typesOf hm fs h.2⟩

end

theorem typesOf_eq_map (m : Mapping) (fs : List Field) : m.typesOf fs = fs.map m.typeOf := by
  induction fs with
  | nil => rfl
  | cons f fs ih => rw [Mapping.typesOf, ih, List.map_cons]

/-- A component of a tuple that is no array, and the path behind it. -/
theorem exists_of_componentAt?_cons {position : Nat}
    (h : componentAt? (position :: path) f = some g) :
    ∃ label components component, f = .tuple label components [] ∧
      components[position]? = some component ∧ componentAt? path component = some g := by
  cases f with
  | regular label typeName dims => cases h
  | tuple label components dims =>
      cases dims with
      | cons dim dims => cases h
      | nil =>
          rw [componentAt?] at h
          obtain ⟨component, hcomponent, hrest⟩ := Option.bind_eq_some_iff.1 h
          exact ⟨label, components, component, rfl, hcomponent, hrest⟩

/-- The type of a component stands at its path in the type of the parameter. The members
on the way are types of components, too. -/
theorem standsAt_typeOf {IsPart : String → Prop}
    (hpart : ∀ component, (∀ n ∈ typeNames component, n ∈ typeNames f) →
      IsPart (m.typeOf component))
    (h : componentAt? path f = some g) : StandsAt IsPart path (m.typeOf f) (m.typeOf g) := by
  induction path generalizing f with
  | nil => exact congrArg m.typeOf (Option.some.inj h).symm
  | cons position path ih =>
      obtain ⟨label, components, component, rfl, hcomponent, hrest⟩ :=
        exists_of_componentAt?_cons h
      have hnames : ∀ c ∈ components, ∀ n ∈ typeNames c,
          n ∈ typeNames (.tuple label components []) := by
        intro c hc n hn
        exact mem_typeNamesAll_of_mem hc hn
      refine ⟨m.typesOf components, m.typeOf component, rfl, ?_, ?_, ?_⟩
      · rw [typesOf_eq_map, List.forall_mem_map]
        exact fun c hc => hpart c (hnames c hc)
      · rw [typesOf_eq_map, List.getElem?_map, hcomponent, Option.map_some]
      · have hmem := List.mem_of_getElem? hcomponent
        exact ih (fun c hc => hpart c fun n hn => hnames _ hmem n (hc n hn)) hrest

end SolidityBuild.TypeScript
