import SolidityBuild.Proofs.TypeScript.Expansion

/-!
Declarations with type aliases. The aliases are named like base types, so that no other
name is mistaken for one, and `string`, which may be given none, is written as itself.
With each alias replaced by its definition, every type is the one that is written out
where there are no aliases. Only parentheses differ: an alias needs none in an array
type, where its definition does.
-/

namespace SolidityBuild.TypeScript

open Abi (Field)
open BaseType (named? normalize)

variable {define : String → String} {aliases : List (BaseType × String)} {m m' : Mapping}
  {functions : List Abi.Function} {b : BaseType} {typeName expr : String}

/-! ## Aliases and their definitions -/

/-- The definition of the alias that a word is, or the word itself. -/
def definitionOf (aliases : List (BaseType × String)) (word : String) : String :=
  ((aliases.find? fun a => a.1.name = word).map (·.2)).getD word

theorem definitionOf_of_ne (h : ∀ a ∈ aliases, a.1.name ≠ typeName) :
    definitionOf aliases typeName = typeName := by
  have hnone : (aliases.find? fun a => a.1.name = typeName) = none := by
    apply List.find?_eq_none.2
    intro a ha
    simpa using h a ha
  rw [definitionOf, hnone]
  rfl

/-- Only names of base types are aliases. -/
theorem definitionOf_of_no_base (h : BaseType.ofName? typeName = none) :
    definitionOf aliases typeName = typeName := by
  apply definitionOf_of_ne
  rintro a - rfl
  rw [BaseType.ofName?_name] at h
  cases h

theorem definitionOf_empty (aliases : List (BaseType × String)) : definitionOf aliases "" = "" :=
  definitionOf_of_no_base (by decide)

theorem definitionOf_name (hmem : (b, expr) ∈ aliases)
    (honce : ∀ expr', (b, expr') ∈ aliases → expr' = expr) :
    definitionOf aliases b.name = expr := by
  cases hfind : aliases.find? fun a => a.1.name = b.name with
  | none =>
    have hne := List.find?_eq_none.1 hfind _ hmem
    simp at hne
  | some a =>
    obtain ⟨base, expr'⟩ := a
    have hname : base.name = b.name := by simpa using List.find?_some hfind
    obtain rfl := BaseType.name_injective hname
    rw [definitionOf, hfind]
    exact honce expr' (List.mem_of_find?_eq_some hfind)

namespace Declaration

/-- The base types that are given aliases, with their definitions. -/
def definitions (m : Mapping) (functions : List Abi.Function) : List (BaseType × String) :=
  m.entries.filter fun a => isExtracted m functions a.1

theorem isExtracted_iff : isExtracted m functions b = true ↔
    b ≠ .string ∧ (m.get? b).isSome = true ∧
      ∃ f ∈ functions, ∃ n ∈ typeNamesAll (f.inputs ++ f.outputs), named? n = some b := by
  simp only [isExtracted, Bool.and_eq_true, decide_eq_true_eq, List.any_eq_true, Bool.or_eq_true,
    occursInAny_iff, typeNamesAll_append, List.mem_append, or_and_right, exists_or, and_assoc]

theorem mem_definitions_iff : (b, expr) ∈ definitions m functions ↔
    b ≠ .string ∧ m.get? b = some expr ∧
      ∃ f ∈ functions, ∃ n ∈ typeNamesAll (f.inputs ++ f.outputs), named? n = some b := by
  rw [definitions, List.mem_filter, Mapping.mem_entries_iff, isExtracted_iff]
  constructor
  · rintro ⟨hget, hstring, -, hoccurs⟩
    exact ⟨hstring, hget, hoccurs⟩
  · rintro ⟨hstring, hget, hoccurs⟩
    exact ⟨hget, hstring, by rw [hget, Option.isSome_some], hoccurs⟩

theorem map_fst_definitions (m : Mapping) (functions : List Abi.Function) :
    (definitions m functions).map Prod.fst = BaseType.all.filter (isExtracted m functions) := by
  unfold definitions Mapping.entries
  induction BaseType.all with
  | nil => rfl
  | cons b bases ih =>
    cases hget : m.get? b with
    | none =>
      have hnot : isExtracted m functions b = false := by simp [isExtracted, hget]
      rw [List.filterMap_cons_none (by rw [hget]; rfl), ih,
        List.filter_cons_of_neg (by simp [hnot])]
    | some expr =>
      rw [List.filterMap_cons_some (by rw [hget]; rfl), List.filter_cons, List.filter_cons]
      split
      · rw [List.map_cons, ih]
      · exact ih

theorem get?_withAliases (m : Mapping) (bases : List BaseType) (b : BaseType) :
    (withAliases m bases).get? b = if b ∈ bases then some b.name else m.get? b := by
  unfold withAliases
  induction bases generalizing m with
  | nil => simp
  | cons base bases ih =>
    rw [List.foldl_cons, ih, Mapping.set]
    by_cases hmem : b ∈ bases
    · rw [if_pos hmem, if_pos (List.mem_cons_of_mem base hmem)]
    · by_cases hbase : b = base
      · simp [hbase]
      · simp [hmem, hbase]

/-- The mapping of a declaration with aliases. -/
def aliased (m : Mapping) (functions : List Abi.Function) : Mapping :=
  withAliases m ((definitions m functions).map Prod.fst)

theorem get?_aliased_of_mem (h : (b, expr) ∈ definitions m functions) :
    (aliased m functions).get? b = some b.name := by
  rw [aliased, get?_withAliases, if_pos (List.mem_map_of_mem h)]

theorem get?_aliased_of_not_mem (h : ∀ expr, (b, expr) ∉ definitions m functions) :
    (aliased m functions).get? b = m.get? b := by
  rw [aliased, get?_withAliases, if_neg]
  intro hmem
  obtain ⟨⟨base, expr⟩, hdefined, rfl⟩ := List.mem_map.1 hmem
  exact h expr hdefined

/-! ## What names expand to -/

/-- A name without an expression is the same with aliases, and is none of them. -/
theorem expands_unmapped (hplain : IsPlain typeName)
    (h : ∀ b, named? typeName = some b → m.get? b = none) :
    Expands (definitionOf (definitions m functions))
      ((aliased m functions).exprOfName typeName).toList (m.exprOfName typeName).toList := by
  have hnot : ∀ b, named? typeName = some b → ∀ expr, (b, expr) ∉ definitions m functions := by
    intro b hnamed expr hmem
    have hget := (mem_definitions_iff.1 hmem).2.1
    rw [h b hnamed] at hget
    cases hget
  have haliased : ∀ b, named? typeName = some b → (aliased m functions).get? b = none := by
    intro b hnamed
    rw [get?_aliased_of_not_mem (hnot b hnamed), h b hnamed]
  rw [Mapping.exprOfName_of_unmapped h, Mapping.exprOfName_of_unmapped haliased]
  apply expands_plain (isPlain_normalize hplain)
  apply definitionOf_of_ne
  rintro ⟨base, expr⟩ hmem (hname : base.name = normalize typeName)
  apply hnot base _ expr hmem
  rw [← BaseType.named?_normalize, ← hname, BaseType.named?_name]

/-- `string` is no alias, so it has to be kept as it is. -/
theorem expands_string (hnamed : named? typeName = some .string)
    (hstring : m.get? .string = some BaseType.string.name) :
    Expands (definitionOf (definitions m functions))
      ((aliased m functions).exprOfName typeName).toList (m.exprOfName typeName).toList := by
  have hnot : ∀ expr, (BaseType.string, expr) ∉ definitions m functions :=
    fun expr hmem => (mem_definitions_iff.1 hmem).1 rfl
  have haliased := (get?_aliased_of_not_mem hnot).trans hstring
  rw [Mapping.exprOfName_of_mapped hnamed hstring, Mapping.exprOfName_of_mapped hnamed haliased]
  apply expands_plain (isPlain_name .string)
  apply definitionOf_of_ne
  rintro ⟨base, expr⟩ hmem hname
  obtain rfl : base = .string := BaseType.name_injective hname
  exact hnot expr hmem

theorem expands_alias (hnamed : named? typeName = some b)
    (h : (b, expr) ∈ definitions m functions) :
    Expands (definitionOf (definitions m functions))
      ((aliased m functions).exprOfName typeName).toList (m.exprOfName typeName).toList := by
  have hget := (mem_definitions_iff.1 h).2.1
  rw [Mapping.exprOfName_of_mapped hnamed hget,
    Mapping.exprOfName_of_mapped hnamed (get?_aliased_of_mem h)]
  apply expands_plain (isPlain_name b)
  apply definitionOf_name h
  intro expr' hmem
  exact Option.some.inj ((mem_definitions_iff.1 hmem).2.1.symm.trans hget)

/-- Where a name occurs, its expression with aliases expands to the one without. -/
theorem expands_exprOfName (hstring : m.get? .string = some BaseType.string.name)
    (hplain : IsPlain typeName)
    (hoccurs : ∃ f ∈ functions, typeName ∈ typeNamesAll (f.inputs ++ f.outputs)) :
    Expands (definitionOf (definitions m functions))
      ((aliased m functions).exprOfName typeName).toList (m.exprOfName typeName).toList := by
  by_cases hmapped : ∀ b, named? typeName = some b → m.get? b = none
  · exact expands_unmapped hplain hmapped
  · obtain ⟨b, hnamed, hget⟩ : ∃ b, named? typeName = some b ∧ m.get? b ≠ none := by
      simpa using hmapped
    obtain ⟨expr, hexpr⟩ := Option.ne_none_iff_exists'.1 hget
    by_cases hb : b = .string
    · rw [hb] at hnamed
      exact expands_string hnamed hstring
    · obtain ⟨f, hf, hmem⟩ := hoccurs
      exact expands_alias hnamed
        (mem_definitions_iff.2 ⟨hb, hexpr, f, hf, typeName, hmem, hnamed⟩)

/-! ## Declarations -/

/-- The line of an alias with its definition. -/
def definitionLine (definition : BaseType × String) : String :=
  "type " ++ definition.1.name ++ " = " ++ definition.2 ++ ";\n"

/-- The interface with the types of a mapping. -/
def interfaceText (keyword : DeclarationKeyword) (name : String) (m : Mapping)
    (functions : List Abi.Function) : String :=
  keyword.text ++ " interface " ++ name ++ " \x7b\n" ++
    String.join (functions.map (methodLine m)) ++ "\x7d\n"

theorem map_definitionLine (m : Mapping) (functions : List Abi.Function) :
    (definitions m functions).map definitionLine =
      ((definitions m functions).map Prod.fst).map (aliasLine m) := by
  rw [List.map_map]
  apply List.map_congr_left
  rintro ⟨b, expr⟩ hmem
  show definitionLine (b, expr) = aliasLine m b
  rw [aliasLine, (mem_definitions_iff.1 hmem).2.1, Option.getD_some]
  rfl

theorem render_extracted (name : String) (keyword : DeclarationKeyword) (m : Mapping) (abi : Abi) :
    render ⟨name, keyword, true, m⟩ abi =
      String.join ((definitions m abi.functions).map definitionLine) ++
        (if (definitions m abi.functions).isEmpty then "" else "\n") ++
        interfaceText keyword name (aliased m abi.functions) abi.functions := by
  have hbases : extracted ⟨name, keyword, true, m⟩ abi.functions =
      (definitions m abi.functions).map Prod.fst := by
    rw [extracted, if_pos rfl, map_fst_definitions]
  simp only [render, hbases, map_definitionLine, List.isEmpty_map, interfaceText, aliased,
    String.append_assoc]

theorem render_inline (name : String) (keyword : DeclarationKeyword) (m : Mapping) (abi : Abi) :
    render ⟨name, keyword, false, m⟩ abi = interfaceText keyword name m abi.functions := by
  have hbases : extracted ⟨name, keyword, false, m⟩ abi.functions = [] := rfl
  simp only [render, hbases, withAliases, List.foldl_nil, List.map_nil, List.isEmpty_nil, if_true,
    String.join_nil, String.empty_append, interfaceText]

theorem expands_outputOf (aliases : List (BaseType × String)) {outputs : List Field}
    (h : ∀ n ∈ typeNamesAll outputs, Expands (definitionOf aliases) (m'.exprOfName n).toList
      (m.exprOfName n).toList) :
    Expands (definitionOf aliases) (outputOf m' outputs).toList (outputOf m outputs).toList := by
  rw [outputOf, outputOf]
  split
  · exact expands_plain (by decide) (definitionOf_of_no_base (by decide))
  · exact expands_typeOf (definitionOf_empty aliases) (Field.tupleOf outputs) h

theorem withoutParentheses_replaceWords {expr expr' : String}
    (h : Expands define expr.toList expr'.toList) :
    withoutParentheses (replaceWords define expr) = withoutParentheses expr' := by
  rw [withoutParentheses, replaceWords, String.toList_ofList, h, withoutParentheses]

/-- With aliases a declaration begins with one line for each base type but `string` that
has an expression and occurs in an input or output of a function, in the order of base
types, and goes on as the interface does without aliases but for the names in it. If the
names of types hold no punctuation, then with each alias replaced by its definition the
type of every input and of the outputs of every function is, parentheses aside, the one
that is written out without aliases. -/
theorem aliased_types_expand (name : String) (keyword : DeclarationKeyword) (abi : Abi)
    (hplain : ∀ f ∈ abi.functions, ∀ n ∈ typeNamesAll (f.inputs ++ f.outputs), IsPlain n) :
    let aliases := definitions .defaults abi.functions
    let m := aliased .defaults abi.functions
    (aliases.map Prod.fst).Sublist BaseType.all ∧ (aliases.map Prod.fst).Nodup ∧
    (∀ b expr, (b, expr) ∈ aliases ↔ b ≠ .string ∧ Mapping.defaults.get? b = some expr ∧
      ∃ f ∈ abi.functions, ∃ n ∈ typeNamesAll (f.inputs ++ f.outputs), named? n = some b) ∧
    render ⟨name, keyword, true, .defaults⟩ abi =
      String.join (aliases.map definitionLine) ++ (if aliases.isEmpty then "" else "\n") ++
        interfaceText keyword name m abi.functions ∧
    render ⟨name, keyword, false, .defaults⟩ abi =
      interfaceText keyword name .defaults abi.functions ∧
    ∀ f ∈ abi.functions,
      (∀ i ∈ f.inputs, withoutParentheses (replaceWords (definitionOf aliases) (m.typeOf i)) =
        withoutParentheses (Mapping.defaults.typeOf i)) ∧
      withoutParentheses (replaceWords (definitionOf aliases) (outputOf m f.outputs)) =
        withoutParentheses (outputOf .defaults f.outputs) := by
  intro aliases m
  have hsublist : (aliases.map Prod.fst).Sublist BaseType.all := by
    rw [map_fst_definitions]
    exact List.filter_sublist
  have hnames : ∀ f ∈ abi.functions, ∀ n ∈ typeNamesAll (f.inputs ++ f.outputs),
      Expands (definitionOf aliases) (m.exprOfName n).toList
        (Mapping.defaults.exprOfName n).toList := by
    intro f hf n hn
    exact expands_exprOfName rfl (hplain f hf n hn) ⟨f, hf, hn⟩
  refine ⟨hsublist, hsublist.nodup BaseType.nodup_all, ?_, ?_, ?_, ?_⟩
  · intro b expr
    exact mem_definitions_iff
  · exact render_extracted name keyword .defaults abi
  · exact render_inline name keyword .defaults abi
  · intro f hf
    have hboth := hnames f hf
    rw [typeNamesAll_append, List.forall_mem_append] at hboth
    obtain ⟨hinputs, houtputs⟩ := hboth
    constructor
    · intro i hi
      apply withoutParentheses_replaceWords
      apply expands_typeOf (definitionOf_empty aliases)
      intro n hn
      exact hinputs n (mem_typeNamesAll_of_mem hi hn)
    · apply withoutParentheses_replaceWords
      exact expands_outputOf aliases houtputs

/-- A parameter with tuples in an array, and names that stand for others. -/
def orders : Field :=
  .tuple ⟨"orders", none, none⟩
    [.regular ⟨"amount", none, none⟩ "uint" [],
      .regular ⟨"owners", none, none⟩ "account" [.dynamic]]
    [.dynamic]

/-- A contract with such a parameter, and with a name that is no base type. -/
def market : Abi :=
  [.function ⟨"trade",
      [orders, .regular ⟨"kind", none, none⟩ "byte" [], .regular ⟨"note", none, none⟩ "string" []],
      [.regular ⟨"", none, none⟩ "int256" [.fixed 2], .regular ⟨"", none, none⟩ "Coin" []],
      none, none, none⟩,
    .function ⟨"stop", [], [], none, none, none⟩]

theorem market_types_expand :
    (∀ f ∈ market.functions, ∀ n ∈ typeNamesAll (f.inputs ++ f.outputs), IsPlain n) ∧
    (∃ f ∈ market.functions, orders ∈ f.inputs) ∧
    render ⟨"Market", .exported, true, .defaults⟩ market =
      "type address = string | bigint;\n" ++
        "type uint8 = string | bigint | number;\n" ++
        "type uint256 = string | bigint | number;\n" ++
        "type int256 = string | bigint | number;\n\n" ++
        "export interface Market \x7b\n" ++
        "    trade(orders: ([uint256, address[]])[], kind: uint8, note: string): " ++
        "Promise<[int256[], Coin]>;\n" ++
        "    stop(): Promise<void>;\n\x7d\n" ∧
    withoutParentheses (replaceWords (definitionOf (definitions .defaults market.functions))
      "([uint256, address[]])[]") = "[string | bigint | number, string | bigint[]][]" := by
  have hplain : ∀ f ∈ market.functions, ∀ n ∈ typeNamesAll (f.inputs ++ f.outputs),
      IsPlain n := by
    decide +kernel
  obtain ⟨-, -, -, -, -, hexpand⟩ := aliased_types_expand "Market" .exported market hplain
  have hinput := (hexpand _ List.mem_cons_self).1 orders List.mem_cons_self
  have hextracted : (aliased .defaults market.functions).typeOf orders =
      "([uint256, address[]])[]" := by
    decide +kernel
  have hinline : withoutParentheses (Mapping.defaults.typeOf orders) =
      "[string | bigint | number, string | bigint[]][]" := by
    decide +kernel
  refine ⟨hplain, ⟨_, List.mem_cons_self, List.mem_cons_self⟩, by decide +kernel, ?_⟩
  rw [← hextracted, hinput, hinline]

end Declaration

end SolidityBuild.TypeScript
