import Mathlib.Data.List.Forall2
import SolidityBuild.Proofs.Source.Statement

/-!
The grammar of import statements. What a scan finds are the lines of the grammar,
each once and in their order, with nothing else among them. The opening quotation
mark may be cut off as one byte: both marks are one byte long, so that the cut
never ends inside a character, whatever stands around it.
-/

namespace SolidityBuild.Import

open Text

variable {line specifier : List Char} {i : Import}

/-- A line is an import statement, blanks around it aside: the keyword and a blank,
a specifier between two quotation marks of a kind that is not in it, and a
semicolon. -/
inductive IsStatement (line : List Char) : Import → Prop
  | quoted {quote : Char} {specifier : List Char} (hquote : quote = '"' ∨ quote = '\'')
      (hnonempty : specifier ≠ []) (hclosed : quote ∉ specifier)
      (hline : trim line = "import ".toList ++ quote :: (specifier ++ [quote, ';'])) :
      IsStatement line ⟨String.ofList (trim line), String.ofList specifier⟩

theorem isQuote_iff {c : Char} : isQuote c = true ↔ c = '"' ∨ c = '\'' := by
  simp [isQuote]

theorem toList_keyword : "import ".toList = keyword := by
  simp [keyword]

theorem isStatement_iff : IsStatement line i ↔ ofLine? line = some i := by
  rw [ofLine?_eq_some_iff]
  constructor
  · rintro ⟨hquote, hnonempty, hclosed, hline⟩
    rw [toList_keyword] at hline
    exact ⟨_, _, isQuote_iff.2 hquote, hnonempty, hclosed, hline, by rw [hline]; rfl⟩
  · rintro ⟨quote, specifier, hquote, hnonempty, hclosed, hline, rfl⟩
    rw [← hline]
    apply IsStatement.quoted (isQuote_iff.1 hquote) hnonempty hclosed
    rw [hline, toList_keyword]
    rfl

theorem exists_isStatement_iff : (∃ i, IsStatement line i) ↔ (ofLine? line).isSome = true := by
  simp only [isStatement_iff, Option.isSome_iff_exists]

instance (line : List Char) : Decidable (∃ i, IsStatement line i) :=
  decidable_of_iff _ exists_isStatement_iff.symm

/-- A line is no more than one statement. -/
theorem isStatement_rightUnique : Relator.RightUnique IsStatement := by
  intro line i j hi hj
  apply Option.some.inj
  rw [← isStatement_iff.1 hi, ← isStatement_iff.1 hj]

theorem forall₂_filterMap {α β : Type} (f : α → Option β) (items : List α) :
    List.Forall₂ (fun a b => f a = some b) (items.filter fun a => (f a).isSome)
      (items.filterMap f) := by
  induction items with
  | nil => exact .nil
  | cons a rest ih =>
    cases h : f a with
    | none => simpa [h] using ih
    | some b => simpa [h] using ih

theorem forall₂_scan (text : String) :
    List.Forall₂ IsStatement ((lines text.toList).filter fun line => ∃ i, IsStatement line i)
      (scan text) := by
  have hkept : (lines text.toList).filter (fun line => ∃ i, IsStatement line i) =
      (lines text.toList).filter fun line => (ofLine? line).isSome := by
    apply List.filter_congr
    intro line _
    simp only [exists_isStatement_iff, Bool.decide_eq_true]
  rw [hkept]
  apply (forall₂_filterMap ofLine? (lines text.toList)).imp
  intro line i h
  exact isStatement_iff.2 h

/-! ## Cutting by bytes -/

/-- What stands behind the first bytes of a text. There is no such text if they end
inside a character, or if there are not as many. -/
def behindBytes? : (bytes : Nat) → List Char → Option (List Char)
  | 0, cs => some cs
  | _ + 1, [] => none
  | bytes + 1, c :: cs =>
    if c.utf8Size ≤ bytes + 1 then behindBytes? (bytes + 1 - c.utf8Size) cs else none

/-- The specifier in what stands behind the opening quotation mark. -/
def specifierBehind? (quote : Char) (behind : List Char) : Option (List Char) := do
  let quoted ← stripEnd? ';' behind
  let specifier ← stripEnd? quote quoted
  if specifier.isEmpty ∨ quote ∈ specifier then none else some specifier

/-- The specifier of a line, if it is an import statement, where one byte is cut off
for the opening quotation mark. There is no answer if the cut fails. -/
def specifierByBytes? (line : List Char) : Option (Option (List Char)) :=
  match keyword.isPrefixOf? line with
  | some (quote :: rest) =>
    if isQuote quote then (behindBytes? 1 (quote :: rest)).map (specifierBehind? quote)
    else some none
  | _ => some none

/-- The import statements of a text, if no cut fails in any of its lines. -/
def scanByBytes? (text : String) : Option (List Import) :=
  ((lines text.toList).mapM fun line =>
    (specifierByBytes? (trim line)).map fun found =>
      found.map fun specifier =>
        (⟨String.ofList (trim line), String.ofList specifier⟩ : Import)).map List.reduceOption

theorem utf8Size_of_isQuote {c : Char} (h : isQuote c = true) : c.utf8Size = 1 := by
  rcases isQuote_iff.1 h with rfl | rfl <;> rfl

theorem behindBytes?_quote {quote : Char} (hquote : isQuote quote = true) (rest : List Char) :
    behindBytes? 1 (quote :: rest) = some rest := by
  rw [behindBytes?, utf8Size_of_isQuote hquote, if_pos (Nat.le_refl 1)]
  cases rest <;> rfl

/-- The cut is made behind a quotation mark only, so it never fails. -/
theorem specifierByBytes?_eq (line : List Char) :
    specifierByBytes? line = some (specifier? line) := by
  unfold specifierByBytes? specifier?
  cases keyword.isPrefixOf? line with
  | none => rfl
  | some behind =>
    cases behind with
    | nil => rfl
    | cons quote rest =>
      cases hquote : isQuote quote with
      | false => simp only [hquote, Bool.false_eq_true, if_false]
      | true =>
        simp only [hquote, if_true, behindBytes?_quote hquote]
        rfl

theorem scanByBytes?_eq (text : String) : scanByBytes? text = some (scan text) := by
  have hlines : (lines text.toList).mapM (fun line => some (ofLine? line)) =
      some ((lines text.toList).map ofLine?) :=
    List.mapM_pure
  simp only [scanByBytes?, specifierByBytes?_eq, Option.map_some]
  show ((lines text.toList).mapM fun line => some (ofLine? line)).map List.reduceOption = _
  rw [hlines, Option.map_some]
  show some (((lines text.toList).map ofLine?).filterMap id) = _
  rw [List.filterMap_map]
  rfl

/-- The imports of a text are the lines of the grammar, in order and once for each
line: with the trimmed line as the statement, and as the specifier the text between
the quotation marks. No other list of imports goes with these lines, and cutting off
the opening quotation mark as one byte succeeds in every line of every text. -/
theorem scan_follows_grammar (text : String) :
    (∀ imports, List.Forall₂ IsStatement
        ((lines text.toList).filter fun line => ∃ i, IsStatement line i) imports ↔
      imports = scan text) ∧
    scanByBytes? text = some (scan text) := by
  refine ⟨fun imports => ⟨fun h => ?_, ?_⟩, scanByBytes?_eq text⟩
  · exact isStatement_rightUnique.forall₂ h (forall₂_scan text)
  · rintro rfl
    exact forall₂_scan text

/-- The closing mark has to be of the kind of the opening one, and neither it nor the
semicolon may be missing. -/
example : (scan "import \"a';\n\timport 'a\"';\nimport \";\nimport ';'\n").map (·.specifier) =
    ["a\""] := by
  decide +kernel

end SolidityBuild.Import
