import Mathlib.Data.List.Forall2
import SolidityBuild.Proofs.Text.Decimal
import SolidityBuild.Proofs.TypeScript.BaseType
import SolidityBuild.TypeScript.Declaration

/-!
Replacing words in type expressions. Names of types hold no punctuation, and nothing but
punctuation is put between them, so each of them is a word of its own and the words can
be replaced one by one. If the expressions for the names in a parameter become others in
this way, so does that of the parameter. Only parentheses may differ, which stand in
array types around some expressions.
-/

namespace SolidityBuild.TypeScript

open Abi (Field)
open BaseType (named? normalize)

variable {define : String → String} {m m' : Mapping} {b : BaseType} {typeName expr : String}

/-! ## Names in parameters -/

mutual

/-- The names of base types in a parameter, at any depth. -/
def typeNames : Field → List String
  | .regular _ typeName _ => [typeName]
  | .tuple _ components _ => typeNamesAll components

def typeNamesAll : List Field → List String
  | [] => []
  | f :: fs => typeNames f ++ typeNamesAll fs

end

theorem typeNamesAll_append (fs gs : List Field) :
    typeNamesAll (fs ++ gs) = typeNamesAll fs ++ typeNamesAll gs := by
  induction fs with
  | nil => rfl
  | cons f fs ih => rw [List.cons_append, typeNamesAll, typeNamesAll, ih, List.append_assoc]

theorem mem_typeNamesAll_of_mem {f : Field} {fs : List Field} (hf : f ∈ fs)
    (h : typeName ∈ typeNames f) : typeName ∈ typeNamesAll fs := by
  induction fs with
  | nil => cases hf
  | cons g fs ih =>
    rw [typeNamesAll, List.mem_append]
    rcases List.mem_cons.1 hf with rfl | hf
    · exact .inl h
    · exact .inr (ih hf)

mutual

theorem occursIn_iff : ∀ f : Field,
    Declaration.occursIn b f = true ↔ ∃ n ∈ typeNames f, named? n = some b
  | .regular label typeName dims => by simp [Declaration.occursIn, typeNames]
  | .tuple label components dims => by
      rw [Declaration.occursIn, typeNames]
      exact occursInAny_iff components

theorem occursInAny_iff : ∀ fs : List Field,
    Declaration.occursInAny b fs = true ↔ ∃ n ∈ typeNamesAll fs, named? n = some b
  | [] => by simp [Declaration.occursInAny, typeNamesAll]
  | f :: fs => by
      rw [Declaration.occursInAny, typeNamesAll, Bool.or_eq_true, occursIn_iff f,
        occursInAny_iff fs]
      simp only [List.mem_append, or_and_right, exists_or]

end

/-! ## Replacing words -/

/-- The characters that end a word of a type expression. -/
def punctuation : List Char := [' ', '|', ',', '[', ']', '(', ')']

/-- A text without punctuation. Every alphanumeric name is one. -/
def IsPlain (s : String) : Prop := ∀ c ∈ s.toList, c ∉ punctuation

instance (s : String) : Decidable (IsPlain s) := List.decidableBAll (· ∉ punctuation) s.toList

theorem isPlain_normalize (h : IsPlain typeName) : IsPlain (normalize typeName) := by
  have hall : ∀ a ∈ BaseType.aliases, IsPlain a.2 := by decide
  rcases BaseType.normalize_cases typeName with hself | halias
  · rwa [hself]
  · exact hall (typeName, normalize typeName) halias

theorem isPlain_name (b : BaseType) : IsPlain b.name := by
  have hnone : punctuation.any Char.isAlphanum = false := by decide
  exact fun _ => BaseType.not_mem_of_mem_name hnone

/-- Replace the words of a text behind what has been read of a word so far. -/
def replaceFrom (define : String → String) : (word : List Char) → List Char → List Char
  | word, [] => (define (String.ofList word)).toList
  | word, c :: cs =>
    if c ∈ punctuation then
      (define (String.ofList word)).toList ++ c :: replaceFrom define [] cs
    else replaceFrom define (word ++ [c]) cs

/-- Replace each word of a text, which ends at punctuation. -/
def replaceWords (define : String → String) (text : String) : String :=
  String.ofList (replaceFrom define [] text.toList)

/-- Whether a character is no parenthesis. -/
def isKept (c : Char) : Bool := c ≠ '(' && c ≠ ')'

def withoutParentheses (text : String) : String := String.ofList (text.toList.filter isKept)

theorem replaceFrom_plain {word cs : List Char} (h : ∀ c ∈ cs, c ∉ punctuation) :
    replaceFrom define word cs = (define (String.ofList (word ++ cs))).toList := by
  induction cs generalizing word with
  | nil => rw [replaceFrom, List.append_nil]
  | cons c cs ih =>
    rw [replaceFrom, if_neg (h c List.mem_cons_self),
      ih fun d hd => h d (List.mem_cons_of_mem c hd), List.append_assoc]
    rfl

/-- Words on the two sides of punctuation are replaced by themselves. -/
theorem replaceFrom_append {c : Char} (hc : c ∈ punctuation) (word front back : List Char) :
    replaceFrom define word (front ++ c :: back) =
      replaceFrom define word front ++ c :: replaceFrom define [] back := by
  induction front generalizing word with
  | nil => rw [List.nil_append, replaceFrom, replaceFrom, if_pos hc]
  | cons d front ih =>
    rw [List.cons_append, replaceFrom, replaceFrom]
    split
    · rw [ih, List.append_assoc, List.cons_append]
    · exact ih (word ++ [d])

/-- With its words replaced, the first text is the second, parentheses aside. -/
def Expands (define : String → String) (text text' : List Char) : Prop :=
  (replaceFrom define [] text).filter isKept = text'.filter isKept

section Expands

variable {text text' rest rest' : List Char}

theorem Expands.append {c : Char} (h : Expands define text text')
    (hrest : Expands define rest rest') (hc : c ∈ punctuation) :
    Expands define (text ++ c :: rest) (text' ++ c :: rest') := by
  rw [Expands, replaceFrom_append hc, List.filter_append, List.filter_append, h,
    List.filter_cons, List.filter_cons, hrest]

theorem expands_plain (h : IsPlain typeName) (hdefine : define typeName = expr) :
    Expands define typeName.toList expr.toList := by
  rw [Expands, replaceFrom_plain h, List.nil_append, String.ofList_toList, hdefine]

theorem expands_nil (hempty : define "" = "") : Expands define [] [] := by
  rw [Expands, replaceFrom, String.ofList_nil, hempty]
  rfl

theorem Expands.left_parentheses (hempty : define "" = "") (h : Expands define text text') :
    Expands define ('(' :: (text ++ [')'])) text' := by
  have hbetween : Expands define (text ++ ')' :: []) (text' ++ ')' :: []) :=
    h.append (expands_nil hempty) (by decide)
  have hboth : Expands define ([] ++ '(' :: (text ++ [')'])) ([] ++ '(' :: (text' ++ [')'])) :=
    (expands_nil hempty).append hbetween (by decide)
  rw [List.nil_append] at hboth
  rw [Expands, hboth]
  simp [isKept]

theorem Expands.right_parentheses (h : Expands define text text') :
    Expands define text ('(' :: (text' ++ [')'])) := by
  rw [Expands, h]
  simp [isKept]

end Expands

/-! ## Type expressions -/

theorem enclose_cases (expr : String) :
    Mapping.enclose expr = expr ∨
      (Mapping.enclose expr).toList = '(' :: (expr.toList ++ [')']) := by
  unfold Mapping.enclose
  split
  · exact .inr (by simp)
  · exact .inl rfl

theorem expands_enclose (hempty : define "" = "") {expr expr' : String}
    (h : Expands define expr.toList expr'.toList) :
    Expands define (Mapping.enclose expr).toList (Mapping.enclose expr').toList := by
  have hleft : Expands define (Mapping.enclose expr).toList expr'.toList := by
    rcases enclose_cases expr with hsame | hparentheses
    · rwa [hsame]
    · rw [hparentheses]
      exact h.left_parentheses hempty
  rcases enclose_cases expr' with hsame | hparentheses
  · rwa [hsame]
  · rw [hparentheses]
    exact hleft.right_parentheses

theorem expands_arrayOf (hempty : define "" = "") (dims : List Abi.Dim) {expr expr' : String}
    (h : Expands define expr.toList expr'.toList) :
    Expands define (Mapping.arrayOf expr dims).toList (Mapping.arrayOf expr' dims).toList := by
  induction dims generalizing expr expr' with
  | nil => exact h
  | cons dim dims ih =>
    have hbrackets : ∀ e : String, (e ++ "[]").toList = e.toList ++ '[' :: ([] ++ ']' :: []) := by
      intro e
      simp
    apply ih
    rw [hbrackets, hbrackets]
    apply (expands_enclose hempty h).append _ (by decide)
    exact (expands_nil hempty).append (expands_nil hempty) (by decide)

theorem expands_intercalate (hempty : define "" = "") {exprs exprs' : List String}
    (h : List.Forall₂ (fun e e' => Expands define e.toList e'.toList) exprs exprs') :
    Expands define (String.intercalate ", " exprs).toList
      (String.intercalate ", " exprs').toList := by
  induction h with
  | nil => exact expands_nil hempty
  | @cons e e' rest rest' hfirst hrest ih =>
    cases hrest with
    | nil => simpa using hfirst
    | cons _ _ =>
      rw [String.intercalate_cons_cons, String.intercalate_cons_cons]
      have hcomma : ∀ front back : String, (front ++ ", " ++ back).toList =
          front.toList ++ ',' :: ([] ++ ' ' :: back.toList) := by
        intro front back
        simp
      rw [hcomma, hcomma]
      apply hfirst.append _ (by decide)
      exact (expands_nil hempty).append ih (by decide)

mutual

/-- A type expression expands to another if the expressions for its names do. -/
theorem expands_typeOf (hempty : define "" = "") : ∀ f : Field,
    (∀ n ∈ typeNames f, Expands define (m'.exprOfName n).toList (m.exprOfName n).toList) →
      Expands define (m'.typeOf f).toList (m.typeOf f).toList
  | .regular label typeName dims, h => by
      rw [Mapping.typeOf, Mapping.typeOf]
      exact expands_arrayOf hempty dims (h typeName List.mem_cons_self)
  | .tuple label components dims, h => by
      have hbrackets : ∀ e : String, ("[" ++ e ++ "]").toList =
          [] ++ '[' :: (e.toList ++ ']' :: []) := by
        intro e
        simp
      have hcomponents := expands_intercalate hempty (expands_typesOf hempty components h)
      rw [Mapping.typeOf, Mapping.typeOf]
      apply expands_arrayOf hempty dims
      rw [hbrackets, hbrackets]
      apply (expands_nil hempty).append _ (by decide)
      exact hcomponents.append (expands_nil hempty) (by decide)

theorem expands_typesOf (hempty : define "" = "") : ∀ fs : List Field,
    (∀ n ∈ typeNamesAll fs, Expands define (m'.exprOfName n).toList (m.exprOfName n).toList) →
      List.Forall₂ (fun e e' => Expands define e.toList e'.toList) (m'.typesOf fs) (m.typesOf fs)
  | [], _ => .nil
  | f :: fs, h => by
      rw [typeNamesAll, List.forall_mem_append] at h
      rw [Mapping.typesOf, Mapping.typesOf]
      exact .cons (expands_typeOf hempty f h.1) (expands_typesOf hempty fs h.2)

end

end SolidityBuild.TypeScript
