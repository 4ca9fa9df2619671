import Mathlib.Data.List.Forall2
import SolidityBuild.Abi.Type
import SolidityBuild.Proofs.Text.Decimal
import SolidityBuild.Proofs.Text.Replace

/-!
Type strings and their parts. The dimensions are told from a base name in front
of them, and one from another, in one way only; what is taken off a type string
is taken off again when it is written behind the base name.
-/

namespace SolidityBuild.Abi

open Text

/-! ## Dimensions -/

namespace Dim

variable {d d' : Dim} {ds ds' dims acc : List Dim}
  {base front inside rest rest' text : List Char} {sizes : List (List Char)}

/-- What stands between the brackets. -/
def size : Dim → List Char
  | dynamic => []
  | fixed size => (Decimal.print size.toNat).toList

theorem toList_text (d : Dim) : d.text.toList = '[' :: (d.size ++ [']']) := by
  cases d with
  | dynamic => rfl
  | fixed size => simp [text, Dim.size]

@[simp] theorem toList_texts_nil : (texts []).toList = [] := rfl

@[simp] theorem toList_texts_cons (d : Dim) (ds : List Dim) :
    (texts (d :: ds)).toList = '[' :: (d.size ++ ']' :: (texts ds).toList) := by
  simp [texts, toList_text, String.toList_join]

/-- What may stand between the brackets of a dimension: nothing, or the digits of a
size that fits into 64 bits. -/
inductive IsSize : List Char → Dim → Prop
  | dynamic : IsSize [] .dynamic
  | fixed {digits : List Char} {size : UInt64} :
    Decimal.Denotes digits size.toNat → IsSize digits (.fixed size)

theorem isSize_size (d : Dim) : IsSize d.size d := by
  cases d with
  | dynamic => exact .dynamic
  | fixed size => exact .fixed (Decimal.denotes_print size.toNat)

theorem ofSize?_eq_some_iff : ofSize? inside = some d ↔ IsSize inside d := by
  rw [ofSize?]
  constructor
  · intro h
    split at h
    next hempty =>
      obtain rfl := List.isEmpty_iff.1 hempty
      cases h
      exact .dynamic
    next =>
      obtain ⟨n, hread, rfl⟩ := Option.map_eq_some_iff.1 h
      obtain ⟨hdenotes, hle⟩ := Decimal.read?_eq_some_iff.1 hread
      refine .fixed ?_
      rwa [UInt64.toNat_ofNat_of_lt' (Nat.lt_succ_of_le hle)]
  · intro h
    cases h with
    | dynamic => rfl
    | @fixed _ size hdenotes =>
        have hne : inside.isEmpty = false := by
          obtain ⟨digits, hdigits, -, rfl | rfl, -⟩ := hdenotes
          · exact List.isEmpty_eq_false_iff.2 hdigits
          · rfl
        have hle : size.toNat ≤ UInt64.size - 1 := Nat.le_pred_of_lt size.toNat_lt
        rw [if_neg (by simp [hne]), Decimal.read?_eq_some_iff.2 ⟨hdenotes, hle⟩, Option.map_some,
          UInt64.ofNat_toNat]

theorem ofSize?_size (d : Dim) : ofSize? d.size = some d := ofSize?_eq_some_iff.2 (isSize_size d)

theorem size_injective (h : d.size = d'.size) : d = d' := by
  have hsize := ofSize?_size d
  rw [h, ofSize?_size] at hsize
  exact (Option.some.inj hsize).symm

theorem not_mem_of_isSize {c : Char} (hc : c.isDigit = false) (hplus : c ≠ '+')
    (h : IsSize inside d) : c ∉ inside := by
  cases h with
  | dynamic => exact List.not_mem_nil
  | fixed hdenotes =>
      obtain ⟨digits, -, hdigits, hinside, -⟩ := hdenotes
      have hmem : c ∉ digits := by
        intro hmem
        rw [hdigits c hmem] at hc
        cases hc
      rcases hinside with rfl | rfl
      · exact hmem
      · simp [hplus, hmem]

theorem close_not_mem_size (d : Dim) : ']' ∉ d.size :=
  not_mem_of_isSize (by decide) (by decide) (isSize_size d)

theorem head?_texts_cons (d : Dim) (ds : List Dim) (rest : List Char) :
    ((texts (d :: ds)).toList ++ rest).head? = some '[' := by
  rw [toList_texts_cons, List.cons_append, List.head?_cons]

theorem getLast?_text (d : Dim) : d.text.toList.getLast? = some ']' := by
  rw [toList_text, ← List.cons_append, List.getLast?_concat]

theorem getLast?_texts (d : Dim) (ds : List Dim) :
    (texts (d :: ds)).toList.getLast? = some ']' := by
  rw [texts, List.map_cons, String.join_cons, String.toList_append, List.getLast?_append]
  induction ds generalizing d with
  | nil => rw [getLast?_text]; rfl
  | cons d' ds ih =>
      rw [List.map_cons, String.join_cons, String.toList_append, List.getLast?_append, ih d',
        Option.some_or]

/-- Dimensions end where no further bracket opens. -/
theorem texts_inj (hrest : rest.head? ≠ some '[') (hrest' : rest'.head? ≠ some '[')
    (h : (texts ds).toList ++ rest = (texts ds').toList ++ rest') : ds = ds' ∧ rest = rest' := by
  induction ds generalizing ds' with
  | nil =>
      rw [toList_texts_nil, List.nil_append] at h
      cases ds' with
      | nil => exact ⟨rfl, h⟩
      | cons d' ds' => exact absurd (h ▸ head?_texts_cons d' ds' rest') hrest
  | cons d ds ih =>
      cases ds' with
      | nil =>
          rw [toList_texts_nil, List.nil_append] at h
          exact absurd (h ▸ head?_texts_cons d ds rest) hrest'
      | cons d' ds' =>
          simp only [toList_texts_cons, List.cons_append, List.append_assoc, List.cons.injEq,
            true_and] at h
          obtain ⟨hsize, htail⟩ :=
            append_cons_inj (close_not_mem_size d) (close_not_mem_size d') h
          obtain ⟨rfl, hrest⟩ := ih htail
          exact ⟨by rw [size_injective hsize], hrest⟩

/-! ## Taking dimensions off -/

theorem takeOff_inside (acc : List Dim) {inside : List Char} (h : '[' ∉ inside)
    (size before : List Char) :
    takeOff (some size) acc (inside ++ '[' :: before) =
      takeOff (some (inside.reverse ++ size)) acc ('[' :: before) := by
  induction inside generalizing size with
  | nil => rfl
  | cons c inside ih =>
      have hc : c ≠ '[' := fun hc => h (by simp [hc])
      have hinside : '[' ∉ inside := fun hmem => h (List.mem_cons_of_mem c hmem)
      rw [List.cons_append, takeOff, if_neg hc, ih hinside, List.reverse_cons, List.append_assoc,
        List.singleton_append]

/-- A dimension with a size as it is written. -/
def bracketed (size : List Char) : List Char := '[' :: (size ++ [']'])

theorem takeOff_bracketed (acc : List Dim) (h : IsSize inside d) (front : List Char) :
    takeOff none acc (front ++ bracketed inside).reverse = takeOff none (d :: acc) front.reverse := by
  have hreverse : (front ++ bracketed inside).reverse =
      ']' :: (inside.reverse ++ '[' :: front.reverse) := by
    simp [bracketed]
  have hopen : '[' ∉ inside.reverse := by
    rw [List.mem_reverse]
    exact not_mem_of_isSize (by decide) (by decide) h
  rw [hreverse, takeOff, if_pos rfl, takeOff_inside acc hopen, List.reverse_reverse,
    List.append_nil, takeOff, if_pos rfl, ofSize?_eq_some_iff.2 h]

theorem takeOff_flatMap_bracketed (acc : List Dim) (h : List.Forall₂ IsSize sizes ds)
    (front : List Char) :
    takeOff none acc (front ++ sizes.flatMap bracketed).reverse =
      takeOff none (ds ++ acc) front.reverse := by
  induction h generalizing front with
  | nil => rw [List.flatMap_nil, List.append_nil, List.nil_append]
  | cons hsize hsizes ih =>
      rw [List.flatMap_cons, ← List.append_assoc, ih, takeOff_bracketed _ hsize, List.cons_append]

theorem takeOff_base (ds : List Dim) (hbase : base.getLast? ≠ some ']') :
    takeOff none ds base.reverse = .ok (base, ds) := by
  rw [← List.head?_reverse] at hbase
  cases hreverse : base.reverse with
  | nil =>
      rw [List.reverse_eq_nil_iff.1 hreverse]
      rfl
  | cons c cs =>
      rw [hreverse] at hbase
      have hc : c ≠ ']' := fun hc => hbase (by simp [hc])
      rw [takeOff, if_neg hc, ← hreverse, List.reverse_reverse]

/-- A text is taken apart into a base name that ends in no bracket and the dimensions
behind it, with their sizes as they are written. -/
theorem exists_of_takeOff {reversed : List Char} {size? : Option (List Char)}
    (h : takeOff size? acc reversed = .ok (base, dims)) :
    base.getLast? ≠ some ']' ∧ ∃ sizes ds, List.Forall₂ IsSize sizes ds ∧ dims = ds ++ acc ∧
      reversed.reverse ++ (size?.map (· ++ [']'])).getD [] = base ++ sizes.flatMap bracketed := by
  induction reversed generalizing size? acc with
  | nil =>
      cases size? with
      | none =>
          obtain ⟨rfl, rfl⟩ := Prod.mk.inj (Except.ok.inj h)
          exact ⟨by simp, [], [], .nil, rfl, rfl⟩
      | some size => cases h
  | cons c reversed ih =>
      cases size? with
      | none =>
          rw [takeOff] at h
          split at h
          next hc =>
            obtain ⟨hlast, sizes, ds, hsizes, hdims, htext⟩ := ih h
            refine ⟨hlast, sizes, ds, hsizes, hdims, ?_⟩
            rw [← htext, hc]
            simp
          next hc =>
            obtain ⟨rfl, rfl⟩ := Prod.mk.inj (Except.ok.inj h)
            refine ⟨?_, [], [], .nil, rfl, rfl⟩
            rw [List.getLast?_reverse, List.head?_cons]
            exact fun hlast => hc (Option.some.inj hlast)
      | some size =>
          rw [takeOff] at h
          split at h
          next hc =>
            cases hsize : ofSize? size with
            | none =>
                rw [hsize] at h
                cases h
            | some d =>
                rw [hsize] at h
                obtain ⟨hlast, sizes, ds, hsizes, hdims, htext⟩ := ih h
                refine ⟨hlast, sizes ++ [size], ds ++ [d],
                  List.rel_append hsizes (.cons (ofSize?_eq_some_iff.1 hsize) .nil), ?_, ?_⟩
                · rw [hdims, List.append_assoc, List.singleton_append]
                · simp only [Option.map_none, Option.getD_none, List.append_nil] at htext
                  simp [htext, hc, bracketed]
          next =>
            obtain ⟨hlast, sizes, ds, hsizes, hdims, htext⟩ := ih h
            refine ⟨hlast, sizes, ds, hsizes, hdims, ?_⟩
            rw [← htext]
            simp

/-- A text that is a base name with dimensions behind it, left to right. -/
def IsDimensioned (text base : List Char) (dims : List Dim) : Prop :=
  ∃ sizes, List.Forall₂ IsSize sizes dims ∧ text = base ++ sizes.flatMap bracketed

theorem isDimensioned_texts (base : List Char) (dims : List Dim) :
    IsDimensioned (base ++ (texts dims).toList) base dims := by
  refine ⟨dims.map Dim.size, List.forall₂_map_left_iff.2 (List.forall₂_same.2 ?_), ?_⟩
  · exact fun d _ => isSize_size d
  · congr 1
    induction dims with
    | nil => rfl
    | cons d dims ih => simp [ih, bracketed]

theorem takeOff_eq_ok_iff :
    takeOff none [] text.reverse = .ok (base, dims) ↔
      base.getLast? ≠ some ']' ∧ IsDimensioned text base dims := by
  constructor
  · intro h
    obtain ⟨hlast, sizes, ds, hsizes, rfl, htext⟩ := exists_of_takeOff h
    rw [List.append_nil]
    exact ⟨hlast, sizes, hsizes, by simpa using htext⟩
  · rintro ⟨hlast, sizes, hsizes, rfl⟩
    rw [takeOff_flatMap_bracketed [] hsizes, List.append_nil, takeOff_base dims hlast]

end Dim

/-! ## Splitting type strings -/

open Dim

variable {type base : String} {dims : List Dim}

theorem splitType_eq_ok_iff :
    splitType type = .ok (base, dims) ↔
      base ≠ "" ∧ base.toList.getLast? ≠ some ']' ∧
        IsDimensioned (trim type.toList) base.toList dims := by
  rw [← takeOff_eq_ok_iff, splitType]
  cases takeOff none [] (trim type.toList).reverse with
  | error flaw => simp
  | ok parts =>
      obtain ⟨cs, ds⟩ := parts
      cases cs with
      | nil =>
          refine ⟨fun h => (by cases h), fun ⟨hbase, h⟩ => absurd ?_ hbase⟩
          exact String.toList_eq_nil_iff.1 (Prod.mk.inj (Except.ok.inj h)).1.symm
      | cons c cs =>
          simp only [List.isEmpty_cons, Bool.false_eq_true, if_false, Except.ok.injEq,
            Prod.mk.injEq]
          constructor
          · rintro ⟨rfl, rfl⟩
            simp
          · rintro ⟨-, hcs, rfl⟩
            exact ⟨by rw [hcs, String.ofList_toList], rfl⟩

/-- What is read out of a type string is read out again when it is written down. -/
theorem splitType_of_splitType (h : splitType type = .ok (base, dims)) :
    splitType (base ++ texts dims) = .ok (base, dims) := by
  obtain ⟨hbase, hlast, sizes, hsizes, htext⟩ := splitType_eq_ok_iff.1 h
  have hne : base.toList ≠ [] := fun hnil => hbase (String.toList_eq_nil_iff.1 hnil)
  have htrim : trim (base.toList ++ (texts dims).toList) = base.toList ++ (texts dims).toList := by
    apply trim_eq_self
    · intro c hc
      refine not_isBlank_of_head?_trim (?_ : (trim type.toList).head? = some c)
      rw [htext, List.head?_append_of_ne_nil _ hne]
      rwa [List.head?_append_of_ne_nil _ hne] at hc
    · intro c hc
      cases dims with
      | nil =>
          cases hsizes
          rw [List.flatMap_nil, List.append_nil] at htext
          rw [toList_texts_nil, List.append_nil, ← htext] at hc
          exact not_isBlank_of_getLast?_trim hc
      | cons d ds =>
          rw [List.getLast?_append, getLast?_texts, Option.some_or] at hc
          rw [← Option.some.inj hc]
          decide
  rw [splitType_eq_ok_iff, String.toList_append, htrim]
  exact ⟨hbase, hlast, isDimensioned_texts base.toList dims⟩

end SolidityBuild.Abi
