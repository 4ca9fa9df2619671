import SolidityBuild.Json.Reader
import SolidityBuild.Proofs.Json.Document

/-!
The limit on nesting: no document that is read has more than 127 arrays and
objects one inside another, since what stands deeper is unreadable.
-/

namespace SolidityBuild.Json

open Document
open Text (Utf8.Item)

variable {fuel depth : Nat}

/-! ## Documents that hold no others -/

theorem nesting_word (d : Document) (ws : List Char) (cs : List Utf8.Item) :
    (word d ws cs).1.nesting ≤ d.nesting := by
  induction ws generalizing cs with
  | nil => exact Nat.le_refl _
  | cons w ws ih =>
      rcases cs with _ | ⟨_ | c, cs⟩
      · exact Nat.zero_le _
      · exact Nat.zero_le _
      · rw [word]
        split
        next => exact ih cs
        next => exact Nat.zero_le _

theorem nesting_floatDocument (negative : Bool) (significand : Nat) (exponent : Int) :
    (floatDocument negative significand exponent).nesting = 0 := by
  unfold floatDocument
  split <;> rfl

theorem nesting_integerDocument (negative : Bool) (significand : Nat) :
    (integerDocument negative significand).nesting = 0 := by
  unfold integerDocument
  split
  · split
    · exact nesting_floatDocument true significand 0
    · rfl
  · rfl

theorem nesting_readScale (negative : Bool) (significand : Nat) (exponent : Int)
    (cs : List Utf8.Item) : (readScale negative significand exponent cs).1.nesting = 0 := by
  unfold readScale
  dsimp only
  repeat' split
  all_goals first
    | rfl
    | exact nesting_floatDocument _ _ _

theorem nesting_readNumber (negative : Bool) (cs : List Utf8.Item) :
    (readNumber negative cs).1.nesting = 0 := by
  unfold readNumber
  dsimp only
  repeat' split
  all_goals first
    | rfl
    | exact nesting_readScale _ _ _ _
    | exact nesting_integerDocument _ _
    | exact nesting_floatDocument _ _ _

/-! ## Arrays and objects -/

/-- What is read in `fuel` steps inside `depth` arrays and objects stays within
the limit. -/
structure KeepsLimit (fuel : Nat) : Prop where
  value : ∀ depth cs, depth ≤ nestingLimit →
    depth + (readValue fuel depth cs).1.nesting ≤ nestingLimit
  items : ∀ depth cs, depth ≤ nestingLimit →
    depth + nestingItems (readItems fuel depth cs).1 ≤ nestingLimit
  fields : ∀ depth cs, depth ≤ nestingLimit →
    depth + nestingFields (readFields fuel depth cs).1 ≤ nestingLimit

/-- Only what stands above the limit is looked into. -/
theorem nesting_nested {read : Document × Rest} (hdepth : depth ≤ nestingLimit)
    (hread : depth < nestingLimit → depth + read.1.nesting ≤ nestingLimit) :
    depth + (nested depth read).1.nesting ≤ nestingLimit := by
  unfold nested
  split
  next h => exact hread h
  next =>
    obtain ⟨d, _ | rest⟩ := read
    · exact hdepth
    · exact hdepth

namespace KeepsLimit

theorem value_succ (ih : KeepsLimit fuel) (depth : Nat) (cs : List Utf8.Item)
    (hdepth : depth ≤ nestingLimit) :
    depth + (readValue (fuel + 1) depth cs).1.nesting ≤ nestingLimit := by
  have hleaf : ∀ {d : Document}, d.nesting = 0 → depth + d.nesting ≤ nestingLimit :=
    fun hd => by rw [hd]; exact hdepth
  have hinside : ∀ n, depth + 1 + n ≤ nestingLimit → depth + (n + 1) ≤ nestingLimit :=
    fun n hn => by omega
  rw [readValue]
  split
  next => exact hleaf (Nat.le_zero.1 (nesting_word _ _ _))
  next => exact hleaf (Nat.le_zero.1 (nesting_word _ _ _))
  next => exact hleaf (Nat.le_zero.1 (nesting_word _ _ _))
  next => split <;> exact hdepth
  next =>
    split
    next => exact nesting_nested hdepth fun h => h
    next =>
      exact nesting_nested hdepth fun h => hinside _ (ih.items (depth + 1) _ h)
  next =>
    split
    next => exact nesting_nested hdepth fun h => h
    next =>
      exact nesting_nested hdepth fun h => hinside _ (ih.fields (depth + 1) _ h)
  next => exact hleaf (nesting_readNumber _ _)
  next => exact hleaf (nesting_readNumber _ _)

theorem items_succ (ih : KeepsLimit fuel) (depth : Nat) (cs : List Utf8.Item)
    (hdepth : depth ≤ nestingLimit) :
    depth + nestingItems (readItems (fuel + 1) depth cs).1 ≤ nestingLimit := by
  have hvalue := ih.value depth cs hdepth
  rw [readItems]
  split
  next d hread =>
    rw [hread] at hvalue
    simpa [nestingItems] using hvalue
  next d cs hread =>
    rw [hread] at hvalue
    split
    next cs _ =>
      have hitems := ih.items depth cs hdepth
      simp only [nestingItems] at hvalue ⊢
      omega
    next => simpa [nestingItems] using hvalue
    next => simpa [nestingItems, nesting] using hvalue

theorem fields_succ (ih : KeepsLimit fuel) (depth : Nat) (cs : List Utf8.Item)
    (hdepth : depth ≤ nestingLimit) :
    depth + nestingFields (readFields (fuel + 1) depth cs).1 ≤ nestingLimit := by
  rw [readFields]
  split
  next =>
    split
    next => exact hdepth
    next =>
      split
      next cs _ =>
        have hvalue := ih.value depth cs hdepth
        split
        next d hread =>
          rw [hread] at hvalue
          simpa [nestingFields] using hvalue
        next d cs hread =>
          rw [hread] at hvalue
          split
          next cs _ =>
            have hfields := ih.fields depth cs hdepth
            simp only [nestingFields] at hvalue ⊢
            omega
          next => simpa [nestingFields] using hvalue
          next => simpa [nestingFields, nesting] using hvalue
      next => exact hdepth
  next => exact hdepth

end KeepsLimit

theorem keepsLimit (fuel : Nat) : KeepsLimit fuel := by
  induction fuel with
  | zero => exact ⟨fun _ _ h => h, fun _ _ h => h, fun _ _ h => h⟩
  | succ fuel ih => exact ⟨ih.value_succ, ih.items_succ, ih.fields_succ⟩

/-- No document that is read is nested beyond the limit. -/
theorem nesting_read (text : String) : (read text).document.nesting ≤ nestingLimit := by
  have hvalue := (keepsLimit (2 * (text.toList.map some).length + 2)).value 0
    (text.toList.map some) (Nat.zero_le _)
  rw [Nat.zero_add] at hvalue
  rw [read, readAll]
  split
  next hread => rwa [hread] at hvalue
  next hread => rwa [hread] at hvalue

end SolidityBuild.Json
