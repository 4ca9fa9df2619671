import SolidityBuild.Json.Printer
import SolidityBuild.Json.Reader
import SolidityBuild.Proofs.Text.Decimal

/-!
Blanks, texts and numbers are read as they are written. Each law takes any text
behind the token, as long as it does not go on with the token.
-/

namespace SolidityBuild.Json

open Text.Decimal
open Text (Utf8.Item)

/-! ## Blanks -/

section Blanks

variable {bs : List Char} {c : Char} {cs : List Utf8.Item}

/-- Whether only blanks occur. -/
def Blank (bs : List Char) : Prop := ∀ c ∈ bs, isJsonBlank c = true

theorem skipBlanks_cons (h : isJsonBlank c = false) :
    skipBlanks (some c :: cs) = some c :: cs := by
  rw [skipBlanks, if_neg (by simp [h])]

theorem skipBlanks_append (h : Blank bs) (cs : List Utf8.Item) :
    skipBlanks (bs.map some ++ cs) = skipBlanks cs := by
  induction bs with
  | nil => rfl
  | cons b bs ih =>
      have hb : isJsonBlank b = true := h b List.mem_cons_self
      rw [List.map_cons, List.cons_append, skipBlanks, if_pos hb,
        ih fun c hc => h c (List.mem_cons_of_mem b hc)]

theorem skipBlanks_skipBlanks (cs : List Utf8.Item) :
    skipBlanks (skipBlanks cs) = skipBlanks cs := by
  induction cs with
  | nil => rfl
  | cons item cs ih =>
      cases item with
      | none => rfl
      | some c =>
          cases hc : isJsonBlank c with
          | true => rwa [skipBlanks, if_pos hc]
          | false => rw [skipBlanks_cons hc, skipBlanks_cons hc]

theorem isJsonBlank_of_isDigit (h : c.isDigit = true) : isJsonBlank c = false := by
  rw [Bool.eq_false_iff]
  intro hblank
  simp only [isJsonBlank, Bool.or_eq_true, decide_eq_true_eq] at hblank
  rcases hblank with ((rfl | rfl) | rfl) | rfl <;> exact absurd h (by decide)

end Blanks

/-! ## Texts -/

section Texts

variable {c : Char} {acc : List Char}

theorem hexValue?_hexDigit {n : Nat} (h : n < 16) : hexValue? (hexDigit n) = some n := by
  have hall : ∀ n < 16, hexValue? (hexDigit n) = some n := by decide
  exact hall n h

/-- A character that is written as a number is read as that character. -/
theorem readText_unit (h : c.toNat < 0x20) (acc : List Char) (cs : List Utf8.Item) :
    readText (some acc) none (some '\\' :: some 'u' :: some '0' :: some '0' ::
        some (hexDigit (c.toNat / 16)) :: some (hexDigit (c.toNat % 16)) :: cs) =
      readText (some (c :: acc)) none cs := by
  have hzero : hexValue? '0' = some 0 := by decide
  have hunit : fourHex? '0' '0' (hexDigit (c.toNat / 16)) (hexDigit (c.toNat % 16)) =
      some c.toNat := by
    simp only [fourHex?, hzero, hexValue?_hexDigit (show c.toNat / 16 < 16 by omega),
      hexValue?_hexDigit (show c.toNat % 16 < 16 by omega), Option.bind_eq_bind, Option.bind_some,
      Option.pure_def, Option.some.injEq]
    omega
  have hpush : Spelled.pushUnit (some acc) none c.toNat = (some (c :: acc), none) := by
    rw [Spelled.pushUnit, if_neg (by omega), if_neg (by omega), Char.ofNat_toNat]
    rfl
  rw [readText, hunit]
  simp only [hpush]

theorem readText_plain (hquote : c ≠ '"') (hslash : c ≠ '\\') (h : 0x20 ≤ c.toNat)
    (acc : List Char) (cs : List Utf8.Item) :
    readText (some acc) none (some c :: cs) = readText (some (c :: acc)) none cs := by
  rw [readText, if_neg (by simp only [hslash, or_false]; omega)]
  · rfl
  -- The other patterns begin with a quotation mark or a backslash.
  · exact hquote
  · intros; simp_all
  · intros; simp_all

theorem readText_escape (c : Char) (acc : List Char) (cs : List Utf8.Item) :
    readText (some acc) none ((escape c).map some ++ cs) =
      readText (some (c :: acc)) none cs := by
  unfold escape
  split
  next h => subst h; rfl
  split
  next h => subst h; rfl
  split
  next hquote hslash h => exact readText_plain hquote hslash h acc cs
  split
  next h => subst h; rfl
  split
  next h => subst h; rfl
  split
  next h => subst h; rfl
  split
  next h =>
    obtain rfl : c = Char.ofNat 8 := by rw [← h, Char.ofNat_toNat]
    rfl
  split
  next h =>
    obtain rfl : c = Char.ofNat 12 := by rw [← h, Char.ofNat_toNat]
    rfl
  next hlow _ _ _ _ _ => exact readText_unit (by omega) acc cs

theorem readText_flatMap_escape (text acc : List Char) (cs : List Utf8.Item) :
    readText (some acc) none ((text.flatMap escape).map some ++ cs) =
      readText (some (text.reverse ++ acc)) none cs := by
  induction text generalizing acc with
  | nil => rfl
  | cons c text ih =>
      rw [List.flatMap_cons, List.map_append, List.append_assoc, readText_escape, ih,
        List.reverse_cons, List.append_assoc, List.singleton_append]

theorem toList_quote (s : String) :
    (quote s).toList = '"' :: (s.toList.flatMap escape ++ ['"']) := by
  simp [quote]

/-- What stands behind the first quotation mark of a text is read as the text. -/
theorem readText_quote (s : String) (cs : List Utf8.Item) :
    readText (some []) none ((s.toList.flatMap escape ++ ['"']).map some ++ cs) =
      (some s, some cs) := by
  rw [List.map_append, List.append_assoc, readText_flatMap_escape, List.append_nil]
  simp [readText]

end Texts

/-! ## Numbers -/

section Numbers

variable {digits : List Char} {rest : List Utf8.Item}

/-- Whether a text can stand behind a number without going on with it. -/
def EndsNumber (rest : List Utf8.Item) : Prop :=
  ∀ c, rest.head? = some (some c) → c.isDigit = false ∧ c ≠ '.' ∧ c ≠ 'e' ∧ c ≠ 'E'

theorem le_ofDigitChars (cs : List Char) (n : Nat) : n ≤ Nat.ofDigitChars 10 cs n := by
  induction cs generalizing n with
  | nil => exact Nat.le_refl n
  | cons c cs ih =>
      rw [Nat.ofDigitChars_cons]
      exact Nat.le_trans (by omega) (ih _)

theorem readDigits_of_endsNumber (hrest : EndsNumber rest) (significand taken : Nat) :
    readDigits significand taken 0 rest = ⟨significand, taken, 0, rest⟩ := by
  cases rest with
  | nil => rfl
  | cons item rest =>
      cases item with
      | none => rfl
      | some c => rw [readDigits, if_neg (by simp [(hrest c rfl).1])]

/-- Digits are taken in as long as their number is held as an integer. -/
theorem readDigits_append (hdigits : ∀ c ∈ digits, c.isDigit = true) (hrest : EndsNumber rest)
    {significand : Nat} (hle : Nat.ofDigitChars 10 digits significand ≤ largestInteger)
    (taken : Nat) :
    readDigits significand taken 0 (digits.map some ++ rest) =
      ⟨Nat.ofDigitChars 10 digits significand, taken + digits.length, 0, rest⟩ := by
  induction digits generalizing significand taken with
  | nil => exact readDigits_of_endsNumber hrest significand taken
  | cons c digits ih =>
      have hc : c.isDigit = true := hdigits c List.mem_cons_self
      have hnext : Nat.ofDigitChars 10 (c :: digits) significand =
          Nat.ofDigitChars 10 digits (significand * 10 + (c.toNat - '0'.toNat)) := by
        rw [Nat.ofDigitChars_cons, Nat.mul_comm]
      rw [hnext] at hle
      have hfits := Nat.le_trans (le_ofDigitChars _ _) hle
      rw [List.map_cons, List.cons_append, readDigits, if_pos hc]
      simp only [true_and, if_pos hfits]
      rw [ih (fun d hd => hdigits d (List.mem_cons_of_mem c hd)) hle, hnext, List.length_cons]
      congr 1
      omega

/-- The digits of a number are read as the number. -/
theorem readNumber_print {n : Nat} (hn : n ≤ largestInteger) (hrest : EndsNumber rest)
    (negative : Bool) :
    readNumber negative ((print n).toList.map some ++ rest) =
      (integerDocument negative n, some rest) := by
  have hread : readDigits 0 0 0 ((print n).toList.map some ++ rest) =
      ⟨n, (print n).toList.length, 0, rest⟩ := by
    have hvalue : Nat.ofDigitChars 10 (print n).toList 0 = n := by
      rw [toList_print, Nat.ofDigitChars_ten_toDigits]
    have hall := readDigits_append (fun c hc => isDigit_of_mem_print hc) hrest
      (hvalue.symm ▸ hn) 0
    rwa [hvalue, Nat.zero_add] at hall
  obtain ⟨first, others, hcons, hfirst⟩ := exists_print_eq_cons n
  have hbegins : beginsWithDigit ((print n).toList.map some ++ rest) = true := by
    rw [hcons]
    exact hfirst
  have hzero : ¬ (((print n).toList.map some ++ rest).head? = some (some '0') ∧
      1 < (print n).toList.length + 0) := by
    rintro ⟨hhead, hlength⟩
    have hn : n = 0 := by
      apply eq_zero_of_head?_print
      rw [hcons] at hhead ⊢
      exact congrArg some (Option.some.inj (Option.some.inj hhead))
    rw [hn, print_zero] at hlength
    exact absurd hlength (by decide)
  rw [readNumber, if_neg (by simp [hbegins])]
  simp only [hread, if_neg hzero]
  -- What follows is none of the characters that would make a fraction of it.
  split
  next cs => exact absurd rfl (hrest '.' rfl).2.1
  next cs => exact absurd rfl (hrest 'e' rfl).2.2.1
  next cs => exact absurd rfl (hrest 'E' rfl).2.2.2
  next => rfl

theorem toList_toString (n : Int) :
    (toString n).toList =
      if 0 ≤ n then (print n.toNat).toList else '-' :: (print (-n).toNat).toList := by
  rw [Int.toString_eq_repr, Int.repr_eq_if, print, print, Nat.toString_eq_repr,
    Nat.toString_eq_repr]
  split
  next => rfl
  next => rw [String.toList_append]; rfl

end Numbers

end SolidityBuild.Json
