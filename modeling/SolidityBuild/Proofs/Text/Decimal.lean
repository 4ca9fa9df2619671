import SolidityBuild.Text.Decimal

/-!
Numbers and their digits. What is read as a number is digits, with or without a plus
sign in front, of a number within the limit. A number is read back from the digits it
is printed with, so that different numbers have different ones; and every other way to
write it only has a plus sign or zeros in front of them.
-/

namespace SolidityBuild.Text.Decimal

theorem toList_print (n : Nat) : (print n).toList = Nat.toDigits 10 n := by
  rw [print, Nat.toString_eq_repr, Nat.toList_repr]

theorem print_injective {n k : Nat} (h : print n = print k) : n = k := by
  have hdigits : Nat.toDigits 10 n = Nat.toDigits 10 k := by
    rw [← toList_print, ← toList_print, h]
  calc
    n = Nat.ofDigitChars 10 (Nat.toDigits 10 n) 0 := Nat.ofDigitChars_ten_toDigits.symm
    _ = Nat.ofDigitChars 10 (Nat.toDigits 10 k) 0 := by rw [hdigits]
    _ = k := Nat.ofDigitChars_ten_toDigits

theorem print_ne_nil (n : Nat) : (print n).toList ≠ [] := by
  rw [toList_print]
  exact Nat.toDigits_ne_nil

theorem isDigit_of_mem_print {n : Nat} {c : Char} (h : c ∈ (print n).toList) :
    c.isDigit = true := by
  rw [toList_print] at h
  exact Nat.isDigit_of_mem_toDigits (by decide) (by decide) h

theorem exists_print_eq_cons (n : Nat) :
    ∃ c cs, (print n).toList = c :: cs ∧ c.isDigit = true := by
  obtain ⟨c, cs, hcons⟩ := List.exists_cons_of_ne_nil (print_ne_nil n)
  exact ⟨c, cs, hcons, isDigit_of_mem_print (n := n) (hcons ▸ List.mem_cons_self)⟩

theorem print_zero : (print 0).toList = ['0'] := by
  rw [toList_print, Nat.toDigits_zero]

/-- Only the number zero begins with the digit zero. -/
theorem eq_zero_of_head?_print {n : Nat} (h : (print n).toList.head? = some '0') : n = 0 := by
  rw [toList_print] at h
  induction n using Nat.strongRecOn with
  | ind n ih =>
    by_cases hn : n < 10
    · have hsmall : ∀ k < 10, Nat.digitChar k = '0' → k = 0 := by decide
      rw [Nat.toDigits_of_lt_base hn] at h
      exact hsmall n hn (Option.some.inj h)
    · obtain ⟨c, front, hfront⟩ := List.exists_cons_of_ne_nil (Nat.toDigits_ne_nil (b := 10)
        (n := n / 10))
      rw [Nat.toDigits_of_base_le (by decide) (by omega), hfront] at h
      have hdiv := ih (n / 10) (by omega) (by rw [hfront]; exact h)
      omega

theorem readDigits?_eq {cs : List Char} (h : ∀ c ∈ cs, c.isDigit = true) (soFar : Nat) :
    readDigits? soFar cs = some (Nat.ofDigitChars 10 cs soFar) := by
  induction cs generalizing soFar with
  | nil => rfl
  | cons c cs ih =>
    have hc := h c List.mem_cons_self
    rw [readDigits?, digit?, if_pos hc, Option.bind_some,
      ih fun d hd => h d (List.mem_cons_of_mem c hd), Nat.ofDigitChars_cons, Nat.mul_comm]

/-- One or more digits of a number, with or without a plus sign in front. -/
def Denotes (cs : List Char) (n : Nat) : Prop :=
  ∃ digits, digits ≠ [] ∧ (∀ c ∈ digits, c.isDigit = true) ∧
    (cs = digits ∨ cs = '+' :: digits) ∧ Nat.ofDigitChars 10 digits 0 = n

theorem denotes_print (n : Nat) : Denotes (print n).toList n := by
  refine ⟨_, print_ne_nil n, fun c hc => isDigit_of_mem_print hc, .inl rfl, ?_⟩
  rw [toList_print, Nat.ofDigitChars_ten_toDigits]

theorem Denotes.ne_nil {cs : List Char} {n : Nat} (h : Denotes cs n) : cs ≠ [] := by
  obtain ⟨digits, hne, -, rfl | rfl, -⟩ := h
  · exact hne
  · exact List.cons_ne_nil _ _

theorem isDigit_of_readDigits? {cs : List Char} {soFar n : Nat}
    (h : readDigits? soFar cs = some n) : ∀ c ∈ cs, c.isDigit = true := by
  induction cs generalizing soFar with
  | nil => simp
  | cons c cs ih =>
    obtain ⟨d, hdigit, hrest⟩ := Option.bind_eq_some_iff.1 h
    have hc : c.isDigit = true := by
      rw [digit?] at hdigit
      split at hdigit
      next hc => exact hc
      next => cases hdigit
    exact List.forall_mem_cons.2 ⟨hc, ih hrest⟩

theorem readNat?_eq_some_iff {cs : List Char} {n : Nat} :
    readNat? cs = some n ↔
      cs ≠ [] ∧ (∀ c ∈ cs, c.isDigit = true) ∧ Nat.ofDigitChars 10 cs 0 = n := by
  cases cs with
  | nil => simp [readNat?]
  | cons c cs =>
    rw [readNat?]
    constructor
    · intro h
      have hdigits := isDigit_of_readDigits? h
      rw [readDigits?_eq hdigits, Option.some.injEq] at h
      exact ⟨List.cons_ne_nil c cs, hdigits, h⟩
    · rintro ⟨-, hdigits, hvalue⟩
      rw [readDigits?_eq hdigits, hvalue]

/-- A number is read if and only if its digits are there and it is within the limit. -/
theorem read?_eq_some_iff {limit n : Nat} {cs : List Char} :
    read? limit cs = some n ↔ Denotes cs n ∧ n ≤ limit := by
  have hsign : ∀ digits, (∀ c ∈ '+' :: digits, c.isDigit = true) → False := by
    intro digits h
    exact absurd (h '+' List.mem_cons_self) (by decide)
  unfold read?
  rw [Option.filter_eq_some_iff, decide_eq_true_eq, readNat?_eq_some_iff]
  refine and_congr_left fun _ => ?_
  split
  next rest =>
    constructor
    · rintro ⟨hne, hdigits, hvalue⟩
      exact ⟨rest, hne, hdigits, .inr rfl, hvalue⟩
    · rintro ⟨digits, hne, hdigits, hcs | hcs, hvalue⟩
      · exact (hsign rest (hcs ▸ hdigits)).elim
      · obtain rfl := (List.cons.inj hcs).2
        exact ⟨hne, hdigits, hvalue⟩
  next hplus =>
    constructor
    · rintro ⟨hne, hdigits, hvalue⟩
      exact ⟨cs, hne, hdigits, .inl rfl, hvalue⟩
    · rintro ⟨digits, hne, hdigits, rfl | hcs, hvalue⟩
      · exact ⟨hne, hdigits, hvalue⟩
      · exact (hplus digits hcs).elim

/-- Where each number stands for one thing at most, a thing is read if and only if its
number is. -/
theorem read?_bind_eq_some_iff {α : Type} {limit : Nat} {cs : List Char} {of? : Nat → Option α}
    {a : α} (number : α → Nat) (hof : ∀ n, of? n = some a ↔ n = number a)
    (hlimit : number a ≤ limit) :
    (read? limit cs).bind of? = some a ↔ Denotes cs (number a) := by
  rw [Option.bind_eq_some_iff]
  constructor
  · rintro ⟨n, hread, hn⟩
    obtain rfl := (hof n).1 hn
    exact (read?_eq_some_iff.1 hread).1
  · intro hdenotes
    exact ⟨number a, read?_eq_some_iff.2 ⟨hdenotes, hlimit⟩, (hof _).2 rfl⟩

/-! ## Spellings of a number -/

theorem exists_digitChar {c : Char} (h : c.isDigit = true) : ∃ d < 10, Nat.digitChar d = c := by
  have hrange : 48 ≤ c.toNat ∧ c.toNat ≤ 57 := by
    simpa [Char.isDigit, UInt32.le_iff_toNat_le] using h
  refine ⟨c.toNat - 48, by omega, ?_⟩
  apply Char.toNat_inj.1
  rw [Nat.toNat_digitChar_of_lt_ten (by omega)]
  omega

/-- Digits behind those of a positive number are its digits read on. -/
theorem toDigits_append {cs : List Char} (h : ∀ c ∈ cs, c.isDigit = true) {n : Nat} (hn : 0 < n) :
    Nat.toDigits 10 n ++ cs = Nat.toDigits 10 (Nat.ofDigitChars 10 cs n) := by
  induction cs generalizing n with
  | nil => rw [Nat.ofDigitChars_nil, List.append_nil]
  | cons c cs ih =>
    obtain ⟨hc, hcs⟩ := List.forall_mem_cons.1 h
    obtain ⟨d, hd, rfl⟩ := exists_digitChar hc
    calc
      Nat.toDigits 10 n ++ Nat.digitChar d :: cs
        = (Nat.toDigits 10 n ++ Nat.toDigits 10 d) ++ cs := by
          rw [Nat.toDigits_of_lt_base hd, List.append_assoc, List.singleton_append]
      _ = Nat.toDigits 10 (10 * n + d) ++ cs := by
          rw [Nat.toDigits_append_toDigits (by decide) hn hd]
      _ = Nat.toDigits 10 (Nat.ofDigitChars 10 (Nat.digitChar d :: cs) n) := by
          rw [ih hcs (by omega), Nat.ofDigitChars_cons_digitChar_of_lt_ten hd]

/-- Digits are those that their number is printed with, behind zeros. -/
theorem exists_zeros {digits : List Char} (hne : digits ≠ [])
    (h : ∀ c ∈ digits, c.isDigit = true) :
    ∃ zeros, digits =
      List.replicate zeros '0' ++ (print (Nat.ofDigitChars 10 digits 0)).toList := by
  induction digits with
  | nil => exact (hne rfl).elim
  | cons c cs ih =>
    obtain ⟨hc, hcs⟩ := List.forall_mem_cons.1 h
    obtain ⟨d, hd, rfl⟩ := exists_digitChar hc
    rw [Nat.ofDigitChars_cons_digitChar_of_lt_ten hd, Nat.mul_zero, Nat.zero_add]
    rcases Nat.eq_zero_or_pos d with rfl | hpos
    · -- a last zero is the number, every other one stands in front of it
      by_cases hlast : cs = []
      · subst hlast
        exact ⟨0, print_zero.symm⟩
      · obtain ⟨zeros, hzeros⟩ := ih hlast hcs
        exact ⟨zeros + 1, congrArg (List.cons '0') hzeros⟩
    · refine ⟨0, ?_⟩
      rw [toList_print, ← toDigits_append hcs hpos, Nat.toDigits_of_lt_base hd]
      rfl

/-- What may stand in front of a number: a plus sign, and zeros behind it. -/
def padding (plus : Bool) (zeros : Nat) : List Char :=
  (if plus then ['+'] else []) ++ List.replicate zeros '0'

theorem ofDigitChars_zeros (zeros : Nat) (cs : List Char) :
    Nat.ofDigitChars 10 (List.replicate zeros '0' ++ cs) 0 = Nat.ofDigitChars 10 cs 0 := by
  induction zeros with
  | zero => rfl
  | succ zeros ih =>
    rw [List.replicate_succ, List.cons_append, Nat.ofDigitChars_cons]
    exact ih

/-- A number is written with the digits it is printed with, and with nothing but a plus
sign and zeros in front of them. -/
theorem denotes_iff {cs : List Char} {n : Nat} :
    Denotes cs n ↔ ∃ plus zeros, cs = padding plus zeros ++ (print n).toList := by
  constructor
  · rintro ⟨digits, hne, hdigits, hcs, rfl⟩
    obtain ⟨zeros, hzeros⟩ := exists_zeros hne hdigits
    rcases hcs with rfl | rfl
    · exact ⟨false, zeros, hzeros⟩
    · exact ⟨true, zeros, congrArg (List.cons '+') hzeros⟩
  · rintro ⟨plus, zeros, rfl⟩
    refine ⟨List.replicate zeros '0' ++ (print n).toList, ?_, ?_, ?_, ?_⟩
    · exact List.append_ne_nil_of_right_ne_nil _ (print_ne_nil n)
    · intro c hc
      rcases List.mem_append.1 hc with hzero | hdigit
      · rw [List.eq_of_mem_replicate hzero]
        rfl
      · exact isDigit_of_mem_print hdigit
    · cases plus with
      | false => exact .inl rfl
      | true => exact .inr rfl
    · rw [ofDigitChars_zeros, toList_print, Nat.ofDigitChars_ten_toDigits]

end SolidityBuild.Text.Decimal
