import Mathlib.Tactic.IntervalCases
import SolidityBuild.Text.Utf8

/-!
The bytes of a text. They are those of its characters one after the other, and an
ASCII character is found among them as one byte, which no other character has. Decoding
them gives the characters back, one for the bytes of each.
-/

namespace SolidityBuild.Text.Utf8

variable {text : String} {c d : Char}

theorem toList_loop (bytes : ByteArray) (i : Nat) (seen : List UInt8) :
    ByteArray.toList.loop bytes i seen = seen.reverse ++ bytes.data.toList.drop i := by
  induction i, seen using ByteArray.toList.loop.induct bytes with
  | case1 i seen hlt ih =>
    have hi : i < bytes.data.toList.length := by simpa using hlt
    have hget : bytes.get! i = bytes.data.toList[i] := by
      rw [Array.getElem_toList]
      exact getElem!_pos bytes.data i hlt
    rw [ByteArray.toList.loop, if_pos hlt, ih, hget, List.drop_eq_getElem_cons hi]
    simp
  | case2 i seen hge =>
    have hall : bytes.data.toList.length ≤ i := by simpa using hge
    rw [ByteArray.toList.loop, if_neg hge, List.drop_of_length_le hall, List.append_nil]

theorem toList_eq_data (bytes : ByteArray) : bytes.toList = bytes.data.toList :=
  toList_loop bytes 0 []

theorem encode_eq_flatMap (text : String) :
    encode text = text.toList.flatMap String.utf8EncodeChar := by
  rw [encode, toList_eq_data, String.toUTF8_eq_toByteArray, ← String.utf8Encode_toList,
    List.utf8Encode, List.toList_data_toByteArray]

theorem encode_ofList (cs : List Char) :
    encode (String.ofList cs) = cs.flatMap String.utf8EncodeChar := by
  rw [encode_eq_flatMap, String.toList_ofList]

theorem encode_append (front back : String) :
    encode (front ++ back) = encode front ++ encode back := by
  simp only [encode_eq_flatMap, String.toList_append, List.flatMap_append]

theorem length_encode (text : String) : (encode text).length = text.utf8ByteSize := by
  rw [encode, toList_eq_data, Array.length_toList, String.toUTF8_eq_toByteArray]
  exact String.size_toByteArray

/-! ## ASCII -/

/-- The byte of an ASCII character. -/
def asciiByte (c : Char) : UInt8 := UInt8.ofNat c.toNat

theorem utf8EncodeChar_of_ascii (h : c.toNat < 128) :
    String.utf8EncodeChar c = [asciiByte c] := if_pos (Nat.le_of_lt_succ h)

/-- The bytes of a character beyond ASCII are beyond ASCII, too. -/
theorem le_of_mem_utf8EncodeChar {b : UInt8} (hc : 128 ≤ c.toNat)
    (h : b ∈ String.utf8EncodeChar c) : 128 ≤ b.toNat := by
  have hbyte : ∀ n, 128 ≤ n → n < 256 → 128 ≤ (UInt8.ofNat n).toNat := by
    intro n hlow hhigh
    rw [UInt8.toNat_ofNat', Nat.mod_eq_of_lt hhigh]
    exact hlow
  have hascii : ¬ c.val.toNat ≤ 127 := Nat.not_le_of_lt hc
  rw [String.utf8EncodeChar, if_neg hascii] at h
  split at h
  next =>
    simp only [List.mem_cons, List.not_mem_nil, or_false] at h
    rcases h with rfl | rfl <;> apply hbyte <;> omega
  next =>
    split at h
    next =>
      simp only [List.mem_cons, List.not_mem_nil, or_false] at h
      rcases h with rfl | rfl | rfl <;> apply hbyte <;> omega
    next =>
      simp only [List.mem_cons, List.not_mem_nil, or_false] at h
      rcases h with rfl | rfl | rfl | rfl <;> apply hbyte <;> omega

theorem toNat_asciiByte (h : c.toNat < 128) : (asciiByte c).toNat = c.toNat := by
  rw [asciiByte, UInt8.toNat_ofNat', Nat.mod_eq_of_lt (by omega)]

theorem asciiByte_mem_utf8EncodeChar_iff (hd : d.toNat < 128) :
    asciiByte d ∈ String.utf8EncodeChar c ↔ c = d := by
  constructor
  · intro h
    by_cases hc : c.toNat < 128
    · rw [utf8EncodeChar_of_ascii hc, List.mem_singleton] at h
      apply Char.toNat_inj.1
      rw [← toNat_asciiByte hc, ← h, toNat_asciiByte hd]
    · have hle := le_of_mem_utf8EncodeChar (Nat.le_of_not_lt hc) h
      rw [toNat_asciiByte hd] at hle
      omega
  · rintro rfl
    rw [utf8EncodeChar_of_ascii hd]
    exact List.mem_singleton_self _

/-- An ASCII character stands in a text if and only if its byte stands among the bytes. -/
theorem asciiByte_mem_encode_iff (hd : d.toNat < 128) :
    asciiByte d ∈ encode text ↔ d ∈ text.toList := by
  simp [encode_eq_flatMap, List.mem_flatMap, asciiByte_mem_utf8EncodeChar_iff hd]

/-! ## Decoding -/

variable {low high : UInt8} {n : Nat} {rest : List UInt8}

theorem decodeFrom_start {b : UInt8} {p : Pending} (h : start b = ([], some p)) :
    decodeFrom none (b :: rest) = decodeFrom (some p) rest := by
  rw [decodeFrom, h]
  rfl

/-- The byte that carries the last six bits of a number on. -/
def continuation (n : Nat) : UInt8 := UInt8.ofNat (n % 64 + 128)

theorem toNat_continuation (n : Nat) : (continuation n).toNat = n % 64 + 128 := by
  rw [continuation, UInt8.toNat_ofNat', Nat.mod_eq_of_lt (by omega)]

theorem continuation_fits (n : Nat) : 0x80 ≤ continuation n ∧ continuation n ≤ 0xBF := by
  rw [UInt8.le_iff_toNat_le, UInt8.le_iff_toNat_le, toNat_continuation]
  constructor
  · exact Nat.le_add_left 128 _
  · show n % 64 + 128 ≤ 191
    omega

theorem decodeFrom_last (h : low ≤ continuation n ∧ continuation n ≤ high) :
    decodeFrom (some ⟨1, low, high, n / 64⟩) (continuation n :: rest) =
      some (Char.ofNat n) :: decodeFrom none rest := by
  have hbits : n / 64 * 0x40 + (continuation n).toNat % 0x40 = n := by
    rw [toNat_continuation]
    omega
  rw [decodeFrom, if_pos h]
  simp only [hbits]

theorem decodeFrom_continuation (missing : Nat)
    (h : low ≤ continuation n ∧ continuation n ≤ high) :
    decodeFrom (some ⟨missing + 2, low, high, n / 64⟩) (continuation n :: rest) =
      decodeFrom (some ⟨missing + 1, 0x80, 0xBF, n⟩) rest := by
  have hbits : n / 64 * 0x40 + (continuation n).toNat % 0x40 = n := by
    rw [toNat_continuation]
    omega
  rw [decodeFrom, if_pos h]
  simp only [hbits]

theorem start_two (hlow : 2 ≤ n) (hhigh : n < 32) :
    start (UInt8.ofNat (n % 32 + 192)) = ([], some ⟨1, 0x80, 0xBF, n⟩) := by
  interval_cases n <;> rfl

theorem start_three (h : n < 16) :
    start (UInt8.ofNat (n % 16 + 224)) =
      ([], some ⟨2, if n = 0 then 0xA0 else 0x80, if n = 13 then 0x9F else 0xBF, n⟩) := by
  interval_cases n <;> rfl

theorem start_four (h : n < 5) :
    start (UInt8.ofNat (n % 8 + 240)) =
      ([], some ⟨3, if n = 0 then 0x90 else 0x80, if n = 4 then 0x8F else 0xBF, n⟩) := by
  interval_cases n <;> rfl

/-- The bounds on the second byte of three hold for a number that is no overlong form and
no surrogate. -/
theorem second_of_three_fits (hlow : 32 ≤ n) (hsurrogate : n < 864 ∨ 896 ≤ n) :
    (if n / 64 = 0 then 0xA0 else 0x80) ≤ continuation n ∧
      continuation n ≤ (if n / 64 = 13 then 0x9F else 0xBF) := by
  have hbyte := toNat_continuation n
  constructor <;> rw [UInt8.le_iff_toNat_le, hbyte] <;> split <;>
    simp only [UInt8.reduceToNat] <;> omega

theorem second_of_four_fits (hlow : 16 ≤ n) (hhigh : n < 272) :
    (if n / 64 = 0 then 0x90 else 0x80) ≤ continuation n ∧
      continuation n ≤ (if n / 64 = 4 then 0x8F else 0xBF) := by
  have hbyte := toNat_continuation n
  constructor <;> rw [UInt8.le_iff_toNat_le, hbyte] <;> split <;>
    simp only [UInt8.reduceToNat] <;> omega

theorem decodeFrom_two (rest : List UInt8) (hlow : 128 ≤ n) (hhigh : n < 2048) :
    decodeFrom none (UInt8.ofNat (n / 64 % 32 + 192) :: continuation n :: rest) =
      some (Char.ofNat n) :: decodeFrom none rest := by
  rw [decodeFrom_start (start_two (by omega) (by omega)),
    decodeFrom_last (continuation_fits n)]

theorem decodeFrom_three (rest : List UInt8) (hlow : 2048 ≤ n) (hhigh : n < 65536)
    (hsurrogate : n < 0xD800 ∨ 0xE000 ≤ n) :
    decodeFrom none (UInt8.ofNat (n / 4096 % 16 + 224) :: continuation (n / 64) ::
        continuation n :: rest) =
      some (Char.ofNat n) :: decodeFrom none rest := by
  have hlead : n / 4096 = n / 64 / 64 := by omega
  rw [hlead, decodeFrom_start (start_three (by omega)),
    decodeFrom_continuation 0 (second_of_three_fits (by omega) (by omega)),
    decodeFrom_last (continuation_fits n)]

theorem decodeFrom_four (rest : List UInt8) (hlow : 65536 ≤ n) (hhigh : n < 0x110000) :
    decodeFrom none (UInt8.ofNat (n / 262144 % 8 + 240) :: continuation (n / 4096) ::
        continuation (n / 64) :: continuation n :: rest) =
      some (Char.ofNat n) :: decodeFrom none rest := by
  have hlead : n / 262144 = n / 64 / 64 / 64 := by omega
  have hsecond : n / 4096 = n / 64 / 64 := by omega
  rw [hlead, hsecond, decodeFrom_start (start_four (by omega)),
    decodeFrom_continuation 1 (second_of_four_fits (by omega) (by omega)),
    decodeFrom_continuation 0 (continuation_fits (n / 64)),
    decodeFrom_last (continuation_fits n)]

theorem decodeFrom_ascii (h : c.toNat < 128) :
    decodeFrom none (asciiByte c :: rest) = some c :: decodeFrom none rest := by
  have hlow : asciiByte c < 0x80 := by
    rw [UInt8.lt_iff_toNat_lt, toNat_asciiByte h]
    exact h
  have hstart : start (asciiByte c) = ([some c], none) := by
    rw [start, if_pos hlow, toNat_asciiByte h, Char.ofNat_toNat]
  rw [decodeFrom, hstart]
  rfl

/-- A character is read back from its bytes. -/
theorem decodeFrom_utf8EncodeChar (c : Char) (rest : List UInt8) :
    decodeFrom none (String.utf8EncodeChar c ++ rest) = some c :: decodeFrom none rest := by
  have hback : Char.ofNat c.val.toNat = c := Char.ofNat_toNat c
  have hvalid : c.val.toNat < 0xD800 ∨ 0xDFFF < c.val.toNat ∧ c.val.toNat < 0x110000 := c.valid
  by_cases hascii : c.val.toNat ≤ 127
  · rw [utf8EncodeChar_of_ascii (Nat.lt_succ_of_le hascii), List.singleton_append,
      decodeFrom_ascii (Nat.lt_succ_of_le hascii)]
  rw [String.utf8EncodeChar, if_neg hascii]
  by_cases htwo : c.val.toNat ≤ 2047
  · have hread := decodeFrom_two (n := c.val.toNat) rest (by omega) (by omega)
    rw [hback] at hread
    rw [if_pos htwo]
    exact hread
  rw [if_neg htwo]
  by_cases hthree : c.val.toNat ≤ 65535
  · have hread := decodeFrom_three (n := c.val.toNat) rest (by omega) (by omega)
      (by omega)
    rw [hback] at hread
    rw [if_pos hthree]
    exact hread
  · have hread := decodeFrom_four (n := c.val.toNat) rest (by omega) (by omega)
    rw [hback] at hread
    rw [if_neg hthree]
    exact hread

theorem items_flatMap_utf8EncodeChar (cs : List Char) :
    items (cs.flatMap String.utf8EncodeChar) = cs.map some := by
  induction cs with
  | nil => rfl
  | cons c cs ih =>
      rw [List.flatMap_cons, items, decodeFrom_utf8EncodeChar, List.map_cons, ← ih, items]

theorem decodeLossy_encode (text : String) : decodeLossy (encode text) = text.toList := by
  rw [decodeLossy, encode_eq_flatMap, items_flatMap_utf8EncodeChar, List.map_map]
  exact List.map_id _

end SolidityBuild.Text.Utf8
