import SolidityBuild.Proofs.Text.Utf8
import SolidityBuild.Text.Blank
import SolidityBuild.TypeScript.Bytecode

/-!
Bytecode is not damaged by being cut into segments. Where no character is cut in two,
each segment decodes to a part of the text, the parts make up the whole text, and all
but the last fill their segment. What stands in the client is read back as these parts:
a reader of sums of string literals goes over it and finds nothing else.
-/

namespace SolidityBuild.TypeScript.Bytecode

open Text

variable {text front back : String} {offset : Nat}

/-! ## Cutting a text at an offset -/

/-- A character of the text stands across an offset among its bytes. -/
def Straddles (offset : Nat) (text : String) : Prop :=
  ∃ front c back, text = front ++ (String.singleton c ++ back) ∧
    front.utf8ByteSize < offset ∧ offset < front.utf8ByteSize + c.utf8Size

theorem Straddles.append_left (front : String) (h : Straddles offset back) :
    Straddles (front.utf8ByteSize + offset) (front ++ back) := by
  obtain ⟨ahead, c, behind, rfl, hbegin, hend⟩ := h
  refine ⟨front ++ ahead, c, behind, by rw [String.append_assoc], ?_, ?_⟩
  all_goals
    rw [String.utf8ByteSize_append]
    omega

/-- A text is cut in two at each offset that no character stands across. -/
theorem straddles_or_exists_cut (cs : List Char) :
    ∀ {offset}, offset ≤ (String.ofList cs).utf8ByteSize →
      Straddles offset (String.ofList cs) ∨
        ∃ front back, String.ofList cs = front ++ back ∧ front.utf8ByteSize = offset := by
  induction cs with
  | nil =>
      intro offset h
      have hzero : offset = 0 := Nat.le_zero.1 h
      exact .inr ⟨"", "", rfl, hzero.symm⟩
  | cons c cs ih =>
      intro offset h
      have hcons : String.ofList (c :: cs) = String.singleton c ++ String.ofList cs := by
        rw [String.singleton_eq_ofList, ← String.ofList_append]
        rfl
      rw [hcons, String.utf8ByteSize_append, String.utf8ByteSize_singleton] at h
      rw [hcons]
      by_cases hzero : offset = 0
      · exact .inr ⟨"", _, String.empty_append.symm, hzero.symm⟩
      by_cases hinside : offset < c.utf8Size
      · refine .inl ⟨"", c, String.ofList cs, String.empty_append.symm, ?_, ?_⟩
        · exact Nat.pos_of_ne_zero hzero
        · exact (Nat.zero_add _).symm ▸ hinside
      -- the offset lies behind the first character
      have hoffset : (String.singleton c).utf8ByteSize + (offset - c.utf8Size) = offset := by
        rw [String.utf8ByteSize_singleton]
        omega
      have hrest : offset - c.utf8Size ≤ (String.ofList cs).utf8ByteSize := by omega
      rcases ih hrest with hstraddles | ⟨front, back, hcut, hsize⟩
      · left
        rw [← hoffset]
        exact hstraddles.append_left _
      · refine .inr ⟨String.singleton c ++ front, back, ?_, ?_⟩
        · rw [hcut, String.append_assoc]
        · rw [String.utf8ByteSize_append, hsize, hoffset]

/-- No character is cut in two between segments. -/
def Aligned (text : String) : Prop := ∀ count, ¬ Straddles (segmentLength * count) text

theorem Aligned.of_append (hsize : front.utf8ByteSize = segmentLength)
    (h : Aligned (front ++ back)) : Aligned back := by
  intro count hstraddles
  apply h (count + 1)
  have hoffset : segmentLength * (count + 1) = front.utf8ByteSize + segmentLength * count := by
    rw [hsize, Nat.mul_add, Nat.mul_one, Nat.add_comm]
  rw [hoffset]
  exact hstraddles.append_left front

theorem Aligned.exists_cut (h : Aligned text) (hlong : segmentLength ≤ text.utf8ByteSize) :
    ∃ front back, text = front ++ back ∧ front.utf8ByteSize = segmentLength := by
  have hlist : String.ofList text.toList = text := String.ofList_toList
  have hcut := straddles_or_exists_cut text.toList (hlist.symm ▸ hlong)
  rw [hlist] at hcut
  refine hcut.resolve_left fun hstraddles => h 1 ?_
  rwa [Nat.mul_one]

/-- Characters of one byte are never cut. -/
theorem aligned_of_ascii (h : ∀ c ∈ text.toList, c.toNat < 128) : Aligned text := by
  rintro count ⟨front, c, back, rfl, hbegin, hend⟩
  have hone : c.utf8Size = 1 := by
    apply Char.utf8Size_eq_one_iff.2
    have hc := h c (by simp)
    rw [UInt32.le_iff_toNat_le]
    exact Nat.le_of_lt_succ hc
  omega

/-! ## Segments -/

/-- The parts of a text, each of which fills a segment, up to the last, in which
something stands. -/
def FillSegments (parts : List String) : Prop :=
  ∃ front last, parts = front ++ [last] ∧
    (∀ part ∈ front, part.utf8ByteSize = segmentLength) ∧
    1 ≤ last.utf8ByteSize ∧ last.utf8ByteSize ≤ segmentLength

theorem FillSegments.cons {part : String} {parts : List String} (h : FillSegments parts)
    (hpart : part.utf8ByteSize = segmentLength) : FillSegments (part :: parts) := by
  obtain ⟨front, last, rfl, hfront, hlast⟩ := h
  refine ⟨part :: front, last, rfl, ?_, hlast⟩
  intro p hp
  rcases List.mem_cons.1 hp with rfl | hp
  · exact hpart
  · exact hfront p hp

/-- The segments of a text in which no character is cut are the bytes of parts that fill
them. The induction takes off one segment after the other. -/
theorem exists_parts {bytes : List UInt8} (hbytes : Utf8.encode text = bytes)
    (hne : bytes ≠ []) (h : Aligned text) :
    ∃ parts, segments bytes = parts.map Utf8.encode ∧ String.join parts = text ∧
      FillSegments parts := by
  induction bytes using segments.induct generalizing text with
  | case1 => exact absurd rfl hne
  | case2 b bs ih =>
      rw [segments]
      have hsize : text.utf8ByteSize = bs.length + 1 := by
        rw [← Utf8.length_encode, hbytes, List.length_cons]
      by_cases hshort : text.utf8ByteSize ≤ segmentLength
      · have hlen : (b :: bs).length ≤ segmentLength := by
          rwa [List.length_cons, ← hsize]
        refine ⟨[text], ?_, by simp, [], text, rfl, by simp, by omega, hshort⟩
        rw [List.take_of_length_le hlen, List.drop_of_length_le hlen, segments, List.map_singleton,
          hbytes]
      · obtain ⟨front, back, rfl, hfront⟩ := h.exists_cut (by omega)
        have hlen : (Utf8.encode front).length = segmentLength := by
          rwa [Utf8.length_encode]
        rw [Utf8.encode_append] at hbytes
        rw [← hbytes, List.take_left' hlen, List.drop_left' hlen]
        rw [← hbytes, List.drop_left' hlen] at ih
        have hback : Utf8.encode back ≠ [] := by
          intro hnil
          rw [String.utf8ByteSize_append, ← Utf8.length_encode back, hnil] at hshort
          exact hshort (Nat.le_of_eq hfront)
        obtain ⟨parts, hparts, hjoin, hfill⟩ := ih rfl hback (h.of_append hfront)
        refine ⟨front :: parts, ?_, ?_, hfill.cons hfront⟩
        · rw [hparts, List.map_cons]
        · rw [String.join_cons, hjoin]

/-! ## Reading a sum of literals -/

/-- A character that stands for itself in a string literal. -/
def IsPlain (c : Char) : Prop := c ≠ '"' ∧ c ≠ '\\' ∧ c ≠ '\n'

/-- Where the reader of a sum is. -/
inductive Place
  /-- A literal has to come. -/
  | ahead
  /-- In a literal, with the characters seen in it from the last to the first. -/
  | inside (seen : List Char)
  /-- A plus sign or the end has to come. -/
  | behind

/-- Read on in a sum of string literals in double quotation marks, with blanks around
the plus signs. The result is what stands in the literals, or `none` if this is no sum of
literals without escapes. -/
def readSum? : Place → List Char → Option (List String)
  | .behind, [] => some []
  | _, [] => none
  | .ahead, c :: cs =>
    if c = '"' then readSum? (.inside []) cs
    else if isBlank c then readSum? .ahead cs
    else none
  | .inside seen, c :: cs =>
    if c = '"' then (String.ofList seen.reverse :: ·) <$> readSum? .behind cs
    else if c = '\\' ∨ c = '\n' then none
    else readSum? (.inside (c :: seen)) cs
  | .behind, c :: cs =>
    if c = '+' then readSum? .ahead cs
    else if isBlank c then readSum? .behind cs
    else none

/-- What stands in the string literals of which a text is the sum. -/
def literals? (text : String) : Option (List String) := readSum? .ahead text.toList

/-- A text in quotation marks. -/
def quoted (part : String) : String := "\"" ++ part ++ "\""

theorem readSum?_inside {cs : List Char} (h : ∀ c ∈ cs, IsPlain c) (seen rest : List Char) :
    readSum? (.inside seen) (cs ++ '"' :: rest) =
      (String.ofList (seen.reverse ++ cs) :: ·) <$> readSum? .behind rest := by
  induction cs generalizing seen with
  | nil => rw [List.nil_append, readSum?, if_pos rfl, List.append_nil]
  | cons c cs ih =>
      obtain ⟨hquote, hbackslash, hbreak⟩ := h c List.mem_cons_self
      rw [List.cons_append, readSum?, if_neg hquote, if_neg (not_or.2 ⟨hbackslash, hbreak⟩),
        ih fun d hd => h d (List.mem_cons_of_mem c hd)]
      rw [List.reverse_cons, List.append_assoc, List.singleton_append]

theorem readSum?_quoted {part : String} (h : ∀ c ∈ part.toList, IsPlain c)
    (rest : List Char) :
    readSum? .ahead ((quoted part).toList ++ rest) =
      (part :: ·) <$> readSum? .behind rest := by
  have htext : (quoted part).toList ++ rest = '"' :: (part.toList ++ '"' :: rest) := by
    simp [quoted]
  rw [htext, readSum?, if_pos rfl, readSum?_inside h, List.reverse_nil, List.nil_append,
    String.ofList_toList]

/-- The sum of the quoted parts is read as these parts. -/
theorem literals?_intercalate {parts : List String} (hne : parts ≠ [])
    (h : ∀ part ∈ parts, ∀ c ∈ part.toList, IsPlain c) :
    literals? (String.intercalate "+\n    " (parts.map quoted)) = some parts := by
  rw [literals?]
  induction parts with
  | nil => exact absurd rfl hne
  | cons part parts ih =>
      have hpart := h part List.mem_cons_self
      cases parts with
      | nil =>
          have hread := readSum?_quoted hpart []
          rw [List.append_nil] at hread
          rw [List.map_singleton, String.intercalate_singleton, hread]
          rfl
      | cons next parts =>
          have hrest := ih (List.cons_ne_nil _ _) fun p hp => h p (List.mem_cons_of_mem _ hp)
          rw [List.map_cons, List.map_cons, String.intercalate_cons_cons, String.toList_append,
            String.toList_append, List.append_assoc, readSum?_quoted hpart, ← List.map_cons]
          -- a plus sign, a line break and the indentation stand in front of the next literal
          have hskip : ∀ cs, readSum? .behind ("+\n    ".toList ++ cs) = readSum? .ahead cs :=
            fun cs => rfl
          rw [hskip, hrest]
          rfl

theorem literalOf_encode (part : String) : literalOf (Utf8.encode part) = quoted part := by
  rw [literalOf, Utf8.decodeLossy_encode, String.ofList_toList, quoted]

/-- No text of ASCII characters is cut inside a character. A text that is cut nowhere inside
a character, and in which neither a quotation mark nor a backslash nor a line break stands,
is written as the sum of the string literals of its parts: put together they are the text,
and all but the last have the length of a segment. The empty text is one empty literal. -/
theorem literal_lossless (text : String) :
    ((∀ c ∈ text.toList, c.toNat < 128) → Aligned text) ∧
      (Aligned text → (∀ c ∈ text.toList, IsPlain c) →
        ∃ parts, literal text = String.intercalate "+\n    " (parts.map quoted) ∧
          literals? (literal text) = some parts ∧ String.join parts = text ∧
          (text = "" → parts = [""]) ∧ (text ≠ "" → FillSegments parts)) := by
  refine ⟨aligned_of_ascii, fun haligned hplain => ?_⟩
  by_cases hempty : text = ""
  · subst hempty
    exact ⟨[""], rfl, rfl, rfl, fun _ => rfl, fun h => absurd rfl h⟩
  have hbytes : Utf8.encode text ≠ [] := by
    intro hnil
    have hlen := Utf8.length_encode text
    rw [hnil] at hlen
    exact hempty (String.utf8ByteSize_eq_zero_iff.1 hlen.symm)
  obtain ⟨parts, hparts, hjoin, hfill⟩ := exists_parts rfl hbytes haligned
  have hliteral : literal text = String.intercalate "+\n    " (parts.map quoted) := by
    rw [literal, if_neg hempty, hparts, List.map_map]
    congr 1
    exact List.map_congr_left fun part _ => literalOf_encode part
  have hne : parts ≠ [] := by
    rintro rfl
    exact hempty hjoin.symm
  have hchars : ∀ part ∈ parts, ∀ c ∈ part.toList, IsPlain c := by
    intro part hpart c hc
    apply hplain
    rw [← hjoin, String.toList_join]
    exact List.mem_flatMap.2 ⟨part, hpart, hc⟩
  refine ⟨parts, hliteral, ?_, hjoin, fun h => absurd h hempty, fun _ => hfill⟩
  rw [hliteral]
  exact literals?_intercalate hne hchars

/-- The placeholder of a library stands across the end of the first segment. -/
theorem placeholder_lossless :
    let text := String.ofList (List.replicate 250 '6' ++ "__$f00d$__".toList)
    ∃ parts, literals? (literal text) = some parts ∧ String.join parts = text ∧
      FillSegments parts := by
  intro text
  have hall : ('6' :: "__$f00d$__".toList).all (fun c =>
      c.toNat < 128 && c ≠ '"' && c ≠ '\\' && c ≠ '\n') = true := by
    decide
  have hchars : ∀ c ∈ text.toList, c.toNat < 128 ∧ IsPlain c := by
    intro c hc
    have hmem : c ∈ '6' :: "__$f00d$__".toList := by
      rw [String.toList_ofList, List.mem_append, List.mem_replicate] at hc
      rcases hc with ⟨-, rfl⟩ | hc
      · exact List.mem_cons_self
      · exact List.mem_cons_of_mem _ hc
    simpa [IsPlain, and_assoc] using List.all_eq_true.1 hall c hmem
  have hlossless := literal_lossless text
  obtain ⟨parts, -, hread, hjoin, -, hfill⟩ := hlossless.2
    (hlossless.1 fun c hc => (hchars c hc).1) (fun c hc => (hchars c hc).2)
  refine ⟨parts, hread, hjoin, hfill fun hempty => ?_⟩
  have hlen := congrArg String.toList hempty
  rw [String.toList_ofList] at hlen
  exact absurd hlen (List.append_ne_nil_of_right_ne_nil _ (by decide))

end SolidityBuild.TypeScript.Bytecode
