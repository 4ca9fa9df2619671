import SolidityBuild.Proofs.Compiler.Offset

/-!
What an excerpt covers. The end of a range stands behind its last byte, but its line is
found like that of any other offset. Where the last byte is a newline, the end is on the
next line, which holds no byte of the range and is shown, too. All other excerpts are the
lines that hold a byte of their range.
-/

namespace SolidityBuild.Compiler

open Text

variable {content : String} {lines : List String} {i offset p start stop : Nat}

/-! ## Lines that hold a byte -/

/-- The number of bytes in front of a line. -/
def lineStart (lines : List String) (i : Nat) : Nat :=
  ((lineBytes lines).take i).flatten.length

/-- The byte at an offset stands in the line of an index. A newline stands in the line
that it ends. -/
def HoldsByte (content : String) (i p : Nat) : Prop :=
  lineStart (sourceLinesOf content) i ≤ p ∧ p < lineStart (sourceLinesOf content) (i + 1)

instance (content : String) (i p : Nat) : Decidable (HoldsByte content i p) :=
  inferInstanceAs (Decidable (_ ∧ _))

/-- The lines that hold at least one byte of a range, with their numbers. -/
def coveredLines (content : String) (start stop : Nat) : List (Nat × String) :=
  ((List.range (sourceLinesOf content).length).filter fun i =>
    ∃ p ∈ List.Ico start stop, HoldsByte content i p).filterMap (numberedLine? content)

theorem length_lineBytes (lines : List String) : (lineBytes lines).length = lines.length := by
  induction lines with
  | nil => rfl
  | cons line rest ih =>
    cases rest with
    | nil => rfl
    | cons next rest => simp only [lineBytes, List.length_cons, ih]

/-- A line starts at or in front of an offset if it is not behind the line of the offset. -/
theorem lineStart_le_iff (h : i < lines.length) :
    lineStart lines i ≤ offset ↔ i ≤ lineIn lines offset := by
  induction lines generalizing i offset with
  | nil => exact absurd h (Nat.not_lt_zero i)
  | cons line rest ih =>
    cases i with
    | zero => simp [lineStart]
    | succ i =>
      cases rest with
      | nil => exact absurd h (by simp)
      | cons next rest =>
        have hrest : lineStart (next :: rest) i ≤ offset - (line.utf8ByteSize + 1) ↔
            i ≤ lineIn (next :: rest) (offset - (line.utf8ByteSize + 1)) :=
          ih (Nat.lt_of_succ_lt_succ h)
        have hstart : lineStart (line :: next :: rest) (i + 1) =
            line.utf8ByteSize + 1 + lineStart (next :: rest) i := by
          rw [lineStart, lineBytes, List.take_succ_cons, List.flatten_cons, List.length_append,
            List.length_append, Utf8.length_encode]
          rfl
        rw [hstart, lineIn]
        split <;> omega

theorem lineStart_length (content : String) :
    lineStart (sourceLinesOf content) (sourceLinesOf content).length = content.utf8ByteSize := by
  rw [lineStart, ← length_lineBytes, List.take_length, flatten_lineBytes, Utf8.length_encode]

/-- A byte of the text stands in the line of its offset and in no other. -/
theorem holdsByte_iff (hi : i < (sourceLinesOf content).length) (hp : p < content.utf8ByteSize) :
    HoldsByte content i p ↔ lineOfOffset content p = i := by
  have hthis : lineStart (sourceLinesOf content) i ≤ p ↔ i ≤ lineOfOffset content p :=
    lineStart_le_iff hi
  have hnext : lineStart (sourceLinesOf content) (i + 1) ≤ p ↔ i + 1 ≤ lineOfOffset content p := by
    by_cases hlast : i + 1 < (sourceLinesOf content).length
    · exact lineStart_le_iff hlast
    · have hall : i + 1 = (sourceLinesOf content).length := by omega
      have hlt := lineOfOffset_lt_length content p
      rw [hall, lineStart_length]
      omega
  rw [HoldsByte, hthis, ← Nat.not_le, hnext]
  omega

/-! ## Lines of neighbouring offsets -/

theorem lineOfOffset_succ (content : String) (p : Nat) :
    lineOfOffset content (p + 1) =
      lineOfOffset content p + if (Utf8.encode content)[p]? = some newline then 1 else 0 := by
  rw [lineOfOffset_eq_count, lineOfOffset_eq_count, List.take_add_one, List.count_append]
  cases (Utf8.encode content)[p]? with
  | none => simp
  | some byte => simp [List.count_singleton]

/-- No line between those of two offsets is left out. -/
theorem exists_lineOfOffset_eq (content : String) (start k : Nat)
    (hstart : lineOfOffset content start ≤ i) (hstop : i ≤ lineOfOffset content (start + k)) :
    ∃ p, start ≤ p ∧ p ≤ start + k ∧ lineOfOffset content p = i := by
  induction k with
  | zero => exact ⟨start, Nat.le_refl start, Nat.le_refl start, Nat.le_antisymm hstart hstop⟩
  | succ k ih =>
    by_cases hbefore : i ≤ lineOfOffset content (start + k)
    · obtain ⟨p, hlow, hhigh, hp⟩ := ih hbefore
      exact ⟨p, hlow, Nat.le_succ_of_le hhigh, hp⟩
    · have hstep := lineOfOffset_succ content (start + k)
      refine ⟨start + (k + 1), Nat.le_add_right start (k + 1), Nat.le_refl _, ?_⟩
      rw [Nat.add_assoc] at hstep
      split at hstep <;> omega

/-- The lines that hold a byte of a range are those from the line of its first byte to
the line of its last byte. -/
theorem exists_holdsByte_iff (hi : i < (sourceLinesOf content).length) (h : start ≤ offset)
    (hoffset : offset < content.utf8ByteSize) :
    (∃ p ∈ List.Ico start (offset + 1), HoldsByte content i p) ↔
      lineOfOffset content start ≤ i ∧ i ≤ lineOfOffset content offset := by
  constructor
  · rintro ⟨p, hmem, hp⟩
    have hrange := List.Ico.mem.1 hmem
    rw [holdsByte_iff hi (by omega)] at hp
    rw [← hp]
    exact ⟨lineOfOffset_mono content hrange.1, lineOfOffset_mono content (by omega)⟩
  · rintro ⟨hfirst, hlast⟩
    obtain ⟨k, rfl⟩ := Nat.exists_eq_add_of_le h
    obtain ⟨p, hlow, hhigh, hp⟩ := exists_lineOfOffset_eq content start k hfirst hlast
    exact ⟨p, List.Ico.mem.2 ⟨hlow, by omega⟩, (holdsByte_iff hi (by omega)).2 hp⟩

theorem filter_range_eq_Ico {n first last : Nat} (h : last < n) :
    (List.range n).filter (fun i => first ≤ i ∧ i ≤ last) = List.Ico first (last + 1) := by
  have hboth : ∀ i, decide (first ≤ i ∧ i ≤ last) =
      (decide (first ≤ i) && decide (i < last + 1)) := by
    intro i
    simp only [Bool.decide_and, Nat.lt_succ_iff]
  simp only [hboth]
  rw [← List.filter_filter, ← List.Ico.zero_bot, List.Ico.filter_lt, List.Ico.filter_le,
    Nat.zero_max, Nat.min_eq_right h]

theorem coveredLines_eq_filterMap (h : start ≤ offset) (hoffset : offset < content.utf8ByteSize) :
    coveredLines content start (offset + 1) =
      (List.Ico (lineOfOffset content start) (lineOfOffset content offset + 1)).filterMap
        (numberedLine? content) := by
  rw [coveredLines, ← filter_range_eq_Ico (lineOfOffset_lt_length content offset)]
  congr 1
  apply List.filter_congr
  intro i hi
  exact decide_eq_decide.2 (exists_holdsByte_iff (List.mem_range.1 hi) h hoffset)

/-! ## Excerpts -/

theorem sourceLines_natCast (h : start ≤ stop) :
    sourceLines content start stop =
      (List.Ico (lineOfOffset content start) (lineOfOffset content stop + 1)).filterMap
        (numberedLine? content) :=
  sourceLines_eq_filterMap (by omega)

theorem sourceLines_eq_coveredLines (h : start ≤ offset) (hoffset : offset < content.utf8ByteSize)
    (hbyte : (Utf8.encode content)[offset]? ≠ some newline) :
    sourceLines content start (offset + 1 : Nat) = coveredLines content start (offset + 1) := by
  have hsame : lineOfOffset content (offset + 1) = lineOfOffset content offset := by
    rw [lineOfOffset_succ, if_neg hbyte, Nat.add_zero]
  rw [sourceLines_natCast (Nat.le_succ_of_le h), coveredLines_eq_filterMap h hoffset, hsame]

/-- Behind a newline, the line that starts there is shown as well. -/
theorem sourceLines_eq_coveredLines_append (h : start ≤ offset)
    (hoffset : offset < content.utf8ByteSize)
    (hbyte : (Utf8.encode content)[offset]? = some newline) :
    ∃ line, (sourceLinesOf content)[lineOfOffset content (offset + 1)]? = some line ∧
      sourceLines content start (offset + 1 : Nat) =
        coveredLines content start (offset + 1) ++
          [(lineOfOffset content (offset + 1) + 1, trimmed line)] := by
  have hnext : lineOfOffset content (offset + 1) = lineOfOffset content offset + 1 := by
    rw [lineOfOffset_succ, if_pos hbyte]
  have hlt := lineOfOffset_lt_length content (offset + 1)
  obtain ⟨line, hline⟩ : ∃ line, (sourceLinesOf content)[lineOfOffset content (offset + 1)]? =
      some line := ⟨_, List.getElem?_eq_getElem hlt⟩
  have hshown : numberedLine? content (lineOfOffset content (offset + 1)) =
      some (lineOfOffset content (offset + 1) + 1, trimmed line) := by
    rw [numberedLine?, hline, Option.map_some]
  refine ⟨line, hline, ?_⟩
  rw [sourceLines_natCast (Nat.le_succ_of_le h), coveredLines_eq_filterMap h hoffset,
    List.Ico.succ_top (lineOfOffset_mono content (Nat.le_succ_of_le h)), List.filterMap_append,
    List.filterMap_cons_some hshown, List.filterMap_nil, hnext]

/-- An excerpt has just the lines that hold a byte of its range, if the last byte of the
range is no newline. If it is one, the line behind it is added. -/
theorem excerpt_covers_iff (content : String) {start stop : Nat} (h : start < stop)
    (hstop : stop ≤ content.utf8ByteSize) :
    (sourceLines content start stop = coveredLines content start stop ↔
      (Utf8.encode content)[stop - 1]? ≠ some newline) ∧
    ((Utf8.encode content)[stop - 1]? = some newline →
      ∃ line, (sourceLinesOf content)[lineOfOffset content stop]? = some line ∧
        sourceLines content start stop =
          coveredLines content start stop ++
            [(lineOfOffset content stop + 1, trimmed line)]) := by
  obtain ⟨offset, rfl⟩ := Nat.exists_eq_add_of_le' (Nat.zero_lt_of_lt h)
  have hle : start ≤ offset := Nat.le_of_lt_succ h
  rw [Nat.add_sub_cancel]
  refine ⟨⟨?_, sourceLines_eq_coveredLines hle hstop⟩,
    sourceLines_eq_coveredLines_append hle hstop⟩
  intro hsame hbyte
  obtain ⟨line, -, hmore⟩ := sourceLines_eq_coveredLines_append hle hstop hbyte
  rw [hsame] at hmore
  exact absurd hmore (by simp)

/-- A first line with its newline is shown with the line behind it, and without the
newline by itself. -/
theorem newline_shows_next_line :
    sourceLines "a\nb\n" (0 : Nat) (2 : Nat) = [(1, "a"), (2, "b")] ∧
    coveredLines "a\nb\n" 0 2 = [(1, "a")] ∧
    sourceLines "a\nb\n" (0 : Nat) (2 : Nat) ≠ coveredLines "a\nb\n" 0 2 ∧
    sourceLines "a\nb\n" (0 : Nat) (1 : Nat) = coveredLines "a\nb\n" 0 1 := by
  have hbytes : Utf8.encode "a\nb\n" = [0x61, newline, 0x62, newline] := by
    rw [Utf8.encode_eq_flatMap]
    decide +kernel
  have hsize : "a\nb\n".utf8ByteSize = 4 := by decide +kernel
  have hshown : sourceLines "a\nb\n" (0 : Nat) (2 : Nat) = [(1, "a"), (2, "b")] := by
    decide +kernel
  have hlong := excerpt_covers_iff "a\nb\n" (by decide : 0 < 2) (by omega)
  have hshort := excerpt_covers_iff "a\nb\n" (by decide : 0 < 1) (by omega)
  rw [hbytes] at hlong hshort
  obtain ⟨line, -, hmore⟩ := hlong.2 (by decide)
  have hcovered : coveredLines "a\nb\n" 0 2 = [(1, "a")] := by
    rw [hshown] at hmore
    have hsplit : [(1, "a")] ++ [(2, "b")] = coveredLines "a\nb\n" 0 2 ++ _ := hmore
    exact (List.append_inj_left' hsplit rfl).symm
  refine ⟨hshown, hcovered, fun hsame => ?_, hshort.1.2 (by decide)⟩
  exact hlong.1.1 hsame (by decide)

end SolidityBuild.Compiler
