import Mathlib.Data.List.Intervals
import Mathlib.Data.Nat.PSub
import SolidityBuild.Compiler.Diagnostic
import SolidityBuild.Proofs.Text.Replace
import SolidityBuild.Proofs.Text.Utf8

/-!
Lines of byte offsets. The line of an offset is found by taking lines off it, each with
the byte of its newline, as long as it lies behind them. So it is the number of newlines
in front of the offset, nothing is taken off that is not there, and the lines of a range
are consecutive.
-/

namespace SolidityBuild.Compiler

open Text

variable {content shown : String} {lines : List String} {offset n : Nat} {start stop : Int}

/-- The byte that ends a line. -/
def newline : UInt8 := 0x0A

theorem asciiByte_newline : Utf8.asciiByte '\n' = newline := by decide

/-! ## Lines and their bytes -/

/-- The bytes of each line, with the newline that ends it; the last line has none. -/
def lineBytes : List String → List (List UInt8)
  | [] => []
  | [last] => [Utf8.encode last]
  | line :: next :: rest => (Utf8.encode line ++ [newline]) :: lineBytes (next :: rest)

theorem flatten_lineBytes_ofList (pieces : List (List Char)) :
    (lineBytes (pieces.map String.ofList)).flatten =
      (['\n'].intercalate pieces).flatMap String.utf8EncodeChar := by
  induction pieces with
  | nil => rfl
  | cons piece rest ih =>
    cases rest with
    | nil => simp [lineBytes, Utf8.encode_ofList]
    | cons next rest =>
      have hnewline : String.utf8EncodeChar '\n' = [newline] := by decide
      rw [List.map_cons, List.map_cons, lineBytes, List.flatten_cons, ← List.map_cons, ih,
        List.intercalate_cons_cons, Utf8.encode_ofList]
      simp [hnewline]

/-- The lines hold all bytes of a text, in their order. -/
theorem flatten_lineBytes (content : String) :
    (lineBytes (sourceLinesOf content)).flatten = Utf8.encode content := by
  rw [sourceLinesOf, flatten_lineBytes_ofList, intercalate_split, Utf8.encode_eq_flatMap]

theorem newline_not_mem_of_mem_sourceLinesOf {line : String} (h : line ∈ sourceLinesOf content) :
    newline ∉ Utf8.encode line := by
  obtain ⟨piece, hpiece, rfl⟩ := List.mem_map.1 h
  rw [← asciiByte_newline, Utf8.asciiByte_mem_encode_iff (by decide), String.toList_ofList]
  exact not_mem_of_mem_split hpiece

theorem sourceLinesOf_ne_nil (content : String) : sourceLinesOf content ≠ [] := by
  rw [sourceLinesOf, Ne, List.map_eq_nil_iff]
  exact split_ne_nil '\n' content.toList

/-! ## The line of an offset -/

/-- Taking lines off an offset counts the newlines in front of it. -/
theorem lineIn_eq_count (h : ∀ line ∈ lines, newline ∉ Utf8.encode line) :
    lineIn lines offset = ((lineBytes lines).flatten.take offset).count newline := by
  induction lines generalizing offset with
  | nil => simp [lineIn, lineBytes]
  | cons line rest ih =>
    have hline := h line List.mem_cons_self
    have hnone : ∀ n, ((Utf8.encode line).take n).count newline = 0 := fun n =>
      List.count_eq_zero_of_not_mem fun hmem => hline (List.mem_of_mem_take hmem)
    cases rest with
    | nil => simp [lineIn, lineBytes, hnone]
    | cons next rest =>
      have hrest := fun l hl => h l (List.mem_cons_of_mem line hl)
      have hbytes : (lineBytes (line :: next :: rest)).flatten =
          Utf8.encode line ++ newline :: (lineBytes (next :: rest)).flatten := by
        simp [lineBytes]
      rw [lineIn, hbytes, List.take_append, List.count_append, hnone, Nat.zero_add,
        Utf8.length_encode]
      split
      next hlt =>
        obtain ⟨k, hk⟩ := Nat.exists_eq_add_of_lt hlt
        have hleft : offset - (line.utf8ByteSize + 1) = k := by omega
        have hbehind : offset - line.utf8ByteSize = k + 1 := by omega
        rw [hleft, hbehind, List.take_succ_cons, List.count_cons_self, ih hrest]
      next hle =>
        rw [Nat.sub_eq_zero_of_le (Nat.le_of_not_lt hle), List.take_zero, List.count_nil]

theorem lineOfOffset_eq_count (content : String) (offset : Nat) :
    lineOfOffset content offset = ((Utf8.encode content).take offset).count newline := by
  have hlines : ∀ line ∈ sourceLinesOf content, newline ∉ Utf8.encode line :=
    fun _ h => newline_not_mem_of_mem_sourceLinesOf h
  rw [lineOfOffset, lineIn_eq_count hlines, flatten_lineBytes]

theorem lineOfOffset_mono (content : String) : Monotone (lineOfOffset content) := by
  intro offset offset' h
  rw [lineOfOffset_eq_count, lineOfOffset_eq_count]
  exact (List.take_sublist_take_left h).count_le newline

theorem lineIn_lt_length (h : lines ≠ []) : lineIn lines offset < lines.length := by
  induction lines generalizing offset with
  | nil => exact absurd rfl h
  | cons line rest ih =>
    cases rest with
    | nil => simp [lineIn]
    | cons next rest =>
      have hrest : lineIn (next :: rest) (offset - (line.utf8ByteSize + 1)) <
          (next :: rest).length := ih (List.cons_ne_nil next rest)
      rw [lineIn]
      split <;> simp only [List.length_cons] at hrest ⊢ <;> omega

theorem lineOfOffset_lt_length (content : String) (offset : Nat) :
    lineOfOffset content offset < (sourceLinesOf content).length :=
  lineIn_lt_length (sourceLinesOf_ne_nil content)

/-- The loop that takes lines off an offset, with what is left of it and how many lines
it lies behind. It has no result if more is taken off than is left. -/
def lineLoop? : List String → (left behind : Nat) → Option Nat
  | [], _, behind => some behind
  | [_], _, behind => some behind
  | line :: next :: rest, left, behind =>
    if line.utf8ByteSize < left then
      (left.psub (line.utf8ByteSize + 1)).bind fun left =>
        lineLoop? (next :: rest) left (behind + 1)
    else some behind

/-- Every subtraction of the loop has a result. -/
theorem lineLoop?_eq (lines : List String) (left behind : Nat) :
    lineLoop? lines left behind = some (behind + lineIn lines left) := by
  induction lines generalizing left behind with
  | nil => rfl
  | cons line rest ih =>
    cases rest with
    | nil => rfl
    | cons next rest =>
      rw [lineLoop?, lineIn]
      split
      next hlt =>
        rw [Nat.psub_eq_sub hlt, Option.bind_some, ih, Nat.add_right_comm, Nat.add_assoc]
      next => rfl

/-! ## The lines of a range -/

/-- The line of an index, with its number. -/
def numberedLine? (content : String) (i : Nat) : Option (Nat × String) :=
  (sourceLinesOf content)[i]?.map fun line => (i + 1, trimmed line)

/-- A line that is there has the number after its index. -/
theorem map_fst_numberedLine? {i : Nat} (h : i < (sourceLinesOf content).length) :
    (numberedLine? content i).map Prod.fst = some (i + 1) := by
  rw [numberedLine?, List.getElem?_eq_getElem h]
  rfl

theorem take_drop_eq_filterMap {α : Type} (xs : List α) (first k : Nat) :
    (xs.drop first).take k = (List.Ico first (first + k)).filterMap (xs[·]?) := by
  induction k with
  | zero => simp
  | succ k ih =>
    have hlast : [first + k].filterMap (xs[·]?) = xs[first + k]?.toList := by
      cases h : xs[first + k]? <;> simp [h]
    rw [List.take_add_one, ih, List.getElem?_drop, ← Nat.add_assoc,
      List.Ico.succ_top (Nat.le_add_right first k), List.filterMap_append, hlast]

theorem sourceLines_eq_nil (h : start < 0 ∨ stop < start) : sourceLines content start stop = [] :=
  if_pos h

theorem lineOfOffset_start_le (h : ¬ (start < 0 ∨ stop < start)) :
    lineOfOffset content start.toNat ≤ lineOfOffset content stop.toNat :=
  lineOfOffset_mono content (Int.toNat_le_toNat (Int.not_lt.1 (not_or.1 h).2))

/-- A range that is known has all lines from that of its start to that of its end. -/
theorem sourceLines_eq_filterMap (h : ¬ (start < 0 ∨ stop < start)) :
    sourceLines content start stop =
      (List.Ico (lineOfOffset content start.toNat) (lineOfOffset content stop.toNat + 1)).filterMap
        (numberedLine? content) := by
  have hle : lineOfOffset content start.toNat ≤ lineOfOffset content stop.toNat :=
    lineOfOffset_start_le h
  have hend : lineOfOffset content start.toNat +
      (lineOfOffset content stop.toNat - lineOfOffset content start.toNat + 1) =
        lineOfOffset content stop.toNat + 1 := by
    omega
  rw [sourceLines, if_neg h]
  simp only [take_drop_eq_filterMap, hend, List.getElem?_mapIdx]
  rfl

theorem map_fst_filterMap_numberedLine? {is : List Nat}
    (h : ∀ i ∈ is, i < (sourceLinesOf content).length) :
    (is.filterMap (numberedLine? content)).map Prod.fst = is.map (· + 1) := by
  rw [List.map_filterMap, ← List.filterMap_eq_map]
  exact List.filterMap_congr fun i hi => map_fst_numberedLine? (h i hi)

theorem map_fst_sourceLines (h : ¬ (start < 0 ∨ stop < start)) :
    (sourceLines content start stop).map Prod.fst =
      List.Ico (lineOfOffset content start.toNat + 1)
        (lineOfOffset content stop.toNat + 1 + 1) := by
  have hthere : ∀ i ∈ List.Ico (lineOfOffset content start.toNat)
      (lineOfOffset content stop.toNat + 1), i < (sourceLinesOf content).length := by
    intro i hi
    exact Nat.lt_of_le_of_lt (Nat.le_of_lt_succ (List.Ico.mem.1 hi).2)
      (lineOfOffset_lt_length content stop.toNat)
  rw [sourceLines_eq_filterMap h, map_fst_filterMap_numberedLine? hthere]
  simpa only [Nat.add_comm 1] using List.Ico.map_add _ _ 1

/-- The lines of an excerpt have their numbers, counted from one, and lose the
blanks around them. -/
theorem exists_line_of_mem_sourceLines (h : (n, shown) ∈ sourceLines content start stop) :
    ∃ k line, n = k + 1 ∧ (split '\n' content.toList)[k]? = some line ∧
      shown = String.ofList (trim line) := by
  rw [sourceLines] at h
  split at h
  next => cases h
  next =>
    have hmem := List.mem_of_mem_drop (List.mem_of_mem_take h)
    obtain ⟨k, hk, heq⟩ := List.mem_mapIdx.1 hmem
    obtain ⟨rfl, rfl⟩ := Prod.mk.inj heq
    rw [sourceLinesOf, List.length_map] at hk
    refine ⟨k, (split '\n' content.toList)[k], rfl, List.getElem?_eq_getElem hk, ?_⟩
    simp [trimmed, sourceLinesOf]

/-- The lines of a range, where no subtraction may take off more than there is. -/
def sourceLines? (content : String) (start stop : Int) : Option (List (Nat × String)) :=
  if start < 0 ∨ stop < start then some []
  else do
    let first ← lineLoop? (sourceLinesOf content) start.toNat 0
    let last ← lineLoop? (sourceLinesOf content) stop.toNat 0
    let more ← last.psub first
    let numbered := (sourceLinesOf content).mapIdx fun i line => (i + 1, trimmed line)
    return (numbered.drop first).take (more + 1)

theorem lineLoop?_sourceLinesOf (content : String) (offset : Nat) :
    lineLoop? (sourceLinesOf content) offset 0 = some (lineOfOffset content offset) := by
  rw [lineLoop?_eq, Nat.zero_add, lineOfOffset]

theorem sourceLines?_eq (content : String) (start stop : Int) :
    sourceLines? content start stop = some (sourceLines content start stop) := by
  rw [sourceLines?, sourceLines]
  split
  next => rfl
  next h =>
    have hle : lineOfOffset content start.toNat ≤ lineOfOffset content stop.toNat :=
      lineOfOffset_start_le h
    simp only [lineLoop?_sourceLinesOf, Nat.psub_eq_sub hle, Option.bind_eq_bind,
      Option.bind_some, Option.pure_def]

/-- The line of an offset is the number of newlines in front of it, and no subtraction
fails. So later offsets have later lines, and the lines of a range are consecutive: from
that of its start to that of its end, each with its number and its text. -/
theorem lines_of_offsets (content : String) :
    (∀ offset,
      lineLoop? (sourceLinesOf content) offset 0 = some (lineOfOffset content offset) ∧
      lineOfOffset content offset = ((Utf8.encode content).take offset).count newline) ∧
    Monotone (lineOfOffset content) ∧
    ∀ start stop : Int,
      sourceLines? content start stop = some (sourceLines content start stop) ∧
      (start < 0 ∨ stop < start → sourceLines content start stop = []) ∧
      (0 ≤ start → start ≤ stop →
        sourceLines content start stop ≠ [] ∧
        (sourceLines content start stop).map Prod.fst =
          List.Ico (lineOfOffset content start.toNat + 1)
            (lineOfOffset content stop.toNat + 1 + 1) ∧
        ∀ n shown, (n, shown) ∈ sourceLines content start stop →
          ∃ k line, n = k + 1 ∧ (split '\n' content.toList)[k]? = some line ∧
            shown = String.ofList (trim line)) := by
  refine ⟨fun offset => ⟨lineLoop?_sourceLinesOf content offset,
    lineOfOffset_eq_count content offset⟩, lineOfOffset_mono content, ?_⟩
  intro start stop
  refine ⟨sourceLines?_eq content start stop, sourceLines_eq_nil, ?_⟩
  intro hstart hstop
  have hknown : ¬ (start < 0 ∨ stop < start) := by omega
  have hnumbers : (sourceLines content start stop).map Prod.fst = _ :=
    map_fst_sourceLines hknown
  refine ⟨?_, hnumbers, fun n shown => exists_line_of_mem_sourceLines⟩
  intro hnil
  have hle : lineOfOffset content start.toNat ≤ lineOfOffset content stop.toNat :=
    lineOfOffset_start_le hknown
  rw [hnil, List.map_nil, eq_comm, List.Ico.eq_empty_iff] at hnumbers
  omega

/-- Bytes are counted, not characters: the letter in front of the first newline has two. -/
theorem accented_lines :
    lineOfOffset "é\n\n x\n" 2 = 0 ∧ lineOfOffset "é\n\n x\n" 3 = 1 ∧
    ((0 : Int) ≤ 3 ∧ (3 : Int) ≤ 5) ∧
    (sourceLines "é\n\n x\n" 3 5).map Prod.fst = List.Ico 2 4 ∧
    sourceLines "é\n\n x\n" 3 5 = [(2, ""), (3, "x")] := by
  have hfirst : lineOfOffset "é\n\n x\n" (3 : Int).toNat = 1 := by decide +kernel
  have hlast : lineOfOffset "é\n\n x\n" (5 : Int).toNat = 2 := by decide +kernel
  obtain ⟨-, -, hrange⟩ := lines_of_offsets "é\n\n x\n"
  obtain ⟨-, hnumbers, -⟩ := (hrange 3 5).2.2 (by decide) (by decide)
  rw [hfirst, hlast] at hnumbers
  exact ⟨by decide +kernel, hfirst, by decide, hnumbers, by decide +kernel⟩

end SolidityBuild.Compiler
