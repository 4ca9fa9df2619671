import SolidityBuild.Path
import SolidityBuild.Proofs.Text.Replace

/-!
Segments, normal forms and parents of paths.
-/

namespace SolidityBuild.Path

open Text

theorem eq_of_text {p : Path} {text : String} (h : p.text = text) : p = ⟨text⟩ := by
  cases p
  subst h
  rfl

/-! ## Segments -/

theorem segmentsOf_ne_nil (text : String) : segmentsOf text ≠ [] := by
  simp [segmentsOf, split_ne_nil]

theorem slash_not_mem_of_mem_segmentsOf {text s : String} (h : s ∈ segmentsOf text) :
    '/' ∉ s.toList := by
  obtain ⟨piece, hpiece, rfl⟩ := List.mem_map.1 h
  rw [String.toList_ofList]
  exact not_mem_of_mem_split hpiece

theorem segmentsOf_append_slash (front back : String) :
    segmentsOf (front ++ "/" ++ back) = segmentsOf front ++ segmentsOf back := by
  have hlist : (front ++ "/" ++ back).toList = front.toList ++ '/' :: back.toList := by simp
  rw [segmentsOf, hlist, split_append_separator, List.map_append]
  rfl

theorem joinSegments_segmentsOf (text : String) : joinSegments (segmentsOf text) = text := by
  apply String.toList_injective
  rw [joinSegments, String.toList_intercalate, segmentsOf, List.map_map]
  have hid : String.toList ∘ String.ofList = id := funext fun _ => String.toList_ofList
  rw [hid, List.map_id]
  exact intercalate_split '/' text.toList

theorem joinSegments_cons {segment : String} {rest : List String} (hne : rest ≠ []) :
    joinSegments (segment :: rest) = segment ++ "/" ++ joinSegments rest := by
  obtain ⟨next, others, rfl⟩ := List.exists_cons_of_ne_nil hne
  apply String.toList_injective
  have hslash : "/".toList = ['/'] := by decide
  simp only [joinSegments, String.toList_intercalate, String.toList_append, List.map_cons, hslash]
  rw [List.intercalate_cons_cons]

theorem segmentsOf_joinSegments {segments : List String} (hne : segments ≠ [])
    (h : ∀ s ∈ segments, '/' ∉ s.toList) : segmentsOf (joinSegments segments) = segments := by
  rw [joinSegments, segmentsOf, String.toList_intercalate]
  have hpieces : ∀ piece ∈ segments.map String.toList, '/' ∉ piece := by
    intro piece hpiece
    obtain ⟨s, hs, rfl⟩ := List.mem_map.1 hpiece
    exact h s hs
  have hsplit := split_intercalate '/' (by simpa using hne) hpieces
  have hslash : "/".toList = ['/'] := by decide
  rw [hslash, hsplit, List.map_map]
  have hid : String.ofList ∘ String.toList = id := funext fun _ => String.ofList_toList
  rw [hid, List.map_id]

theorem segmentsOf_of_slash_not_mem {name : String} (hslash : '/' ∉ name.toList) :
    segmentsOf name = [name] := by
  rw [segmentsOf, split_of_not_mem hslash, List.map_singleton, String.ofList_toList]

theorem isRooted_iff {text : String} :
    isRooted text = true ↔ ∃ rest, rest ≠ [] ∧ segmentsOf text = "" :: rest := by
  unfold isRooted segmentsOf
  rw [decide_eq_true_iff]
  cases text.toList with
  | nil => simp [split]
  | cons c cs =>
    rw [List.head?_cons, Option.some.injEq, split]
    split
    next hc => simp [hc, split_ne_nil]
    next hc =>
      refine ⟨fun h => absurd h hc, ?_⟩
      rintro ⟨rest, -, hrest⟩
      cases hs : split '/' cs with
      | nil => exact absurd hs (split_ne_nil '/' cs)
      | cons piece pieces =>
        rw [hs] at hrest
        have hempty := (List.cons.inj hrest).1
        simp [← String.toList_inj] at hempty

/-! ## Normal forms -/

theorem cleanStep_idle {rooted : Bool} {done : List String} {segment : String}
    (h : segment = "" ∨ segment = ".") : cleanStep rooted done segment = done := by
  unfold cleanStep
  rw [if_pos h]

theorem mem_of_mem_cleanStep {rooted : Bool} {done : List String} {segment s : String}
    (h : s ∈ cleanStep rooted done segment) :
    s ∈ done ∨ s = segment ∧ segment ≠ "" ∧ segment ≠ "." := by
  unfold cleanStep at h
  split at h
  · exact .inl h
  next hnamed =>
    obtain ⟨hempty, hdot⟩ := not_or.1 hnamed
    split at h
    next hup =>
      cases done with
      | nil =>
        cases rooted with
        | true => simp at h
        | false => exact .inr ⟨by simpa [hup] using h, hempty, hdot⟩
      | cons last rest =>
        simp only at h
        split at h
        · rcases List.mem_cons.1 h with rfl | h
          · exact .inr ⟨hup.symm, hempty, hdot⟩
          · exact .inl h
        · exact .inl (List.mem_cons_of_mem last h)
    next =>
      rcases List.mem_cons.1 h with rfl | h
      · exact .inr ⟨rfl, hempty, hdot⟩
      · exact .inl h

theorem mem_of_mem_foldl_cleanStep {rooted : Bool} {segments done : List String} {s : String}
    (h : s ∈ segments.foldl (cleanStep rooted) done) :
    s ∈ done ∨ s ∈ segments ∧ s ≠ "" ∧ s ≠ "." := by
  induction segments generalizing done with
  | nil => exact .inl h
  | cons segment rest ih =>
    rcases ih h with h | ⟨h, hs⟩
    · rcases mem_of_mem_cleanStep h with h | ⟨rfl, hs⟩
      · exact .inl h
      · exact .inr ⟨List.mem_cons_self, hs⟩
    · exact .inr ⟨List.mem_cons_of_mem segment h, hs⟩

/-- The segments of a normal form are segments of the text that name something. -/
theorem mem_of_mem_cleanSegments {rooted : Bool} {segments : List String} {s : String}
    (h : s ∈ cleanSegments rooted segments) : s ∈ segments ∧ s ≠ "" ∧ s ≠ "." := by
  rw [cleanSegments, List.mem_reverse] at h
  rcases mem_of_mem_foldl_cleanStep h with h | h
  · cases h
  · exact h

/-- The text of a normal form. -/
def render (rooted : Bool) (stack : List String) : String :=
  if rooted then "/" ++ joinSegments stack.reverse
  else if stack.isEmpty then "." else joinSegments stack.reverse

theorem cleanText_eq_render (text : String) :
    cleanText text =
      render (isRooted text) ((segmentsOf text).foldl (cleanStep (isRooted text)) []) := by
  simp only [cleanText, render, cleanSegments, List.isEmpty_reverse]

/-- Segments that can stand in a normal form. -/
def Named (segments : List String) : Prop :=
  ∀ s ∈ segments, s ≠ "" ∧ s ≠ "." ∧ '/' ∉ s.toList

theorem Named.reverse {segments : List String} (h : Named segments) : Named segments.reverse :=
  fun s hs => h s (List.mem_reverse.1 hs)

theorem named_foldl {rooted : Bool} {done segments : List String} (hdone : Named done)
    (hsegments : ∀ s ∈ segments, '/' ∉ s.toList) :
    Named (segments.foldl (cleanStep rooted) done) := by
  intro s hs
  rcases mem_of_mem_foldl_cleanStep hs with hs | ⟨hs, hempty, hdot⟩
  · exact hdone s hs
  · exact ⟨hempty, hdot, hsegments s hs⟩

theorem named_foldl_segmentsOf (rooted : Bool) (text : String) :
    Named ((segmentsOf text).foldl (cleanStep rooted) []) :=
  named_foldl (fun _ hs => by cases hs) fun _ hs => slash_not_mem_of_mem_segmentsOf hs

theorem segmentsOf_render_rooted {stack : List String} (h : Named stack) (hne : stack ≠ []) :
    segmentsOf (render true stack) = "" :: stack.reverse := by
  have hslash : render true stack = "" ++ "/" ++ joinSegments stack.reverse := by simp [render]
  rw [hslash, segmentsOf_append_slash,
    segmentsOf_joinSegments (by simpa using hne) fun s hs => (h.reverse s hs).2.2]
  rfl

theorem segmentsOf_render_unrooted {stack : List String} (h : Named stack) (hne : stack ≠ []) :
    segmentsOf (render false stack) = stack.reverse := by
  rw [render, if_neg Bool.false_ne_true, if_neg (by simpa using hne),
    segmentsOf_joinSegments (by simpa using hne) fun s hs => (h.reverse s hs).2.2]

theorem isRooted_render {rooted : Bool} {stack : List String} (h : Named stack) :
    isRooted (render rooted stack) = rooted := by
  cases rooted with
  | true => simp [render, isRooted]
  | false =>
    rw [Bool.eq_false_iff]
    intro hrooted
    cases stack with
    | nil => simp [render, isRooted] at hrooted
    | cons last rest =>
      obtain ⟨segments, -, hsegments⟩ := isRooted_iff.1 hrooted
      rw [segmentsOf_render_unrooted h (List.cons_ne_nil last rest)] at hsegments
      have hmem : "" ∈ (last :: rest).reverse := by rw [hsegments]; exact List.mem_cons_self
      exact (h "" (List.mem_reverse.1 hmem)).1 rfl

/-- The characters of a normal form are those of the text, slashes and dots. -/
theorem forall_mem_cleanText {P : Char → Prop} {text : String} (htext : ∀ c ∈ text.toList, P c)
    (hslash : P '/') (hdot : P '.') : ∀ c ∈ (cleanText text).toList, P c := by
  have hjoined : ∀ c ∈ (joinSegments (cleanSegments (isRooted text) (segmentsOf text))).toList,
      P c := by
    intro c hc
    rw [joinSegments, String.toList_intercalate] at hc
    rcases mem_intercalate '/' hc with rfl | ⟨piece, hpiece, hc⟩
    · exact hslash
    · obtain ⟨s, hs, rfl⟩ := List.mem_map.1 hpiece
      obtain ⟨cs, hcs, rfl⟩ := List.mem_map.1 (mem_of_mem_cleanSegments hs).1
      rw [String.toList_ofList] at hc
      exact htext c (mem_of_mem_split hcs hc)
  intro c hc
  simp only [cleanText] at hc
  split at hc
  · rw [String.toList_append, List.mem_append] at hc
    rcases hc with hc | hc
    · obtain rfl : c = '/' := by simpa using hc
      exact hslash
    · exact hjoined c hc
  · split at hc
    · obtain rfl : c = '.' := by simpa using hc
      exact hdot
    · exact hjoined c hc

theorem cleanText_ne_empty (text : String) : (cleanText text).toList ≠ [] := by
  simp only [cleanText]
  split
  · simp
  · cases hsegments : cleanSegments (isRooted text) (segmentsOf text) with
    | nil => simp
    | cons first rest =>
      have hmem : first ∈ cleanSegments (isRooted text) (segmentsOf text) := by
        rw [hsegments]
        exact List.mem_cons_self
      have hfirst := (mem_of_mem_cleanSegments hmem).2.1
      obtain ⟨c, cs, hc⟩ := List.exists_cons_of_ne_nil
        (mt String.toList_eq_nil_iff.1 hfirst)
      have hmem : c ∈ (joinSegments (first :: rest)).toList := by
        rw [joinSegments, String.toList_intercalate]
        exact mem_intercalate_of_mem '/' List.mem_cons_self (by simp [hc])
      exact List.ne_nil_of_mem hmem

/-! ## Joining -/

theorem segmentsOf_empty : segmentsOf "" = [""] := by
  simp [segmentsOf, split]

theorem exists_append_slash {text : String} (h : text.toList.getLast? = some '/') :
    ∃ front, text = front ++ "/" := by
  obtain ⟨front, hfront⟩ := List.getLast?_eq_some_iff.1 h
  exact ⟨String.ofList front, String.toList_injective (by simp [hfront])⟩

theorem isAbsolute_of_slash_not_mem {name : String} (hslash : '/' ∉ name.toList) :
    isAbsolute ⟨name⟩ = false := by
  rw [isAbsolute, isRooted, decide_eq_false_iff_not]
  exact fun hhead => hslash (List.mem_of_head? hhead)

/-- The segments of a path behind a directory follow those of the directory, but
for the empty one behind a slash at its end. -/
theorem exists_segmentsOf_join (directory : Path) {p : Path} (hp : p.isAbsolute = false) :
    ∃ front, segmentsOf (directory.join p).text = front ++ segmentsOf p.text ∧
      (segmentsOf directory.text = front ∨ segmentsOf directory.text = front ++ [""]) := by
  rw [join, hp, if_neg Bool.false_ne_true]
  split
  next hends =>
    rcases hends with hempty | hslash
    · refine ⟨[], ?_, .inr ?_⟩
      · rw [hempty, String.empty_append, List.nil_append]
      · rw [hempty, segmentsOf_empty, List.nil_append]
    · obtain ⟨front, hfront⟩ := exists_append_slash hslash
      have hdirectory : directory.text = front ++ "/" ++ "" := by rw [hfront, String.append_empty]
      refine ⟨segmentsOf front, ?_, .inr ?_⟩
      · rw [hdirectory, String.append_empty, segmentsOf_append_slash]
      · rw [hdirectory, segmentsOf_append_slash, segmentsOf_empty]
  next => exact ⟨segmentsOf directory.text, segmentsOf_append_slash _ _, .inl rfl⟩

/-- Cleaning a path behind a directory goes on from the directory. -/
theorem foldl_segmentsOf_join {directory p : Path} (hp : p.isAbsolute = false) (rooted : Bool)
    (done : List String) :
    (segmentsOf (directory.join p).text).foldl (cleanStep rooted) done =
      (segmentsOf p.text).foldl (cleanStep rooted)
        ((segmentsOf directory.text).foldl (cleanStep rooted) done) := by
  obtain ⟨front, hjoined, hdirectory⟩ := exists_segmentsOf_join directory hp
  rw [hjoined, List.foldl_append]
  rcases hdirectory with hsame | hidle
  · rw [hsame]
  · rw [hidle, List.foldl_append, List.foldl_cons, List.foldl_nil, cleanStep_idle (.inl rfl)]

theorem isAbsolute_join (directory : Path) {p : Path} (hp : p.isAbsolute = false) :
    (directory.join p).isAbsolute = directory.isAbsolute := by
  have hp' : isRooted p.text = false := hp
  rw [join, hp, if_neg Bool.false_ne_true, isAbsolute, isAbsolute]
  split
  next hends =>
    by_cases hempty : directory.text = ""
    · rw [hempty, String.empty_append, hp']
      rfl
    · obtain ⟨c, cs, hc⟩ := List.exists_cons_of_ne_nil (mt String.toList_eq_nil_iff.1 hempty)
      simp [isRooted, hc]
  next hends =>
    obtain ⟨c, cs, hc⟩ := List.exists_cons_of_ne_nil
      (mt String.toList_eq_nil_iff.1 (not_or.1 hends).1)
    simp [isRooted, hc]

/-! ## Parents -/

theorem foldl_reverse_dropIdle (rooted : Bool) (segments : List String) :
    (dropIdle segments).reverse.foldl (cleanStep rooted) [] =
      segments.reverse.foldl (cleanStep rooted) [] := by
  induction segments with
  | nil => rfl
  | cons segment rest ih =>
    rw [dropIdle]
    split
    next hidle =>
      rw [ih, List.reverse_cons, List.foldl_append, List.foldl_cons, List.foldl_nil,
        cleanStep_idle hidle.1]
    next => rfl

theorem getLast?_dropIdle (segments : List String) :
    (dropIdle segments).getLast? = segments.getLast? := by
  induction segments with
  | nil => rfl
  | cons segment rest ih =>
    rw [dropIdle]
    split
    next hidle =>
      cases rest with
      | nil => simp at hidle
      | cons next rest => rw [ih, List.getLast?_cons_cons]
    next => rfl

theorem mem_of_mem_dropIdle {segments : List String} {s : String} (h : s ∈ dropIdle segments) :
    s ∈ segments := by
  induction segments with
  | nil => exact h
  | cons segment rest ih =>
    rw [dropIdle] at h
    split at h
    · exact List.mem_cons_of_mem segment (ih h)
    · exact h

/-- The parent of an absolute path that ends with a name is the path before it. -/
theorem exists_parent {p : Path} {front : List String} {name : String}
    (hsegments : segmentsOf p.text = "" :: (front ++ [name])) (hempty : name ≠ "")
    (hdot : name ≠ ".") :
    ∃ parent, p.parent? = some parent ∧ parent.isAbsolute = true ∧
      (segmentsOf parent.text).foldl (cleanStep true) [] = front.foldl (cleanStep true) [] := by
  have hreverse : (segmentsOf p.text).reverse = name :: ("" :: front).reverse := by
    simp [hsegments]
  have hnamed : dropIdle (segmentsOf p.text).reverse = name :: ("" :: front).reverse := by
    rw [hreverse, dropIdle, if_neg (by simp [hempty, hdot])]
  have hfold := foldl_reverse_dropIdle true ("" :: front).reverse
  rw [List.reverse_reverse, List.foldl_cons, cleanStep_idle (.inl rfl)] at hfold
  have hlast := getLast?_dropIdle ("" :: front).reverse
  rw [List.getLast?_reverse, List.head?_cons] at hlast
  obtain ⟨beyond, hkept⟩ := List.getLast?_eq_some_iff.1 hlast
  rw [parent?, hnamed]
  simp only [List.isEmpty_reverse, List.isEmpty_cons, Bool.false_eq_true, if_false, hempty]
  by_cases hroot : dropIdle ("" :: front).reverse = [""]
  · refine ⟨root, by rw [if_pos hroot], rfl, ?_⟩
    rw [hroot] at hfold
    rw [← hfold]
    rfl
  · refine ⟨⟨joinSegments (dropIdle ("" :: front).reverse).reverse⟩, by rw [if_neg hroot], ?_, ?_⟩
    all_goals
      have hslash : ∀ s ∈ (dropIdle ("" :: front).reverse).reverse, '/' ∉ s.toList := by
        intro s hs
        have hmem := mem_of_mem_dropIdle (List.mem_reverse.1 hs)
        have hmem' : s ∈ segmentsOf p.text := by
          rw [hsegments]
          simp only [List.mem_reverse, List.mem_cons] at hmem
          simp only [List.mem_cons, List.mem_append]
          exact hmem.imp_right .inl
        exact slash_not_mem_of_mem_segmentsOf hmem'
      have hjoined := segmentsOf_joinSegments (by rw [hkept]; simp) hslash
    · refine isRooted_iff.2 ⟨beyond.reverse, ?_, by rw [hjoined, hkept]; simp⟩
      intro hnil
      rw [List.reverse_eq_nil_iff] at hnil
      rw [hkept, hnil] at hroot
      exact hroot rfl
    · rw [hjoined, hfold]

end SolidityBuild.Path
