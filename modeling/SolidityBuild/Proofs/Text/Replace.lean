import SolidityBuild.Text.Pieces

/-!
Replacing a phrase, and trimming. A text in which the phrase occurs nowhere is
left alone, an occurrence in front is replaced, and a phrase without newlines is
replaced in each line by itself. Blanks around a text that begins and ends with
other characters are all that trimming takes away.
-/

namespace SolidityBuild.Text

/-! ## Splitting -/

theorem split_of_not_mem {separator : Char} {cs : List Char} (h : separator ∉ cs) :
    split separator cs = [cs] := by
  induction cs with
  | nil => rfl
  | cons c cs ih =>
    have hc : c ≠ separator := fun hc => h (by simp [hc])
    have hcs : separator ∉ cs := fun hmem => h (List.mem_cons_of_mem c hmem)
    simp only [split, if_neg hc, ih hcs]

theorem split_append {separator : Char} {front : List Char} (h : separator ∉ front)
    (back : List Char) :
    split separator (front ++ separator :: back) = front :: split separator back := by
  induction front with
  | nil => simp [split]
  | cons c cs ih =>
    have hc : c ≠ separator := fun hc => h (by simp [hc])
    have hcs : separator ∉ cs := fun hmem => h (List.mem_cons_of_mem c hmem)
    simp only [List.cons_append, split, if_neg hc, ih hcs]

theorem split_append_separator {separator : Char} (front back : List Char) :
    split separator (front ++ separator :: back) =
      split separator front ++ split separator back := by
  induction front with
  | nil => simp [split]
  | cons c cs ih =>
    rw [List.cons_append, split, split]
    split
    next => rw [ih, List.cons_append]
    next =>
      cases hs : split separator cs with
      | nil => exact absurd hs (split_ne_nil separator cs)
      | cons piece pieces => rw [ih, hs, List.cons_append, List.cons_append]

theorem split_intercalate (separator : Char) {pieces : List (List Char)} (hne : pieces ≠ [])
    (h : ∀ piece ∈ pieces, separator ∉ piece) :
    split separator ([separator].intercalate pieces) = pieces := by
  induction pieces with
  | nil => exact absurd rfl hne
  | cons first rest ih =>
    have hfirst := h first List.mem_cons_self
    cases rest with
    | nil => rw [List.intercalate_singleton, split_of_not_mem hfirst]
    | cons next rest =>
      have hrest := ih (List.cons_ne_nil next rest) fun piece hpiece =>
        h piece (List.mem_cons_of_mem first hpiece)
      rw [List.intercalate_cons_cons, List.append_assoc, List.singleton_append,
        split_append hfirst, hrest]

theorem not_mem_of_mem_split {separator : Char} {cs piece : List Char}
    (h : piece ∈ split separator cs) : separator ∉ piece := by
  induction cs generalizing piece with
  | nil =>
    rw [split, List.mem_singleton] at h
    simp [h]
  | cons c cs ih =>
    simp only [split] at h
    split at h
    next =>
      rcases List.mem_cons.1 h with rfl | h
      · simp
      · exact ih h
    next hc =>
      cases hs : split separator cs with
      | nil => exact absurd hs (split_ne_nil separator cs)
      | cons first pieces =>
        rw [hs] at h
        rcases List.mem_cons.1 h with rfl | h
        · have hfirst : separator ∉ first := ih (by simp [hs])
          simp [hfirst, Ne.symm hc]
        · exact ih (by simp [hs, h])

theorem mem_intercalate (separator : Char) {c : Char} {pieces : List (List Char)}
    (h : c ∈ [separator].intercalate pieces) : c = separator ∨ ∃ piece ∈ pieces, c ∈ piece := by
  induction pieces with
  | nil => simp at h
  | cons first rest ih =>
    cases rest with
    | nil =>
      rw [List.intercalate_singleton] at h
      exact .inr ⟨first, List.mem_cons_self, h⟩
    | cons next rest =>
      rw [List.intercalate_cons_cons] at h
      rcases List.mem_append.1 h with h | h
      · rcases List.mem_append.1 h with h | h
        · exact .inr ⟨first, List.mem_cons_self, h⟩
        · exact .inl (List.mem_singleton.1 h)
      · rcases ih h with h | ⟨piece, hpiece, hc⟩
        · exact .inl h
        · exact .inr ⟨piece, List.mem_cons_of_mem first hpiece, hc⟩

theorem mem_intercalate_of_mem (separator : Char) {c : Char} {pieces : List (List Char)}
    {piece : List Char} (hpiece : piece ∈ pieces) (hc : c ∈ piece) :
    c ∈ [separator].intercalate pieces := by
  induction pieces with
  | nil => cases hpiece
  | cons first rest ih =>
    cases rest with
    | nil =>
      obtain rfl := List.mem_singleton.1 hpiece
      rwa [List.intercalate_singleton]
    | cons next rest =>
      rw [List.intercalate_cons_cons]
      rcases List.mem_cons.1 hpiece with rfl | hpiece
      · exact List.mem_append_left _ (List.mem_append_left _ hc)
      · exact List.mem_append_right _ (ih hpiece)

theorem mem_of_mem_split {separator c : Char} {cs piece : List Char}
    (hpiece : piece ∈ split separator cs) (hc : c ∈ piece) : c ∈ cs := by
  have h := mem_intercalate_of_mem separator hpiece hc
  rwa [intercalate_split] at h

theorem length_split (separator : Char) (cs : List Char) :
    (split separator cs).length = cs.count separator + 1 := by
  induction cs with
  | nil => rfl
  | cons c cs ih =>
    rw [split, List.count_cons]
    split
    next hc => rw [List.length_cons, ih, if_pos (beq_iff_eq.2 hc)]
    next hc =>
      rw [if_neg (by simpa using hc), Nat.add_zero, ← ih]
      cases hs : split separator cs with
      | nil => exact absurd hs (split_ne_nil separator cs)
      | cons piece pieces => rfl

/-! ## Replacing -/

variable {phrase replacement : List Char}

theorem replaceFrom_skip (skip : Nat) (cs : List Char) :
    replaceFrom phrase replacement skip cs =
      replaceAll phrase replacement (cs.drop skip) := by
  induction skip generalizing cs with
  | zero => simp [replaceAll]
  | succ skip ih =>
    cases cs with
    | nil => simp [replaceFrom, replaceAll]
    | cons c cs => simpa [replaceFrom] using ih cs

@[simp] theorem replaceAll_nil : replaceAll phrase replacement [] = [] := rfl

theorem replaceAll_cons {c : Char} {cs : List Char} (h : ¬ phrase <+: c :: cs) :
    replaceAll phrase replacement (c :: cs) = c :: replaceAll phrase replacement cs := by
  have hfalse : ¬ phrase.isPrefixOf (c :: cs) = true := fun hp =>
    h (List.isPrefixOf_iff_prefix.1 hp)
  simp [replaceAll, replaceFrom, hfalse]

theorem replaceAll_append_of_phrase (hphrase : phrase ≠ []) (cs : List Char) :
    replaceAll phrase replacement (phrase ++ cs) =
      replacement ++ replaceAll phrase replacement cs := by
  obtain ⟨first, rest, rfl⟩ := List.exists_cons_of_ne_nil hphrase
  have hp : (first :: rest).isPrefixOf (first :: (rest ++ cs)) = true :=
    List.isPrefixOf_iff_prefix.2 (List.prefix_append (first :: rest) cs)
  rw [List.cons_append, replaceAll, replaceFrom, if_pos hp, replaceFrom_skip]
  simp

/-- Text in which no occurrence of the phrase begins is passed over. -/
theorem replaceAll_append_of_no_occurrence {front back : List Char}
    (h : ∀ passed rest, front = passed ++ rest → rest ≠ [] → ¬ phrase <+: rest ++ back) :
    replaceAll phrase replacement (front ++ back) =
      front ++ replaceAll phrase replacement back := by
  induction front with
  | nil => rfl
  | cons c cs ih =>
    have hhere : ¬ phrase <+: c :: (cs ++ back) := h [] (c :: cs) rfl (List.cons_ne_nil c cs)
    rw [List.cons_append, replaceAll_cons hhere, ih, List.cons_append]
    rintro passed rest rfl hrest
    exact h (c :: passed) rest rfl hrest

/-- A text in which the phrase does not occur is left alone. -/
theorem replaceAll_of_not_infix {cs : List Char} (h : ¬ phrase <:+: cs) :
    replaceAll phrase replacement cs = cs := by
  have hpassed : replaceAll phrase replacement (cs ++ []) =
      cs ++ replaceAll phrase replacement [] := by
    refine replaceAll_append_of_no_occurrence ?_
    rintro passed rest rfl - hp
    rw [List.append_nil] at hp
    exact h (hp.isInfix.trans (List.suffix_append passed rest).isInfix)
  rwa [List.append_nil, replaceAll_nil, List.append_nil] at hpassed

theorem mem_of_mem_replaceFrom {c : Char} {skip : Nat} {cs : List Char}
    (h : c ∈ replaceFrom phrase replacement skip cs) : c ∈ replacement ∨ c ∈ cs := by
  induction cs generalizing skip with
  | nil => simp [replaceFrom] at h
  | cons d cs ih =>
    cases skip with
    | succ skip => exact (ih h).imp_right (List.mem_cons_of_mem d)
    | zero =>
      rw [replaceFrom] at h
      split at h
      · rcases List.mem_append.1 h with h | h
        · exact .inl h
        · exact (ih h).imp_right (List.mem_cons_of_mem d)
      · rcases List.mem_cons.1 h with rfl | h
        · exact .inr List.mem_cons_self
        · exact (ih h).imp_right (List.mem_cons_of_mem d)

theorem prefix_of_prefix_append_separator {separator : Char} (h : separator ∉ phrase)
    {front back : List Char} (hp : phrase <+: front ++ separator :: back) :
    phrase <+: front := by
  rcases List.prefix_or_prefix_of_prefix hp (List.prefix_append front (separator :: back)) with
    hfront | ⟨rest, rfl⟩
  · exact hfront
  · rw [List.prefix_append_right_inj] at hp
    cases rest with
    | nil => simp
    | cons c rest =>
      obtain rfl : c = separator := (List.cons_prefix_cons.1 hp).1
      simp at h

/-- A separator that is not in the phrase stays in place, and what stands on its
two sides is treated by itself. -/
theorem replaceAll_append_separator {separator : Char} (hphrase : phrase ≠ [])
    (h : separator ∉ phrase) (front back : List Char) :
    replaceAll phrase replacement (front ++ separator :: back) =
      replaceAll phrase replacement front ++
        separator :: replaceAll phrase replacement back := by
  induction hlen : front.length using Nat.strongRecOn generalizing front with
  | ind n ih =>
    by_cases hp : phrase <+: front
    · obtain ⟨rest, rfl⟩ := hp
      have hlt : rest.length < n := by
        have := List.length_pos_iff.2 hphrase
        rw [List.length_append] at hlen
        omega
      rw [List.append_assoc, replaceAll_append_of_phrase hphrase,
        replaceAll_append_of_phrase hphrase, ih rest.length hlt rest rfl, List.append_assoc]
    · cases front with
      | nil =>
        have hnot : ¬ phrase <+: [] ++ separator :: back := fun hp' =>
          hp (prefix_of_prefix_append_separator h hp')
        rw [List.nil_append, replaceAll_cons hnot]
        rfl
      | cons c cs =>
        have hnot : ¬ phrase <+: (c :: cs) ++ separator :: back := fun hp' =>
          hp (prefix_of_prefix_append_separator h hp')
        rw [List.cons_append] at hnot
        have hlt : cs.length < n := by
          rw [← hlen, List.length_cons]
          exact Nat.lt_succ_self _
        rw [List.cons_append, replaceAll_cons hnot, replaceAll_cons hp, ih cs.length hlt cs rfl,
          List.cons_append]

/-- A phrase without the separator is replaced in each piece by itself. -/
theorem split_replaceAll (separator : Char) (hphrase : phrase ≠ []) (h : separator ∉ phrase)
    (hreplacement : separator ∉ replacement) (cs : List Char) :
    split separator (replaceAll phrase replacement cs) =
      (split separator cs).map (replaceAll phrase replacement) := by
  have hclean {front : List Char} (hfront : separator ∉ front) :
      separator ∉ replaceAll phrase replacement front := fun hmem =>
    (mem_of_mem_replaceFrom hmem).elim hreplacement hfront
  induction hlen : cs.length using Nat.strongRecOn generalizing cs with
  | ind n ih =>
    by_cases hmem : separator ∈ cs
    · obtain ⟨front, back, rfl, hfront⟩ := List.eq_append_cons_of_mem hmem
      have hlt : back.length < n := by
        rw [List.length_append, List.length_cons] at hlen
        omega
      rw [replaceAll_append_separator hphrase h, split_append (hclean hfront),
        split_append hfront, ih back.length hlt back rfl, List.map_cons]
    · rw [split_of_not_mem (hclean hmem), split_of_not_mem hmem, List.map_singleton]

/-- Either the phrase does not occur, or its first occurrence is replaced. -/
theorem replaceAll_cases (hphrase : phrase ≠ []) (replacement cs : List Char) :
    replaceAll phrase replacement cs = cs ∨
      ∃ front back, cs = front ++ (phrase ++ back) ∧
        replaceAll phrase replacement cs =
          front ++ (replacement ++ replaceAll phrase replacement back) := by
  induction cs with
  | nil => exact .inl rfl
  | cons c cs ih =>
    by_cases hp : phrase <+: c :: cs
    · obtain ⟨back, hback⟩ := hp
      refine .inr ⟨[], back, hback.symm, ?_⟩
      rw [← hback, replaceAll_append_of_phrase hphrase, List.nil_append]
    · rw [replaceAll_cons hp]
      rcases ih with hsame | ⟨front, back, hcs, hreplaced⟩
      · exact .inl (by rw [hsame])
      · exact .inr ⟨c :: front, back, by rw [hcs, List.cons_append],
          by rw [hreplaced, List.cons_append]⟩

/-! ## Marks

A mark that is not in a part of a text stands before it or behind it. -/

theorem exists_of_append_eq_of_not_mem_left {mark : Char} {front back left right : List Char}
    (h : front ++ back = left ++ mark :: right) (hmark : mark ∉ front) :
    ∃ beyond, left = front ++ beyond ∧ back = beyond ++ mark :: right := by
  rcases List.append_eq_append_iff.1 h with hover | ⟨beyond, rfl, hright⟩
  · exact hover
  · cases beyond with
    | nil => exact ⟨[], by simp, by simpa using hright.symm⟩
    | cons c beyond =>
      obtain rfl := (List.cons.inj hright).1
      simp at hmark

theorem exists_of_append_eq_of_not_mem_right {mark : Char} {front back left right : List Char}
    (h : front ++ back = left ++ mark :: right) (hmark : mark ∉ back) :
    ∃ beyond, front = left ++ mark :: beyond ∧ right = beyond ++ back := by
  rcases List.append_eq_append_iff.1 h with ⟨beyond, _, rfl⟩ | ⟨beyond, rfl, hright⟩
  · simp at hmark
  · cases beyond with
    | nil =>
      rw [List.nil_append] at hright
      rw [← hright] at hmark
      simp at hmark
    | cons c beyond =>
      obtain ⟨rfl, hrest⟩ := List.cons.inj hright
      exact ⟨beyond, rfl, hrest⟩

theorem append_cons_inj {mark : Char} {left left' right right' : List Char}
    (hleft : mark ∉ left) (hleft' : mark ∉ left')
    (h : left ++ mark :: right = left' ++ mark :: right') :
    left = left' ∧ right = right' := by
  obtain ⟨beyond, rfl, hright⟩ := exists_of_append_eq_of_not_mem_left h hleft
  cases beyond with
  | nil => exact ⟨(List.append_nil left).symm, (List.cons.inj hright).2⟩
  | cons c beyond =>
    obtain rfl := (List.cons.inj hright).1
    simp at hleft'

/-- A mark with nothing of what was put in before it stands before that. -/
theorem exists_of_put_in_after {mark other : Char} {front middle back left right : List Char}
    (hmark : mark ∉ middle) (hother : other ∈ middle) (hleft : other ∉ left)
    (h : (front ++ middle) ++ back = left ++ mark :: right) :
    ∃ beyond, front = left ++ mark :: beyond := by
  rw [List.append_assoc] at h
  rcases List.append_eq_append_iff.1 h with ⟨beyond, rfl, hmiddle⟩ | ⟨beyond, hfront, hright⟩
  · obtain ⟨beyond', rfl, -⟩ := exists_of_append_eq_of_not_mem_left hmiddle hmark
    simp [hother] at hleft
  · cases beyond with
    | nil =>
      have hmiddle : middle ++ back = [] ++ mark :: right := hright.symm
      obtain ⟨beyond', hnil, -⟩ := exists_of_append_eq_of_not_mem_left hmiddle hmark
      rw [(List.append_eq_nil_iff.1 hnil.symm).1] at hother
      cases hother
    | cons c beyond =>
      obtain rfl := (List.cons.inj hright).1
      exact ⟨beyond, hfront⟩

/-- A mark with nothing of what was put in behind it stands behind that. -/
theorem exists_of_put_in_before {mark other : Char} {front middle back left right : List Char}
    (hmark : mark ∉ middle) (hother : other ∈ middle) (hright : other ∉ right)
    (h : (front ++ middle) ++ back = left ++ mark :: right) :
    ∃ beyond, back = beyond ++ mark :: right := by
  rcases List.append_eq_append_iff.1 h with ⟨beyond, _, hback⟩ | ⟨beyond, hfront, hback⟩
  · exact ⟨beyond, hback⟩
  · cases beyond with
    | nil => exact ⟨[], hback.symm⟩
    | cons c beyond =>
      obtain ⟨rfl, rfl⟩ := List.cons.inj hback
      obtain ⟨beyond', _, hover⟩ := exists_of_append_eq_of_not_mem_right hfront hmark
      exact absurd (by simp [hover, hother]) hright

/-- If the last mark stands behind everything that was put in, it was in the text
before. -/
theorem exists_of_replaceAll_eq {mark other : Char} {cs left right : List Char}
    (hphrase : phrase ≠ []) (hmark : mark ∉ replacement) (hother : other ∈ replacement)
    (hright : other ∉ right) (h : replaceAll phrase replacement cs = left ++ mark :: right) :
    ∃ beyond, cs = beyond ++ mark :: right := by
  induction hlen : cs.length using Nat.strongRecOn generalizing cs left with
  | ind n ih =>
    rcases replaceAll_cases hphrase replacement cs with hsame | ⟨front, back, rfl, hreplaced⟩
    · exact ⟨left, hsame.symm.trans h⟩
    · have hlt : back.length < n := by
        have := List.length_pos_iff.2 hphrase
        simp only [List.length_append] at hlen
        omega
      rw [hreplaced, ← List.append_assoc] at h
      obtain ⟨beyond, hback⟩ := exists_of_put_in_before hmark hother hright h
      obtain ⟨beyond', rfl⟩ := ih back.length hlt hback rfl
      exact ⟨front ++ (phrase ++ beyond'), by simp⟩

/-! ## Trimming -/

theorem trimEnd_append_of_blank {cs post : List Char} (hpost : ∀ c ∈ post, isBlank c = true) :
    trimEnd (cs ++ post) = trimEnd cs := by
  induction cs with
  | nil => exact trimEnd_eq_nil_of_blank hpost
  | cons c cs ih => rw [List.cons_append, trimEnd, ih, trimEnd]

theorem trimEnd_of_last (cs : List Char) {last : Char} (hlast : isBlank last = false) :
    trimEnd (cs ++ [last]) = cs ++ [last] := by
  induction cs with
  | nil => simp [trimEnd, hlast]
  | cons c cs ih =>
    rw [List.cons_append, trimEnd, ih]
    cases cs <;> rfl

theorem exists_trimEnd (cs : List Char) :
    ∃ post, cs = trimEnd cs ++ post ∧ ∀ c ∈ post, isBlank c = true := by
  induction cs with
  | nil => exact ⟨[], rfl, by simp⟩
  | cons c cs ih =>
    obtain ⟨post, hcs, hpost⟩ := ih
    rw [trimEnd]
    split
    next hnil =>
      rw [hnil, List.nil_append] at hcs
      split
      next hc => exact ⟨c :: cs, rfl, List.forall_mem_cons.2 ⟨hc, hcs ▸ hpost⟩⟩
      next => exact ⟨cs, rfl, hcs ▸ hpost⟩
    next => exact ⟨post, by rw [List.cons_append, ← hcs], hpost⟩

/-- Blanks around a text that begins and ends with other characters are what
trimming takes away. -/
theorem trim_of_blanks {pre post cs : List Char} {first last : Char}
    (hpre : ∀ c ∈ pre, isBlank c = true) (hpost : ∀ c ∈ post, isBlank c = true)
    (hfirst : isBlank first = false) (hlast : isBlank last = false) :
    trim (pre ++ (first :: (cs ++ [last])) ++ post) = first :: (cs ++ [last]) := by
  have hdrop : (pre ++ (first :: (cs ++ [last])) ++ post).dropWhile isBlank =
      (first :: (cs ++ [last])) ++ post := by
    rw [List.append_assoc, List.dropWhile_append_of_pos hpre, List.cons_append,
      List.dropWhile_cons_of_neg (by simp [hfirst])]
  rw [trim, hdrop, trimEnd_append_of_blank hpost]
  exact trimEnd_of_last (first :: cs) hlast

theorem trim_append_of_blank {cs post : List Char} (hpost : ∀ c ∈ post, isBlank c = true) :
    trim (cs ++ post) = trim cs := by
  rw [trim, trim, List.dropWhile_append]
  split
  next hempty =>
    rw [List.isEmpty_iff.1 hempty]
    exact trimEnd_eq_nil_of_blank fun c hc => hpost c (List.dropWhile_subset _ hc)
  next => exact trimEnd_append_of_blank hpost

theorem exists_trim (cs : List Char) :
    ∃ pre post, cs = pre ++ trim cs ++ post ∧ (∀ c ∈ pre, isBlank c = true) ∧
      ∀ c ∈ post, isBlank c = true := by
  obtain ⟨post, hpost, hblank⟩ := exists_trimEnd (cs.dropWhile isBlank)
  refine ⟨cs.takeWhile isBlank, post, ?_, ?_, hblank⟩
  · rw [trim, List.append_assoc, ← hpost, List.takeWhile_append_dropWhile]
  · intro c hc
    exact List.all_eq_true.1 List.all_takeWhile c hc

theorem not_isBlank_of_getLast?_trimEnd {cs : List Char} {c : Char}
    (h : (trimEnd cs).getLast? = some c) : isBlank c = false := by
  induction cs with
  | nil => cases h
  | cons d cs ih =>
    rw [trimEnd] at h
    split at h
    next =>
      split at h
      next => cases h
      next hd =>
        obtain rfl : d = c := by simpa using h
        simpa using hd
    next hne =>
      rw [List.getLast?_cons_of_ne_nil hne] at h
      exact ih h

theorem not_isBlank_of_getLast?_trim {cs : List Char} {c : Char}
    (h : (trim cs).getLast? = some c) : isBlank c = false :=
  not_isBlank_of_getLast?_trimEnd h

theorem not_isBlank_of_head?_trim {cs : List Char} {c : Char}
    (h : (trim cs).head? = some c) : isBlank c = false := by
  obtain ⟨post, heq, -⟩ := exists_trimEnd (cs.dropWhile isBlank)
  have hhead : (cs.dropWhile isBlank).head? = some c := by
    rw [heq, List.head?_append, ← trim, h, Option.some_or]
  have hnot := List.head?_dropWhile_not isBlank cs
  rw [hhead] at hnot
  simpa using hnot

/-- A text without blanks at its ends is left alone. -/
theorem trim_eq_self {cs : List Char} (hfirst : ∀ c, cs.head? = some c → isBlank c = false)
    (hlast : ∀ c, cs.getLast? = some c → isBlank c = false) : trim cs = cs := by
  have hdrop : cs.dropWhile isBlank = cs := by
    cases cs with
    | nil => rfl
    | cons c cs => rw [List.dropWhile_cons_of_neg (by simp [hfirst c rfl])]
  rw [trim, hdrop]
  cases hback : cs.getLast? with
  | none => rw [List.getLast?_eq_none_iff.1 hback]; rfl
  | some c =>
    obtain ⟨front, rfl⟩ := List.getLast?_eq_some_iff.1 hback
    exact trimEnd_of_last front (hlast c hback)

end SolidityBuild.Text
