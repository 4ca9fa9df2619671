import SolidityBuild.Proofs.Text.Replace
import SolidityBuild.Source.Resolve

/-!
Import statements as texts. A statement is plain if its specifier holds no
quotation mark; then one statement stands in a line of another only if the two
are equal, and replacing it there replaces the whole line, blanks aside.
-/

namespace SolidityBuild.Import

open Text

/-- The statement that imports a specifier, in the given quotation marks. -/
def quoted (quote : Char) (specifier : List Char) : List Char :=
  keyword ++ quote :: (specifier ++ [quote, ';'])

/-- Characters among which there is no quotation mark. -/
def Unquoted (cs : List Char) : Prop := ∀ c ∈ cs, isQuote c = false

-- there are but finitely many characters, and they are not to be run through
instance (cs : List Char) : Decidable (Unquoted cs) := List.decidableBAll _ cs

theorem Unquoted.not_mem {quote : Char} {cs : List Char} (h : Unquoted cs)
    (hquote : isQuote quote = true) : quote ∉ cs := by
  intro hmem
  rw [h quote hmem] at hquote
  cases hquote

theorem specifier?_eq_some_iff {line specifier : List Char} :
    specifier? line = some specifier ↔
      ∃ quote, isQuote quote = true ∧ specifier ≠ [] ∧ quote ∉ specifier ∧
        line = quoted quote specifier := by
  constructor
  · intro h
    unfold specifier? at h
    split at h
    next quote rest hline =>
      split at h
      next hquote =>
        rw [Option.bind_eq_bind, Option.bind_eq_some_iff] at h
        obtain ⟨inside, hinside, h⟩ := h
        obtain ⟨found, hfound, h⟩ := Option.bind_eq_some_iff.1 h
        split at h
        next => cases h
        next hfits =>
          obtain rfl := Option.some.inj h
          rw [isPrefixOf?_eq_some_iff] at hline
          rw [stripEnd?_eq_some_iff] at hinside hfound
          refine ⟨quote, hquote, fun hnil => hfits (.inl (by simp [hnil])),
            fun hmem => hfits (.inr hmem), ?_⟩
          rw [hline, hinside, hfound, quoted]
          simp
      next => cases h
    next => cases h
  · rintro ⟨quote, hquote, hne, hmem, rfl⟩
    have hline : keyword.isPrefixOf? (quoted quote specifier) =
        some (quote :: (specifier ++ [quote, ';'])) := isPrefixOf?_eq_some_iff.2 rfl
    have hinside : stripEnd? ';' (specifier ++ [quote, ';']) = some (specifier ++ [quote]) :=
      stripEnd?_eq_some_iff.2 (by simp)
    have hfound : stripEnd? quote (specifier ++ [quote]) = some specifier :=
      stripEnd?_eq_some_iff.2 rfl
    simp [specifier?, hline, hquote, hinside, hfound, hne, hmem]

theorem ofLine?_eq_some_iff {line : List Char} {i : Import} :
    ofLine? line = some i ↔
      ∃ quote specifier, isQuote quote = true ∧ specifier ≠ [] ∧ quote ∉ specifier ∧
        trim line = quoted quote specifier ∧
        i = ⟨String.ofList (quoted quote specifier), String.ofList specifier⟩ := by
  unfold ofLine?
  rw [Option.map_eq_some_iff]
  constructor
  · rintro ⟨specifier, hspecifier, rfl⟩
    obtain ⟨quote, hquote, hne, hmem, hline⟩ := specifier?_eq_some_iff.1 hspecifier
    exact ⟨quote, specifier, hquote, hne, hmem, hline, by rw [hline]⟩
  · rintro ⟨quote, specifier, hquote, hne, hmem, hline, rfl⟩
    exact ⟨specifier, specifier?_eq_some_iff.2 ⟨quote, hquote, hne, hmem, hline⟩, by rw [hline]⟩

/-! ## Lines -/

theorem trim_quoted {quote : Char} {specifier pre post : List Char}
    (hpre : ∀ c ∈ pre, isBlank c = true) (hpost : ∀ c ∈ post, isBlank c = true) :
    trim (pre ++ quoted quote specifier ++ post) = quoted quote specifier := by
  have hshape : quoted quote specifier =
      'i' :: ((keyword.tail ++ quote :: (specifier ++ [quote])) ++ [';']) := by
    simp [quoted, keyword]
  rw [hshape]
  exact trim_of_blanks hpre hpost (by decide) (by decide)

theorem ofLine?_dropReturn (line : List Char) : ofLine? (dropReturn line) = ofLine? line := by
  have htrim : trim (dropReturn line) = trim line := by
    unfold dropReturn
    cases h : stripEnd? '\r' line with
    | none => rfl
    | some rest =>
      rw [stripEnd?_eq_some_iff.1 h, Option.getD_some]
      exact (trim_append_of_blank (List.forall_mem_singleton.2 (by decide))).symm
  rw [ofLine?, ofLine?, htrim]

theorem filterMap_closeLines (pieces : List (List Char)) :
    (closeLines pieces).filterMap ofLine? = pieces.filterMap ofLine? := by
  induction pieces with
  | nil => rfl
  | cons line rest ih =>
    cases rest with
    | nil =>
      rw [closeLines]
      split
      next hempty =>
        rw [List.isEmpty_iff.1 hempty]
        rfl
      next => rfl
    | cons next rest =>
      rw [closeLines, List.filterMap_cons, List.filterMap_cons, ofLine?_dropReturn, ih]

/-- Where a line ends with a carriage return does not matter to the imports. -/
theorem scan_eq_filterMap_split (text : String) :
    scan text = (split '\n' text.toList).filterMap ofLine? :=
  filterMap_closeLines _

theorem mem_scan_iff {text : String} {i : Import} :
    i ∈ scan text ↔ ∃ line ∈ split '\n' text.toList, ofLine? line = some i := by
  rw [scan_eq_filterMap_split, List.mem_filterMap]

theorem map_scan_eq_filterMap (target : Import → String) (text : String) :
    (scan text).map target =
      (split '\n' text.toList).filterMap fun line => (ofLine? line).map target := by
  rw [scan_eq_filterMap_split, List.map_filterMap]

/-! ## Statements in each other -/

theorem not_isQuote_of_isBlank {c : Char} (h : isBlank c = true) : isQuote c = false := by
  cases hquote : isQuote c with
  | false => rfl
  | true =>
    have hcases : c = '"' ∨ c = '\'' := by simpa [isQuote] using hquote
    rcases hcases with rfl | rfl <;> exact absurd h (by decide)

theorem unquoted_keyword : Unquoted keyword := by
  decide

/-- Two texts that go on equally begin with the same characters up to their
first quotation marks. -/
theorem eq_of_prefix_of_unquoted {front front' back back' : List Char} {quote quote' : Char}
    (hfront : Unquoted front) (hfront' : Unquoted front') (hquote : isQuote quote = true)
    (hquote' : isQuote quote' = true)
    (h : front ++ quote :: back <+: front' ++ quote' :: back') :
    front = front' ∧ quote = quote' ∧ back <+: back' := by
  induction front generalizing front' with
  | nil =>
    cases front' with
    | nil => exact ⟨rfl, List.cons_prefix_cons.1 h⟩
    | cons c cs =>
      obtain rfl : quote = c := (List.cons_prefix_cons.1 h).1
      rw [hfront' quote List.mem_cons_self] at hquote
      cases hquote
  | cons c cs ih =>
    cases front' with
    | nil =>
      obtain rfl : c = quote' := (List.cons_prefix_cons.1 h).1
      rw [hfront c List.mem_cons_self] at hquote'
      cases hquote'
    | cons d ds =>
      obtain ⟨rfl, hrest⟩ := List.cons_prefix_cons.1 h
      obtain ⟨rfl, hsame⟩ := ih (fun e he => hfront e (List.mem_cons_of_mem c he))
        (fun e he => hfront' e (List.mem_cons_of_mem c he)) hrest
      exact ⟨rfl, hsame⟩

theorem quoted_inj {quote quote' : Char} {specifier specifier' post : List Char}
    (hquote : isQuote quote = true) (hquote' : isQuote quote' = true)
    (hspecifier : Unquoted specifier) (hspecifier' : Unquoted specifier')
    (h : quoted quote specifier <+: quoted quote' specifier' ++ post) :
    quote = quote' ∧ specifier = specifier' := by
  unfold quoted at h
  rw [List.append_assoc] at h
  obtain ⟨-, rfl, hrest⟩ :=
    eq_of_prefix_of_unquoted unquoted_keyword unquoted_keyword hquote hquote' h
  have hrest' : specifier ++ quote :: [';'] <+: specifier' ++ quote :: (';' :: post) := by
    simpa using hrest
  obtain ⟨rfl, -, -⟩ := eq_of_prefix_of_unquoted hspecifier hspecifier' hquote hquote hrest'
  exact ⟨rfl, rfl⟩

theorem countP_of_unquoted {cs : List Char} (h : Unquoted cs) : cs.countP isQuote = 0 :=
  List.countP_eq_zero.2 fun c hc => by simp [h c hc]

/-- A statement begins nowhere inside a plain one: behind its first character
there are too few characters before its quotation marks, or too few of those. -/
theorem not_prefix_inside {quote quote' : Char} {specifier specifier' post : List Char}
    (hquote : isQuote quote = true) (hquote' : isQuote quote' = true)
    (hspecifier' : Unquoted specifier') (hpost : Unquoted post) {passed rest : List Char}
    (hsplit : quoted quote' specifier' = passed ++ rest) (hpassed : passed ≠ []) :
    ¬ quoted quote specifier <+: rest ++ post := by
  intro h
  rcases List.append_eq_append_iff.1 hsplit with ⟨beyond, rfl, hrest⟩ | ⟨left, hkeyword, rfl⟩
  · cases beyond with
    | nil =>
      rw [List.nil_append] at hrest
      rw [← hrest, quoted] at h
      have hnone : Unquoted [] := by simp [Unquoted]
      have hempty := (eq_of_prefix_of_unquoted unquoted_keyword hnone hquote hquote' h).1
      exact absurd hempty (by decide)
    | cons c beyond =>
      have htail : specifier' ++ [quote', ';'] = beyond ++ rest := (List.cons.inj hrest).2
      have hone : rest.countP isQuote ≤ 1 := by
        have hcount := congrArg (List.countP isQuote) htail
        have hsemicolon : isQuote ';' = false := by decide
        simp only [List.countP_append, countP_of_unquoted hspecifier', List.countP_cons,
          List.countP_nil, hquote', hsemicolon] at hcount
        simp at hcount
        omega
      have htwo : 2 ≤ (quoted quote specifier).countP isQuote := by
        simp only [quoted, List.countP_append, List.countP_cons, hquote]
        simp
        omega
      have hle := h.sublist.countP_le (p := isQuote)
      rw [List.countP_append, countP_of_unquoted hpost] at hle
      omega
  · have hleft : Unquoted left := fun c hc => unquoted_keyword c (by rw [hkeyword]; simp [hc])
    have hsame := (eq_of_prefix_of_unquoted unquoted_keyword hleft hquote hquote'
      (by simpa [quoted] using h)).1
    rw [hsame, List.self_eq_append_left] at hkeyword
    exact hpassed hkeyword

/-- Replacing a plain statement in a line that holds a plain statement, blanks
aside, replaces all of it or nothing. -/
theorem replaceAll_line {quote quote' : Char} {specifier specifier' pre post : List Char}
    (replacement : List Char) (hquote : isQuote quote = true) (hquote' : isQuote quote' = true)
    (hspecifier : Unquoted specifier) (hspecifier' : Unquoted specifier')
    (hpre : ∀ c ∈ pre, isBlank c = true) (hpost : ∀ c ∈ post, isBlank c = true) :
    replaceAll (quoted quote specifier) replacement (pre ++ quoted quote' specifier' ++ post) =
      pre ++ (if quoted quote' specifier' = quoted quote specifier then replacement
        else quoted quote' specifier') ++ post := by
  have hfirst (back : List Char) : quoted quote specifier ++ back =
      'i' :: ((quoted quote specifier).tail ++ back) := rfl
  have hblank {blanks : List Char} (hblanks : ∀ c ∈ blanks, isBlank c = true)
      (back : List Char) : replaceAll (quoted quote specifier) replacement (blanks ++ back) =
        blanks ++ replaceAll (quoted quote specifier) replacement back := by
    refine replaceAll_append_of_no_occurrence ?_
    rintro passed rest rfl hrest ⟨beyond, hover⟩
    obtain ⟨c, cs, rfl⟩ := List.exists_cons_of_ne_nil hrest
    rw [hfirst, List.cons_append] at hover
    obtain rfl := (List.cons.inj hover).1
    exact absurd (hblanks 'i' (by simp)) (by decide)
  have hpost' : replaceAll (quoted quote specifier) replacement post = post := by
    simpa using hblank hpost []
  rw [List.append_assoc, hblank hpre, List.append_assoc]
  congr 1
  split
  next hsame =>
    rw [hsame, replaceAll_append_of_phrase (by simp [quoted]), hpost']
  next hdiffer =>
    rw [replaceAll_append_of_no_occurrence, hpost']
    intro passed rest hsplit hrest
    cases passed with
    | nil =>
      rw [List.nil_append] at hsplit
      intro h
      rw [← hsplit] at h
      obtain ⟨rfl, rfl⟩ := quoted_inj hquote hquote' hspecifier hspecifier' h
      exact hdiffer rfl
    | cons c cs =>
      exact not_prefix_inside hquote hquote' hspecifier'
        (fun d hd => not_isQuote_of_isBlank (hpost d hd)) hsplit (List.cons_ne_nil c cs)

end SolidityBuild.Import
