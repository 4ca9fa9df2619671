import Mathlib.Data.List.Induction
import SolidityBuild.Proofs.Path
import SolidityBuild.Proofs.Source.Closure
import SolidityBuild.Proofs.Source.Statement

/-!
Where redirected imports lead. Statements are replaced one import after the
other, everywhere in the text, so a statement that has been put in may be taken
for that of a later import. An import is redirected to its own target unless
that happens; and no line becomes an import statement unless apostrophes stand
inside apostrophes.
-/

namespace SolidityBuild.Resolver

open Text Import

/-! ## One replacement after the other -/

section Successive

variable {target : Import → String}

/-- What becomes of a statement when the statements of imports are replaced one
after the other. -/
def settledStatement (target : Import → String) (imports : List Import) (statement : String) :
    String :=
  imports.foldl (fun s i => if s = i.statement then statementFor (target i) else s) statement

theorem settledStatement_append (front : List Import) (last : Import) (statement : String) :
    settledStatement target (front ++ [last]) statement =
      if settledStatement target front statement = last.statement
        then statementFor (target last) else settledStatement target front statement := by
  rw [settledStatement, List.foldl_append]
  rfl

theorem statementFor_inj {v v' : String} (h : statementFor v = statementFor v') : v = v' := by
  have hlist := congrArg String.toList h
  simp only [statementFor, String.toList_append, List.append_assoc,
    List.append_cancel_left_eq, List.append_cancel_right_eq] at hlist
  exact String.toList_injective hlist

theorem settledStatement_cases (target : Import → String) (imports : List Import)
    (statement : String) :
    settledStatement target imports statement = statement ∨
      ∃ i ∈ imports, settledStatement target imports statement = statementFor (target i) := by
  induction imports using List.reverseRecOn with
  | nil => exact .inl rfl
  | append_singleton front last ih =>
    rw [settledStatement_append]
    split
    next => exact .inr ⟨last, by simp, rfl⟩
    next =>
      rcases ih with hsame | ⟨i, hi, hi'⟩
      · exact .inl hsame
      · exact .inr ⟨i, List.mem_append_left [last] hi, hi'⟩

theorem settledStatement_of_forall_ne {imports : List Import} {statement : String}
    (h : ∀ i ∈ imports, statement ≠ i.statement) :
    settledStatement target imports statement = statement := by
  induction imports using List.reverseRecOn with
  | nil => rfl
  | append_singleton front last ih =>
    have hfront := ih fun i hi => h i (List.mem_append_left [last] hi)
    rw [settledStatement_append, hfront, if_neg (h last (by simp))]

/-- The statement of each import is replaced, by that import if by no other. -/
theorem exists_settledStatement (target : Import → String) {imports : List Import} {i : Import}
    (hi : i ∈ imports) :
    ∃ k ∈ imports, settledStatement target imports i.statement = statementFor (target k) := by
  induction imports using List.reverseRecOn with
  | nil => cases hi
  | append_singleton front last ih =>
    rw [settledStatement_append]
    split
    next => exact ⟨last, by simp, rfl⟩
    next hdiffer =>
      rcases List.mem_append.1 hi with hi | hi
      · obtain ⟨k, hk, hk'⟩ := ih hi
        exact ⟨k, List.mem_append_left [last] hk, hk'⟩
      · obtain rfl := List.mem_singleton.1 hi
        rcases settledStatement_cases target front i.statement with hsame | ⟨k, hk, hk'⟩
        · exact absurd hsame hdiffer
        · exact ⟨k, List.mem_append_left [i] hk, hk'⟩

theorem pairwise_of_settled {imports : List Import}
    (h : ∀ i ∈ imports, settledStatement target imports i.statement = statementFor (target i)) :
    imports.Pairwise fun i j => j.statement = statementFor (target i) → target j = target i := by
  induction imports using List.reverseRecOn with
  | nil => exact .nil
  | append_singleton front last ih =>
    have hlast : ∀ i ∈ front, last.statement = statementFor (target i) →
        target last = target i := by
      intro i hi hstatement
      have hsettled := h i (List.mem_append_left [last] hi)
      rw [settledStatement_append] at hsettled
      split at hsettled
      next => exact statementFor_inj hsettled
      next hdiffer => exact absurd (hsettled.trans hstatement.symm) hdiffer
    refine List.pairwise_append.2 ⟨ih ?_, List.pairwise_singleton _ last, ?_⟩
    · intro i hi
      have hsettled := h i (List.mem_append_left [last] hi)
      rw [settledStatement_append] at hsettled
      split at hsettled
      next hmet =>
        -- the last import met this statement, but what it puts in is the same
        obtain ⟨k, hk, hk'⟩ := exists_settledStatement target hi
        have hkeep := hlast k hk (hmet.symm.trans hk')
        rw [hk', ← hkeep, hsettled]
      next => exact hsettled
    · intro i hi j hj hstatement
      obtain rfl := List.mem_singleton.1 hj
      exact hlast i hi hstatement

theorem settled_of_pairwise {imports : List Import}
    (hsame : ∀ i ∈ imports, ∀ j ∈ imports, i.statement = j.statement → target i = target j)
    (h : imports.Pairwise fun i j =>
      j.statement = statementFor (target i) → target j = target i) :
    ∀ i ∈ imports, settledStatement target imports i.statement = statementFor (target i) := by
  induction imports using List.reverseRecOn with
  | nil => simp
  | append_singleton front last ih =>
    obtain ⟨hfront, -, hlast⟩ := List.pairwise_append.1 h
    have hall := ih (fun i hi j hj =>
      hsame i (List.mem_append_left [last] hi) j (List.mem_append_left [last] hj)) hfront
    intro i hi
    rw [settledStatement_append]
    rcases List.mem_append.1 hi with hi | hi
    · rw [hall i hi]
      split
      next hmet => rw [hlast i hi last (by simp) hmet.symm]
      next => rfl
    · obtain rfl := List.mem_singleton.1 hi
      split
      next => rfl
      next hdiffer =>
        by_cases hearlier : ∃ j ∈ front, i.statement = j.statement
        · obtain ⟨j, hj, hstatement⟩ := hearlier
          rw [hstatement, hall j hj, hsame i (by simp) j (List.mem_append_left [i] hj) hstatement]
        · exact absurd (settledStatement_of_forall_ne fun j hj hstatement =>
            hearlier ⟨j, hj, hstatement⟩) hdiffer

/-- Every import ends at its own target exactly if no statement that is put in
is that of a later import with another target. -/
theorem settledStatement_eq_iff {imports : List Import}
    (hsame : ∀ i ∈ imports, ∀ j ∈ imports, i.statement = j.statement → target i = target j) :
    (∀ i ∈ imports, settledStatement target imports i.statement = statementFor (target i)) ↔
      imports.Pairwise fun i j => j.statement = statementFor (target i) → target j = target i :=
  ⟨pairwise_of_settled, settled_of_pairwise hsame⟩

end Successive

/-! ## Plain imports -/

/-- A specifier that can stand in quotation marks of either kind, on one line. -/
def Plain (specifier : List Char) : Prop :=
  specifier ≠ [] ∧ ∀ c ∈ specifier, isQuote c = false ∧ c ≠ '\n'

/-- Imports by plain statements, each with a plain target. -/
def PlainImports (target : Import → String) (imports : List Import) : Prop :=
  ∀ i ∈ imports, Plain i.specifier.toList ∧ Plain (target i).toList ∧
    ∃ quote, isQuote quote = true ∧ i.statement.toList = quoted quote i.specifier.toList

theorem Plain.unquoted {specifier : List Char} (h : Plain specifier) : Unquoted specifier :=
  fun c hc => (h.2 c hc).1

theorem toList_statementFor (virtual : String) :
    (statementFor virtual).toList = quoted '"' virtual.toList := by
  simp [statementFor, quoted, keyword]

theorem newline_not_mem_quoted {quote : Char} {specifier : List Char}
    (hquote : isQuote quote = true) (hspecifier : '\n' ∉ specifier) :
    '\n' ∉ quoted quote specifier := by
  intro hmem
  have hne : '\n' ≠ quote := by
    rintro rfl
    exact absurd hquote (by decide)
  simp [quoted, keyword, hspecifier, hne] at hmem

theorem quoted_ne_nil (quote : Char) (specifier : List Char) : quoted quote specifier ≠ [] := by
  simp [quoted]

theorem exists_quoted_of_mem_scan {text : String} {i : Import} (hi : i ∈ scan text) :
    '\n' ∉ i.specifier.toList ∧ i.specifier.toList ≠ [] ∧
      ∃ quote, isQuote quote = true ∧ i.statement.toList = quoted quote i.specifier.toList := by
  obtain ⟨line, hline, hi⟩ := mem_scan_iff.1 hi
  obtain ⟨quote, specifier, hquote, hne, -, htrim, rfl⟩ := ofLine?_eq_some_iff.1 hi
  refine ⟨fun hmem => ?_, by simpa using hne, quote, hquote, by simp⟩
  obtain ⟨pre, post, hparts, -⟩ := exists_trim line
  rw [String.toList_ofList] at hmem
  have hnewline : '\n' ∈ line := by
    rw [hparts, htrim]
    simp [quoted, hmem]
  exact not_mem_of_mem_split hline hnewline

theorem virtualTarget_of_module (r : Resolver) {virtualDir : String} {i : Import}
    (hkind : i.kind = .module) :
    r.virtualTarget virtualDir i = r.modulePrefix ++ "/" ++ i.specifier := by
  rw [virtualTarget, locate, hkind]

theorem virtualTarget_of_relative (r : Resolver) {virtualDir : String} {i : Import}
    (hkind : i.kind = .relative) :
    r.virtualTarget virtualDir i = joinVirtual virtualDir i.specifier := by
  rw [virtualTarget, locate, hkind]

/-- The target has the characters of the directory, of the prefix and of the
specifier, and slashes and dots. -/
theorem forall_mem_virtualTarget (r : Resolver) {P : Char → Prop} (hslash : P '/')
    (hdot : P '.') {virtualDir : String} {i : Import}
    (hdirectory : ∀ c ∈ virtualDir.toList, P c) (hmodule : ∀ c ∈ r.modulePrefix.toList, P c)
    (hi : ∀ c ∈ i.specifier.toList, P c) :
    ∀ c ∈ (r.virtualTarget virtualDir i).toList, P c := by
  have hbehind (front : String) (hfront : ∀ c ∈ front.toList, P c) :
      ∀ c ∈ (front ++ "/" ++ i.specifier).toList, P c := by
    intro c hc
    simp only [String.toList_append, List.mem_append] at hc
    rcases hc with (hc | hc) | hc
    · exact hfront c hc
    · obtain rfl : c = '/' := by simpa using hc
      exact hslash
    · exact hi c hc
  cases hkind : i.kind with
  | module =>
    rw [virtualTarget_of_module r hkind]
    exact hbehind r.modulePrefix hmodule
  | relative =>
    rw [virtualTarget_of_relative r hkind, joinVirtual]
    refine Path.forall_mem_cleanText ?_ hslash hdot
    intro c hc
    rw [String.toList_ofList, List.mem_map] at hc
    obtain ⟨d, hd, rfl⟩ := hc
    split
    next => exact hslash
    next =>
      split at hd
      next => exact hi d hd
      next => exact hbehind virtualDir hdirectory d hd

theorem virtualTarget_ne_nil (r : Resolver) (virtualDir : String) (i : Import) :
    (r.virtualTarget virtualDir i).toList ≠ [] := by
  cases hkind : i.kind with
  | module =>
    rw [virtualTarget_of_module r hkind]
    simp
  | relative =>
    rw [virtualTarget_of_relative r hkind, joinVirtual]
    exact Path.cleanText_ne_empty _

theorem plain_virtualTarget (r : Resolver) {virtualDir : String} {i : Import}
    (hdirectory : ∀ c ∈ virtualDir.toList, isQuote c = false ∧ c ≠ '\n')
    (hmodule : ∀ c ∈ r.modulePrefix.toList, isQuote c = false ∧ c ≠ '\n')
    (hi : Plain i.specifier.toList) : Plain (r.virtualTarget virtualDir i).toList :=
  ⟨virtualTarget_ne_nil r virtualDir i,
    forall_mem_virtualTarget r (by decide) (by decide) hdirectory hmodule hi.2⟩

theorem plainImports_scan (r : Resolver) {virtualDir text : String}
    (hdirectory : ∀ c ∈ virtualDir.toList, isQuote c = false ∧ c ≠ '\n')
    (hmodule : ∀ c ∈ r.modulePrefix.toList, isQuote c = false ∧ c ≠ '\n')
    (hscan : ∀ i ∈ scan text, Unquoted i.specifier.toList) :
    PlainImports (r.virtualTarget virtualDir) (scan text) := by
  intro i hi
  obtain ⟨hnewline, hne, hstatement⟩ := exists_quoted_of_mem_scan hi
  have hplain : Plain i.specifier.toList := by
    refine ⟨hne, fun c hc => ⟨hscan i hi c hc, ?_⟩⟩
    rintro rfl
    exact hnewline hc
  exact ⟨hplain, plain_virtualTarget r hdirectory hmodule hplain, hstatement⟩

theorem PlainImports.eq_of_statement_eq {target : Import → String} {imports : List Import}
    (h : PlainImports target imports) {i j : Import} (hi : i ∈ imports) (hj : j ∈ imports)
    (hstatement : i.statement = j.statement) : i = j := by
  obtain ⟨hplain, -, quote, hquote, hquoted⟩ := h i hi
  obtain ⟨hplain', -, quote', hquote', hquoted'⟩ := h j hj
  have hsame : quoted quote i.specifier.toList = quoted quote' j.specifier.toList := by
    rw [← hquoted, ← hquoted', hstatement]
  have hlist : quoted quote i.specifier.toList <+: quoted quote' j.specifier.toList ++ [] :=
    ⟨[], by rw [hsame]⟩
  obtain ⟨-, hspecifier⟩ := quoted_inj hquote hquote' hplain.unquoted hplain'.unquoted hlist
  obtain ⟨statement, specifier⟩ := i
  simp only at hstatement hspecifier
  rw [hstatement, String.toList_injective hspecifier]

/-! ## Line by line -/

/-- A line with the statements of imports replaced in it, one import after the
other. -/
def redirectLine (target : Import → String) (imports : List Import) (line : List Char) :
    List Char :=
  imports.foldl
    (fun cs i => replaceAll i.statement.toList (statementFor (target i)).toList cs) line

theorem toList_redirect (r : Resolver) (virtualDir text : String) :
    (r.redirect virtualDir text).toList =
      redirectLine (r.virtualTarget virtualDir) (scan text) text.toList := by
  unfold redirect
  generalize scan text = imports
  induction imports generalizing text with
  | nil => rfl
  | cons i rest ih =>
    rw [List.foldl_cons, ih, redirectImport, String.toList_ofList]
    rfl

section Lines

variable {target : Import → String} {imports : List Import}

/-- No import has a statement or a target that breaks the line. -/
def OneLine (target : Import → String) (imports : List Import) : Prop :=
  ∀ i ∈ imports, i.statement.toList ≠ [] ∧ '\n' ∉ i.statement.toList ∧ '\n' ∉ (target i).toList

theorem oneLine_scan {text : String} (htarget : ∀ i ∈ scan text, '\n' ∉ (target i).toList) :
    OneLine target (scan text) := by
  intro i hi
  obtain ⟨hnewline, -, quote, hquote, hquoted⟩ := exists_quoted_of_mem_scan hi
  rw [hquoted]
  exact ⟨quoted_ne_nil quote _, newline_not_mem_quoted hquote hnewline, htarget i hi⟩

/-- Statements are replaced in each line by itself. -/
theorem split_redirectLine (h : OneLine target imports) (cs : List Char) :
    split '\n' (redirectLine target imports cs) =
      (split '\n' cs).map (redirectLine target imports) := by
  induction imports generalizing cs with
  | nil => exact (List.map_id _).symm
  | cons i rest ih =>
    obtain ⟨hne, hstatement, htarget⟩ := h i List.mem_cons_self
    have hput : '\n' ∉ (statementFor (target i)).toList := by
      rw [toList_statementFor]
      exact newline_not_mem_quoted (by decide) htarget
    have hstep := split_replaceAll '\n' hne hstatement hput cs
    have hrest := ih (fun j hj => h j (List.mem_cons_of_mem i hj))
      (replaceAll i.statement.toList (statementFor (target i)).toList cs)
    rw [hstep, List.map_map] at hrest
    exact hrest

/-- Of a line with a plain statement, blanks aside, the statement alone changes. -/
theorem redirectLine_statement (h : PlainImports target imports) {quote : Char}
    {specifier pre post : List Char} (hquote : isQuote quote = true) (hplain : Plain specifier)
    (hpre : ∀ c ∈ pre, isBlank c = true) (hpost : ∀ c ∈ post, isBlank c = true) :
    redirectLine target imports (pre ++ quoted quote specifier ++ post) =
      pre ++ (settledStatement target imports
        (String.ofList (quoted quote specifier))).toList ++ post := by
  induction imports generalizing quote specifier with
  | nil => simp [redirectLine, settledStatement]
  | cons i rest ih =>
    obtain ⟨hplain', htarget, quote', hquote', hquoted⟩ := h i List.mem_cons_self
    have hrest : PlainImports target rest := fun j hj => h j (List.mem_cons_of_mem i hj)
    have hline := replaceAll_line (statementFor (target i)).toList hquote' hquote
      hplain'.unquoted hplain.unquoted hpre hpost
    have hmeets : quoted quote specifier = quoted quote' i.specifier.toList ↔
        String.ofList (quoted quote specifier) = i.statement := by
      rw [← hquoted, ← String.toList_inj, String.toList_ofList]
    have hstatement : String.ofList (quoted '"' (target i).toList) = statementFor (target i) := by
      rw [← toList_statementFor, String.ofList_toList]
    rw [redirectLine, settledStatement, List.foldl_cons, List.foldl_cons, hquoted, hline]
    simp only [hmeets]
    split
    next =>
      have hnext := ih hrest (by decide : isQuote '"' = true) htarget
      rw [hstatement, ← toList_statementFor] at hnext
      exact hnext
    next => exact ih hrest hquote hplain

theorem ofLine?_quoted {quote : Char} {specifier pre post : List Char}
    (hquote : isQuote quote = true) (hplain : Plain specifier)
    (hpre : ∀ c ∈ pre, isBlank c = true) (hpost : ∀ c ∈ post, isBlank c = true) :
    ofLine? (pre ++ quoted quote specifier ++ post) =
      some ⟨String.ofList (quoted quote specifier), String.ofList specifier⟩ :=
  ofLine?_eq_some_iff.2 ⟨quote, specifier, hquote, hplain.1, hplain.unquoted.not_mem hquote,
    trim_quoted hpre hpost, rfl⟩

/-- A line with an import becomes a line with an import of a target; it is that of
the import itself if its statement ends there. -/
theorem ofLine?_redirectLine (h : PlainImports target imports) {line : List Char} {i : Import}
    (hi : i ∈ imports) (hline : ofLine? line = some i) :
    ∃ k ∈ imports, settledStatement target imports i.statement = statementFor (target k) ∧
      (ofLine? (redirectLine target imports line)).map Import.specifier = some (target k) := by
  obtain ⟨quote, specifier, hquote, hne, -, htrim, rfl⟩ := ofLine?_eq_some_iff.1 hline
  obtain ⟨hplain, -⟩ := h _ hi
  rw [String.toList_ofList] at hplain
  obtain ⟨pre, post, hparts, hpre, hpost⟩ := exists_trim line
  obtain ⟨k, hk, hsettled⟩ := exists_settledStatement target hi
  refine ⟨k, hk, hsettled, ?_⟩
  rw [hparts, htrim, redirectLine_statement h hquote hplain hpre hpost, hsettled,
    toList_statementFor, ofLine?_quoted (by decide) (h k hk).2.1 hpre hpost]
  simp

/-! ## Lines that become imports -/

/-- A line that reads as an import, blanks aside, but for the apostrophes that may
stand inside its apostrophes. -/
def Framed (line : List Char) : Prop :=
  ∃ quote inside pre post, isQuote quote = true ∧ inside ≠ [] ∧
    (quote ∈ inside → quote = '\'') ∧ line = pre ++ quoted quote inside ++ post ∧
    (∀ c ∈ pre, isBlank c = true) ∧ ∀ c ∈ post, isBlank c = true

theorem framed_of_ofLine? {line : List Char} {i : Import} (h : ofLine? line = some i) :
    Framed line := by
  obtain ⟨quote, specifier, hquote, hne, hmem, htrim, -⟩ := ofLine?_eq_some_iff.1 h
  obtain ⟨pre, post, hparts, hpre, hpost⟩ := exists_trim line
  rw [htrim] at hparts
  exact ⟨quote, specifier, pre, post, hquote, hne, fun h => absurd h hmem, hparts, hpre, hpost⟩

theorem not_isBlank_of_isQuote {c : Char} (h : isQuote c = true) : ¬ isBlank c = true := by
  intro hblank
  rw [not_isQuote_of_isBlank hblank] at h
  cases h

theorem not_mem_of_blanks {blanks : List Char} (hblanks : ∀ c ∈ blanks, isBlank c = true)
    {c : Char} (hc : isQuote c = true) : c ∉ blanks :=
  fun hmem => not_isBlank_of_isQuote hc (hblanks c hmem)

/-- Two quotation marks are put in, so where no more are, they belong to what is put
in. -/
theorem framed_of_put_in_double {quote : Char} {specifier target front back inside pre post :
    List Char} (hquote : isQuote quote = true) (hplain : Plain specifier) (htarget : Plain target)
    (hinside : '"' ∉ inside) (hpre : ∀ c ∈ pre, isBlank c = true)
    (hpost : ∀ c ∈ post, isBlank c = true)
    (hline : front ++ (quoted '"' target ++
      replaceAll (quoted quote specifier) (quoted '"' target) back) =
        pre ++ quoted '"' inside ++ post) :
    Framed (front ++ (quoted quote specifier ++ back)) := by
  have hmark : isQuote '"' = true := rfl
  have hkeyword : '"' ∉ keyword := unquoted_keyword.not_mem hmark
  have htarget' : '"' ∉ target := htarget.unquoted.not_mem hmark
  have hpre' : '"' ∉ pre := not_mem_of_blanks hpre hmark
  have hcount := congrArg (List.count '"') hline
  simp only [quoted, List.count_append, List.count_cons, List.count_eq_zero.2 hinside,
    List.count_eq_zero.2 htarget', List.count_eq_zero.2 hpre',
    List.count_eq_zero.2 (not_mem_of_blanks hpost hmark)] at hcount
  have hfront : '"' ∉ front := List.count_eq_zero.1 (by simp at hcount; omega)
  have hback : '"' ∉ replaceAll (quoted quote specifier) (quoted '"' target) back :=
    List.count_eq_zero.1 (by simp [quoted] at hcount ⊢; omega)
  have hstart : (front ++ keyword) ++ '"' :: (target ++ '"' :: ';' ::
        replaceAll (quoted quote specifier) (quoted '"' target) back) =
      (pre ++ keyword) ++ '"' :: (inside ++ '"' :: ';' :: post) := by
    simpa [quoted] using hline
  have hfirst : '"' ∉ front ++ keyword := by simp [hfront, hkeyword]
  have hfirst' : '"' ∉ pre ++ keyword := by simp [hpre', hkeyword]
  obtain ⟨hsame, hrest⟩ := append_cons_inj hfirst hfirst' hstart
  obtain ⟨-, hrest⟩ := append_cons_inj htarget' hinside hrest
  obtain rfl := List.append_cancel_right hsame
  obtain rfl := (List.cons.inj hrest).2
  have hkept : replaceAll (quoted quote specifier) (quoted '"' target) back = back := by
    rcases replaceAll_cases (quoted_ne_nil quote specifier) (quoted '"' target) back with
      hsame | ⟨front', back', -, hreplaced⟩
    · exact hsame
    · have hdouble : '"' ∈ quoted '"' target := by simp [quoted]
      exact absurd (by simp [hreplaced, hdouble]) hback
  refine ⟨quote, specifier, front, back, hquote, hplain.1,
    fun hmem => absurd hmem (hplain.unquoted.not_mem hquote), by simp, hpre, ?_⟩
  rwa [hkept] at hpost

/-- No apostrophe is put in, so the outermost two were there before. -/
theorem framed_of_put_in_single {quote : Char} {specifier target front back inside pre post :
    List Char} (htarget : Plain target) (hpre : ∀ c ∈ pre, isBlank c = true)
    (hpost : ∀ c ∈ post, isBlank c = true)
    (hline : front ++ (quoted '"' target ++
      replaceAll (quoted quote specifier) (quoted '"' target) back) =
        pre ++ quoted '\'' inside ++ post) :
    Framed (front ++ (quoted quote specifier ++ back)) := by
  have hmark : isQuote '\'' = true := rfl
  have hother : isQuote '"' = true := rfl
  have hphrase := quoted_ne_nil quote specifier
  have hdouble : '"' ∈ quoted '"' target := by simp [quoted]
  have hsingle : '\'' ∉ quoted '"' target := by
    have htarget' : '\'' ∉ target := htarget.unquoted.not_mem hmark
    simp [quoted, htarget', keyword]
  have hstart : (front ++ quoted '"' target) ++
        replaceAll (quoted quote specifier) (quoted '"' target) back =
      (pre ++ keyword) ++ '\'' :: (inside ++ '\'' :: ';' :: post) := by
    simpa [quoted] using hline
  have hend : (front ++ quoted '"' target) ++
        replaceAll (quoted quote specifier) (quoted '"' target) back =
      (pre ++ keyword ++ '\'' :: inside) ++ '\'' :: ';' :: post := by
    rw [hstart, List.append_assoc, List.append_assoc, List.append_assoc, List.cons_append]
  have hopen : '"' ∉ pre ++ keyword := by
    simp [not_mem_of_blanks hpre hother, unquoted_keyword.not_mem hother]
  have hclose : '"' ∉ ';' :: post := by simp [not_mem_of_blanks hpost hother]
  obtain ⟨beyond, hfront⟩ := exists_of_put_in_after hsingle hdouble hopen hstart
  obtain ⟨beyond', hback⟩ := exists_of_put_in_before hsingle hdouble hclose hend
  obtain ⟨beyond', rfl⟩ := exists_of_replaceAll_eq hphrase hsingle hdouble hclose hback
  refine ⟨'\'', beyond ++ (quoted quote specifier ++ beyond'), pre, post, hmark, ?_,
    fun _ => rfl, ?_, hpre, hpost⟩
  · simp [hphrase]
  · rw [hfront]
    simp [quoted]

theorem framed_of_framed_replaceAll {quote : Char} {specifier target line : List Char}
    (hquote : isQuote quote = true) (hplain : Plain specifier) (htarget : Plain target)
    (h : Framed (replaceAll (quoted quote specifier) (quoted '"' target) line)) :
    Framed line := by
  rcases replaceAll_cases (quoted_ne_nil quote specifier) (quoted '"' target) line with
    hsame | ⟨front, back, rfl, hreplaced⟩
  · rwa [hsame] at h
  obtain ⟨mark, inside, pre, post, hmark, -, hinside, hline, hpre, hpost⟩ := h
  have hcases : mark = '"' ∨ mark = '\'' := by simpa [isQuote] using hmark
  rw [hreplaced] at hline
  rcases hcases with rfl | rfl
  · have hinside' : '"' ∉ inside := fun hmem => absurd (hinside hmem) (by decide)
    exact framed_of_put_in_double hquote hplain htarget hinside' hpre hpost hline
  · exact framed_of_put_in_single htarget hpre hpost hline

theorem framed_of_framed_redirectLine (h : PlainImports target imports) {line : List Char}
    (hframed : Framed (redirectLine target imports line)) : Framed line := by
  induction imports generalizing line with
  | nil => exact hframed
  | cons i rest ih =>
    obtain ⟨hplain, htarget, quote, hquote, hquoted⟩ := h i List.mem_cons_self
    have hnext : Framed (replaceAll i.statement.toList (statementFor (target i)).toList line) :=
      ih (fun j hj => h j (List.mem_cons_of_mem i hj)) hframed
    rw [hquoted, toList_statementFor] at hnext
    exact framed_of_framed_replaceAll hquote hplain htarget hnext

/-- A line that is no import becomes one only if it has apostrophes inside
apostrophes. -/
theorem exists_apostrophe_of_ofLine? (h : PlainImports target imports) {line : List Char}
    (hline : ofLine? line = none)
    (hredirected : ofLine? (redirectLine target imports line) ≠ none) :
    ∃ inside, '\'' ∈ inside ∧ trim line = quoted '\'' inside := by
  obtain ⟨i, hi⟩ := Option.ne_none_iff_exists'.1 hredirected
  obtain ⟨quote, inside, pre, post, hquote, hne, hinside, rfl, hpre, hpost⟩ :=
    framed_of_framed_redirectLine h (framed_of_ofLine? hi)
  have htrim : trim (pre ++ quoted quote inside ++ post) = quoted quote inside :=
    trim_quoted hpre hpost
  by_cases hmem : quote ∈ inside
  · obtain rfl := hinside hmem
    exact ⟨inside, hmem, htrim⟩
  · have hsome := ofLine?_eq_some_iff.2 ⟨quote, inside, hquote, hne, hmem, htrim, rfl⟩
    rw [hline] at hsome
    cases hsome

end Lines

/-! ## Whole texts -/

/-- No statement that is put in for an import is that of a later import with
another target. -/
def Unmistaken (target : Import → String) (imports : List Import) : Prop :=
  imports.Pairwise fun i j => j.statement = statementFor (target i) → target j = target i

/-- No line becomes an import that was none. -/
def KeepsLines (target : Import → String) (text : String) : Prop :=
  ∀ line ∈ split '\n' text.toList, ofLine? line = none →
    ofLine? (redirectLine target (scan text) line) = none

instance (target : Import → String) (imports : List Import) :
    Decidable (Unmistaken target imports) :=
  inferInstanceAs (Decidable (List.Pairwise _ _))

instance (target : Import → String) (text : String) : Decidable (KeepsLines target text) :=
  inferInstanceAs (Decidable (∀ line ∈ _, _))

/-- Two partial maps have the same values along a list only if they agree on it,
once one of them has a value wherever the other has. -/
theorem filterMap_eq_filterMap_iff {α β : Type} {f g : α → Option β} {xs : List α}
    (hsome : ∀ x ∈ xs, (g x).isSome = true → (f x).isSome = true) :
    xs.filterMap f = xs.filterMap g ↔ ∀ x ∈ xs, f x = g x := by
  induction xs with
  | nil => simp
  | cons x xs ih =>
    have hrest : ∀ y ∈ xs, (g y).isSome = true → (f y).isSome = true :=
      fun y hy => hsome y (List.mem_cons_of_mem x hy)
    have hlength : (xs.filterMap g).length ≤ (xs.filterMap f).length := by
      rw [List.length_filterMap_eq_countP, List.length_filterMap_eq_countP]
      exact List.countP_mono_left hrest
    have hhere := hsome x List.mem_cons_self
    rw [List.forall_mem_cons, ← ih hrest, List.filterMap_cons, List.filterMap_cons]
    cases hf : f x with
    | none =>
      cases hg : g x with
      | none => simp
      | some b => simp [hf, hg] at hhere
    | some a =>
      cases hg : g x with
      | none =>
        refine ⟨fun heq => ?_, fun h => absurd h.1 (by simp)⟩
        have := congrArg List.length heq
        simp only [List.length_cons] at this
        omega
      | some b => simp

theorem map_specifier_scan_redirect (r : Resolver) {virtualDir text : String}
    (h : PlainImports (r.virtualTarget virtualDir) (scan text)) :
    (scan (r.redirect virtualDir text)).map Import.specifier =
      (split '\n' text.toList).filterMap fun line =>
        (ofLine? (redirectLine (r.virtualTarget virtualDir) (scan text) line)).map
          Import.specifier := by
  have hlines : OneLine (r.virtualTarget virtualDir) (scan text) :=
    oneLine_scan fun i hi hmem => ((h i hi).2.1.2 '\n' hmem).2 rfl
  rw [map_scan_eq_filterMap, toList_redirect, split_redirectLine hlines, List.filterMap_map]
  rfl

/-- Every import of a redirected text goes to its own target exactly if no put-in
statement is mistaken for another and no line becomes an import. -/
theorem map_specifier_scan_redirect_iff (r : Resolver) {virtualDir text : String}
    (h : PlainImports (r.virtualTarget virtualDir) (scan text)) :
    (scan (r.redirect virtualDir text)).map Import.specifier =
        (scan text).map (r.virtualTarget virtualDir) ↔
      Unmistaken (r.virtualTarget virtualDir) (scan text) ∧
        KeepsLines (r.virtualTarget virtualDir) text := by
  rw [map_specifier_scan_redirect r h, map_scan_eq_filterMap, filterMap_eq_filterMap_iff]
  · rw [Unmistaken, ← settledStatement_eq_iff fun i hi j hj hstatement =>
      congrArg _ (h.eq_of_statement_eq hi hj hstatement)]
    constructor
    · intro hall
      constructor
      · intro i hi
        obtain ⟨line, hline, hsome⟩ := mem_scan_iff.1 hi
        obtain ⟨k, _, hsettled, hspecifier⟩ := ofLine?_redirectLine h hi hsome
        have hsame := hall line hline
        rw [hspecifier, hsome, Option.map_some, Option.some.injEq] at hsame
        rw [hsettled, hsame]
      · intro line hline hnone
        have hsame := hall line hline
        rw [hnone, Option.map_none, Option.map_eq_none_iff] at hsame
        exact hsame
    · rintro ⟨hsettles, hlines⟩ line hline
      cases hline' : ofLine? line with
      | none => rw [hlines line hline hline', Option.map_none, Option.map_none]
      | some i =>
        have hi := mem_scan_iff.2 ⟨line, hline, hline'⟩
        obtain ⟨k, _, hsettled, hspecifier⟩ := ofLine?_redirectLine h hi hline'
        rw [hspecifier, Option.map_some,
          statementFor_inj (hsettled.symm.trans (hsettles i hi))]
  · intro line hline hsome
    obtain ⟨i, hi⟩ := Option.isSome_iff_exists.1 hsome
    obtain ⟨j, hj, rfl⟩ := Option.map_eq_some_iff.1 hi
    obtain ⟨k, _, _, hspecifier⟩ := ofLine?_redirectLine h (mem_scan_iff.2 ⟨line, hline, hj⟩) hj
    rw [hspecifier, Option.isSome_some]

/-! ## Whole sets -/

/-- An import that stands in a place of a set leads to an entry of the set, which
is that of its file, or to a module that is not there. -/
def Bound (r : Resolver) (t : FileTree) (sources : SourceSet) (q : Place) (i : Import) : Prop :=
  Holds r t sources (r.targetOf q i) ∨
    i.kind = .module ∧ t.content? (r.targetOf q i).real = none ∧
      sources.get? (r.targetOf q i).virtual = none

theorem bound_of_resolves {r : Resolver} {t : FileTree} {root : Path}
    (hunconfused : Unconfused r t root) {entered : List Place} {sources : SourceSet}
    (hresolves : Resolves r t root entered (.ok sources)) {q : Place} {text : String}
    (hq : Reachable r t root q) (htext : t.text? q.real = some text) {i : Import}
    (hi : i ∈ scan text) : Bound r t sources q i := by
  have htarget : Reachable r t root (r.targetOf q i) := .imported hq ⟨text, htext, i, hi, rfl⟩
  have hentered := mem_entered_of_reachable hunconfused hresolves hq (.inr (isFile_of_text? htext))
  have hcases : Settled r t sources q i := by
    cases hresolves with
    | succeeds _ hgathers _ =>
      obtain ⟨_, text', htext', hsettled⟩ := (settled_of_gathers hgathers).2 q hentered
      obtain rfl : text = text' := Option.some.inj (htext.symm.trans htext')
      exact hsettled i hi
  by_cases hcontains : sources.contains (r.targetOf q i).virtual = true
  · exact .inl (holds_of_contains hunconfused hresolves htarget hcontains).2
  · obtain ⟨hcontent, hkind⟩ := hcases.resolve_left hcontains
    refine .inr ⟨hkind, hcontent, ?_⟩
    cases hget : sources.get? (r.targetOf q i).virtual with
    | none => rfl
    | some content => exact absurd ((TextMap.contains_iff ..).2 ⟨content, hget⟩) hcontains

/-- The imports of a redirected text are, one by one, those of the text at their
own targets, exactly if no put-in statement is mistaken for that of a later import
and no line becomes an import. Only a line with apostrophes inside apostrophes
becomes one. In a resolved set in which no virtual path is that of two files, the
target of every import is the entry of its file or a module that is not there. -/
theorem imports_keep_targets_iff (r : Resolver)
    (hmodule : ∀ c ∈ r.modulePrefix.toList, isQuote c = false ∧ c ≠ '\n') :
    (∀ virtualDir text, (∀ c ∈ virtualDir.toList, isQuote c = false ∧ c ≠ '\n') →
      (∀ i ∈ scan text, Unquoted i.specifier.toList) →
      ((scan (r.redirect virtualDir text)).map Import.specifier =
          (scan text).map (r.virtualTarget virtualDir) ↔
        Unmistaken (r.virtualTarget virtualDir) (scan text) ∧
          KeepsLines (r.virtualTarget virtualDir) text) ∧
      ∀ line ∈ split '\n' text.toList, ofLine? line = none →
        ofLine? (redirectLine (r.virtualTarget virtualDir) (scan text) line) ≠ none →
        ∃ inside, '\'' ∈ inside ∧ trim line = quoted '\'' inside) ∧
    ∀ t depth root sources, Unconfused r t root → r.resolveWithin t depth root = .ok sources →
      ∀ key content, sources.get? key = some content →
        ∃ q text, Reachable r t root q ∧ q.virtual = key ∧ t.text? q.real = some text ∧
          content = r.redirect (virtualParent key) text ∧
          ∀ i ∈ scan text, (r.targetOf q i).virtual = r.virtualTarget (virtualParent key) i ∧
            Bound r t sources q i := by
  constructor
  · intro virtualDir text hdirectory hscan
    have hplain := plainImports_scan r hdirectory hmodule hscan
    exact ⟨map_specifier_scan_redirect_iff r hplain, fun line _ hline hredirected =>
      exists_apostrophe_of_ofLine? hplain hline hredirected⟩
  · intro t depth root sources hunconfused hresolve key content hget
    obtain ⟨entered, hresolves⟩ := resolves_of_resolveWithin hresolve (ends_ok sources)
    obtain ⟨q, hq, rfl, text, htext, hcontent⟩ := exists_entered_of_get? hresolves hget
    have hreachable := reachable_of_traced (traced_of_resolves hresolves) (by simp) q hq
    exact ⟨q, text, hreachable, rfl, htext, hcontent, fun i hi =>
      ⟨locate_virtual .., bound_of_resolves hunconfused hresolves hreachable htext hi⟩⟩

theorem circle_imports_keep_targets :
    (∀ c ∈ (ofModuleDir ⟨"/m"⟩).modulePrefix.toList, isQuote c = false ∧ c ≠ '\n') ∧
      (scan ((ofModuleDir ⟨"/m"⟩).redirect "" "import \"./A.sol\";\nimport 'm/X.sol';\n")).map
          Import.specifier =
        (scan "import \"./A.sol\";\nimport 'm/X.sol';\n").map
          ((ofModuleDir ⟨"/m"⟩).virtualTarget "") ∧
      ∃ sources, (ofModuleDir ⟨"/m"⟩).resolveWithin circle 3 ⟨"/c"⟩ = .ok sources ∧
        ∀ key content, sources.get? key = some content →
          ∃ q text, q.virtual = key ∧ circle.text? q.real = some text ∧
            ∀ i ∈ scan text, Bound (ofModuleDir ⟨"/m"⟩) circle sources q i := by
  have hmodule : ∀ c ∈ (ofModuleDir ⟨"/m"⟩).modulePrefix.toList, isQuote c = false ∧ c ≠ '\n' := by
    have hplain : (ofModuleDir ⟨"/m"⟩).modulePrefix.toList.all
        (fun c => !isQuote c && c != '\n') = true := by
      decide +kernel
    simpa using hplain
  obtain ⟨hredirect, hsets⟩ := imports_keep_targets_iff (ofModuleDir ⟨"/m"⟩) hmodule
  refine ⟨hmodule, ?_, ?_⟩
  · refine (hredirect "" _ (by simp) ?_).1.2 ⟨?_, ?_⟩
    · decide +kernel
    · decide +kernel
    · decide +kernel
  · obtain ⟨sources, hresolve⟩ := circle_resolves
    refine ⟨sources, hresolve, fun key content hget => ?_⟩
    obtain ⟨q, text, -, hkey, htext, -, hbound⟩ :=
      hsets circle 3 ⟨"/c"⟩ sources unconfused_circle hresolve key content hget
    exact ⟨q, text, hkey, htext, fun i hi => (hbound i hi).2⟩

/-- The second import of this text is mistaken for the first, once that has been
redirected. -/
example :
    (ofModuleDir ⟨"/m"⟩).redirect "" "import \"./a.sol\";\nimport \"a.sol\";\n" =
      "import \"node_modules/a.sol\";\nimport \"node_modules/a.sol\";\n" := by
  decide +kernel

end SolidityBuild.Resolver
