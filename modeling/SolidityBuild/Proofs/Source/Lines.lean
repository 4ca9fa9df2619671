import SolidityBuild.Proofs.Compiler.Offset
import SolidityBuild.Proofs.Source.Redirect

/-!
Lines of redirected texts. Statements are replaced in the whole text, but neither
they nor what is put in for them break a line, so every line of a redirected text
is the line with the same number, redirected by itself. The lines that reports
quote from a source are therefore those of its file.
-/

namespace SolidityBuild

open Text Import

/-! ## Quoted lines -/

namespace Compiler

variable {content shown : String} {start stop : Int} {n : Nat}

theorem exists_content_of_mem_excerpt {d : Diagnostic} {sources : SourceSet}
    {location : SourceLocation} (hlocation : d.sourceLocation = some location)
    (h : (n, shown) ∈ d.excerpt sources) :
    ∃ content, sources.get? location.file = some content ∧
      (n, shown) ∈ sourceLines content location.start location.stop := by
  rw [Diagnostic.excerpt, hlocation] at h
  cases hget : sources.get? location.file with
  | none => simp [hget] at h
  | some content => exact ⟨content, rfl, by simpa [hget] using h⟩

end Compiler

namespace Resolver

open Compiler (Diagnostic SourceLocation)

section

variable {target : Import → String} {imports : List Import} {line : List Char}

/-- A line with none of the statements in it is left alone. -/
theorem redirectLine_of_forall_not_infix
    (h : ∀ i ∈ imports, ¬ i.statement.toList <:+: line) :
    redirectLine target imports line = line := by
  induction imports with
  | nil => rfl
  | cons i rest ih =>
    rw [redirectLine, List.foldl_cons, replaceAll_of_not_infix (h i List.mem_cons_self)]
    exact ih fun j hj => h j (List.mem_cons_of_mem i hj)

end

theorem mem_of_mem_virtualParent {virtual : String} {c : Char}
    (h : c ∈ (virtualParent virtual).toList) : c ∈ virtual.toList := by
  rw [virtualParent, String.toList_ofList, List.mem_reverse] at h
  exact List.mem_reverse.1 (List.dropWhile_subset _ (List.mem_of_mem_drop h))

section

variable {r : Resolver} {virtualDir text : String}

theorem split_redirect (hmodule : '\n' ∉ r.modulePrefix.toList)
    (hdirectory : '\n' ∉ virtualDir.toList) :
    split '\n' (r.redirect virtualDir text).toList =
      (split '\n' text.toList).map
        (redirectLine (r.virtualTarget virtualDir) (scan text)) := by
  have hne {cs : List Char} (h : '\n' ∉ cs) : ∀ c ∈ cs, c ≠ '\n' :=
    fun c hc heq => h (heq ▸ hc)
  rw [toList_redirect, split_redirectLine (oneLine_scan fun i hi hmem => ?_)]
  have hspecifier := (exists_quoted_of_mem_scan hi).1
  exact forall_mem_virtualTarget r (by decide) (by decide) (hne hdirectory) (hne hmodule)
    (hne hspecifier) '\n' hmem rfl

theorem count_redirect (hmodule : '\n' ∉ r.modulePrefix.toList)
    (hdirectory : '\n' ∉ virtualDir.toList) :
    (r.redirect virtualDir text).toList.count '\n' = text.toList.count '\n' := by
  have hlength : (split '\n' (r.redirect virtualDir text).toList).length =
      (split '\n' text.toList).length := by
    rw [split_redirect hmodule hdirectory, List.length_map]
  rw [length_split, length_split] at hlength
  exact Nat.succ.inj hlength

end

/-- A redirected text has as many newlines as the text. Each of its lines is the
line with the same number, with the statements of the imports replaced in it one
after the other, and is that line itself, its blanks included, if none of the
statements stands in it. So the lines that a diagnostic quotes from a source of a
resolved set have the numbers that they have in the file. -/
theorem redirect_keeps_lines (r : Resolver) (hmodule : '\n' ∉ r.modulePrefix.toList) :
    (∀ virtualDir text, '\n' ∉ virtualDir.toList →
      (r.redirect virtualDir text).toList.count '\n' = text.toList.count '\n' ∧
      split '\n' (r.redirect virtualDir text).toList =
        (split '\n' text.toList).map
          (redirectLine (r.virtualTarget virtualDir) (scan text)) ∧
      ∀ (k : Nat) line, (split '\n' text.toList)[k]? = some line →
        (∀ i ∈ scan text, ¬ i.statement.toList <:+: line) →
        (split '\n' (r.redirect virtualDir text).toList)[k]? = some line) ∧
    ∀ t depth root sources, r.resolveWithin t depth root = .ok sources →
      ∀ (d : Diagnostic) location, d.sourceLocation = some location →
        '\n' ∉ location.file.toList → ∀ n shown, (n, shown) ∈ d.excerpt sources →
        ∃ q text k line, Reachable r t root q ∧ q.virtual = location.file ∧
          t.text? q.real = some text ∧ n = k + 1 ∧ (split '\n' text.toList)[k]? = some line ∧
          shown = String.ofList (trim
            (redirectLine (r.virtualTarget (virtualParent location.file)) (scan text) line)) := by
  constructor
  · intro virtualDir text hdirectory
    refine ⟨count_redirect hmodule hdirectory, split_redirect hmodule hdirectory, ?_⟩
    intro k line hline hnone
    rw [split_redirect hmodule hdirectory, List.getElem?_map, hline, Option.map_some,
      redirectLine_of_forall_not_infix hnone]
  · intro t depth root sources hresolve d location hlocation hfile n shown hshown
    obtain ⟨content, hget, hquoted⟩ := Compiler.exists_content_of_mem_excerpt hlocation hshown
    obtain ⟨entered, hresolves⟩ := resolves_of_resolveWithin hresolve (ends_ok sources)
    obtain ⟨q, hq, hkey, text, htext, rfl⟩ := exists_entered_of_get? hresolves hget
    have hreachable := reachable_of_traced (traced_of_resolves hresolves) (by simp) q hq
    obtain ⟨k, line, rfl, hline, rfl⟩ := Compiler.exists_line_of_mem_sourceLines hquoted
    have hdirectory : '\n' ∉ (virtualParent location.file).toList :=
      fun hmem => hfile (mem_of_mem_virtualParent hmem)
    rw [contentOf, hkey, split_redirect hmodule hdirectory, List.getElem?_map,
      Option.map_eq_some_iff] at hline
    obtain ⟨before, hbefore, rfl⟩ := hline
    exact ⟨q, text, k, before, hreachable, hkey, htext, rfl, hbefore, rfl⟩

/-- A complaint about the first line of a file of the circle. -/
def circleComplaint : Diagnostic :=
  ⟨.warning, "", none, none, none, none, some ⟨"A.sol", 0, 6⟩⟩

theorem circle_keeps_lines :
    '\n' ∉ (ofModuleDir ⟨"/m"⟩).modulePrefix.toList ∧
      ((ofModuleDir ⟨"/m"⟩).redirect "" " import './B.sol';\r\n// 'm'\n").toList.count '\n' = 2 ∧
      (split '\n' ((ofModuleDir ⟨"/m"⟩).redirect ""
        " import './B.sol';\r\n// 'm'\n").toList)[1]? = some "// 'm'".toList ∧
      ∃ sources, (ofModuleDir ⟨"/m"⟩).resolveWithin circle 3 ⟨"/c"⟩ = .ok sources ∧
        (1, "import \"B.sol\";") ∈ circleComplaint.excerpt sources ∧
        ∃ (q : Place) (text : String) (line : List Char), q.virtual = "A.sol" ∧
          circle.text? q.real = some text ∧ (split '\n' text.toList)[0]? = some line ∧
          "import \"B.sol\";" = String.ofList (trim
            (redirectLine ((ofModuleDir ⟨"/m"⟩).virtualTarget (virtualParent "A.sol"))
              (scan text) line)) := by
  have hmodule : '\n' ∉ (ofModuleDir ⟨"/m"⟩).modulePrefix.toList := by decide +kernel
  obtain ⟨htexts, hsets⟩ := redirect_keeps_lines (ofModuleDir ⟨"/m"⟩) hmodule
  obtain ⟨hcount, -, hkept⟩ := htexts "" " import './B.sol';\r\n// 'm'\n" (by decide)
  obtain ⟨sources, hresolve⟩ := circle_resolves
  have hexcerpt : ((ofModuleDir ⟨"/m"⟩).resolveWithin circle 3 ⟨"/c"⟩).toOption.map
      circleComplaint.excerpt = some [(1, "import \"B.sol\";")] := by
    decide +kernel
  rw [hresolve] at hexcerpt
  have hmem : (1, "import \"B.sol\";") ∈ circleComplaint.excerpt sources := by
    rw [Option.some.inj hexcerpt]
    exact List.mem_singleton_self _
  obtain ⟨q, text, k, line, -, hvirtual, htext, hk, hline, hshown⟩ :=
    hsets circle 3 ⟨"/c"⟩ sources hresolve circleComplaint _ rfl (by decide) 1 _ hmem
  obtain rfl : k = 0 := (Nat.succ.inj hk).symm
  refine ⟨hmodule, hcount.trans (by decide), hkept 1 _ (by decide +kernel) ?_, sources, hresolve,
    hmem, q, text, line, hvirtual, htext, hline, hshown⟩
  have hscan : scan " import './B.sol';\r\n// 'm'\n" = [⟨"import './B.sol';", "./B.sol"⟩] := by
    decide +kernel
  rw [hscan, List.forall_mem_singleton]
  decide

end Resolver

end SolidityBuild
