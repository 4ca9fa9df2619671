import SolidityBuild.Proofs.Source.Run

/-!
What a resolved set holds. Under each of its virtual paths stands the redirected
text of a file that was entered under that path, and every file that is entered
was found on the walk or is imported by a file entered before it. The redirected
text depends on the text, the virtual path and the module prefix alone, so no
placeholder is left unless it is itself the redirected text of its file.
-/

namespace SolidityBuild.Resolver

open Text (replaceAll)

/-- One place imports another if an import in its text leads there. -/
def Imports (r : Resolver) (t : FileTree) (p q : Place) : Prop :=
  ∃ text, t.text? p.real = some text ∧ ∃ i ∈ Import.scan text, r.targetOf p i = q

/-- Each place of a list is one of `starts`, or imported by a place that is
`known` or stands before it. -/
def Traced (r : Resolver) (t : FileTree) (starts : List Place) :
    (known : List Place) → List Place → Prop
  | _, [] => True
  | known, q :: rest =>
    (q ∈ starts ∨ ∃ p ∈ known, Imports r t p q) ∧ Traced r t starts (q :: known) rest

/-- A set holds a place if what is kept for its text stands under its virtual
path. -/
def Holds (r : Resolver) (t : FileTree) (sources : SourceSet) (q : Place) : Prop :=
  ∃ text, t.text? q.real = some text ∧ sources.get? q.virtual = some (r.contentOf q text)

variable {r : Resolver} {t : FileTree}

theorem text?_of_content? {path : Path} {text : String}
    (hcontent : t.content? path = some (.text text)) : t.text? path = some text := by
  rw [FileTree.text?, hcontent]
  rfl

theorem content?_of_text? {path : Path} {text : String} (htext : t.text? path = some text) :
    t.content? path = some (.text text) := by
  rw [FileTree.text?] at htext
  obtain ⟨content, hcontent, hvalue⟩ := Option.bind_eq_some_iff.1 htext
  cases content with
  | text s => rw [hcontent, Option.some.inj hvalue]
  | binary bytes => cases hvalue

theorem imports_of_mem {p : Place} {i : Import} {imports : List Import} {text : String}
    (htext : t.text? p.real = some text) (hscanned : imports ⊆ Import.scan text)
    (hi : i ∈ imports) : Imports r t p (r.targetOf p i) :=
  ⟨text, htext, i, hscanned hi, rfl⟩

/-! ## Where the entered places come from -/

theorem Traced.mono {starts known known' places : List Place}
    (h : Traced r t starts known places) (hknown : known ⊆ known') :
    Traced r t starts known' places := by
  induction places generalizing known known' with
  | nil => trivial
  | cons q rest ih =>
    obtain ⟨horigin, hrest⟩ := h
    refine ⟨?_, ih hrest (List.cons_subset_cons q hknown)⟩
    rcases horigin with hstart | ⟨p, hp, himports⟩
    · exact .inl hstart
    · exact .inr ⟨p, hknown hp, himports⟩

theorem Traced.append {starts known front back : List Place}
    (hfront : Traced r t starts known front) (hback : Traced r t starts known back) :
    Traced r t starts known (front ++ back) := by
  induction front generalizing known with
  | nil => exact hback
  | cons q rest ih =>
    exact ⟨hfront.1, ih hfront.2 (hback.mono (List.subset_cons_self q known))⟩

theorem traced_of_follows (starts : List Place) {p : Place} {imports : List Import}
    {sources : SourceSet} {entered : List Place} {outcome : Except ResolveError SourceSet}
    (hfollows : Follows r t p imports sources entered outcome) {text : String}
    (htext : t.text? p.real = some text) (hscanned : imports ⊆ Import.scan text)
    {known : List Place} (hp : p ∈ known) : Traced r t starts known entered := by
  induction hfollows generalizing text known with
  | done => trivial
  | known _ _ ih => exact ih htext (List.subset_of_cons_subset hscanned) hp
  | absent _ _ _ _ ih => exact ih htext (List.subset_of_cons_subset hscanned) hp
  | missing _ _ _ => trivial
  | unreadable _ _ => trivial
  | @enters p i _ _ _ _ _ _ _ _ _ hcontent horder _ _ ihinside ihrest =>
    have himports := imports_of_mem (r := r) htext hscanned List.mem_cons_self
    have hinner := ihinside (text?_of_content? hcontent) horder.subset
      (List.mem_cons_self (a := r.targetOf p i) (l := known))
    have houter := ihrest htext (List.subset_of_cons_subset hscanned)
      (List.mem_cons_of_mem (r.targetOf p i) hp)
    exact ⟨.inr ⟨p, hp, himports⟩, hinner.append houter⟩
  | @fails p i _ _ _ _ _ _ _ hcontent horder _ ihinside =>
    have himports := imports_of_mem (r := r) htext hscanned List.mem_cons_self
    have hinner := ihinside (text?_of_content? hcontent) horder.subset
      (List.mem_cons_self (a := r.targetOf p i) (l := known))
    exact ⟨.inr ⟨p, hp, himports⟩, hinner⟩

theorem traced_of_gathers {starts places : List Place} {sources : SourceSet}
    {entered : List Place} {outcome : Except ResolveError SourceSet}
    (hgathers : Gathers r t places sources entered outcome) (hstarts : places ⊆ starts)
    (known : List Place) : Traced r t starts known entered := by
  induction hgathers generalizing known with
  | done => trivial
  | unreadable _ => trivial
  | @adds p _ _ _ _ _ _ _ _ htext horder hinside _ ihrest =>
    have hinner := traced_of_follows starts hinside htext horder.subset
      (List.mem_cons_self (a := p) (l := known))
    have houter := ihrest (List.subset_of_cons_subset hstarts) (p :: known)
    exact ⟨.inl (hstarts List.mem_cons_self), hinner.append houter⟩
  | fails htext horder hinside =>
    exact ⟨.inl (hstarts List.mem_cons_self),
      traced_of_follows starts hinside htext horder.subset List.mem_cons_self⟩

theorem traced_of_resolves {root : Path} {entered : List Place}
    {outcome : Except ResolveError SourceSet} (hresolves : Resolves r t root entered outcome) :
    Traced r t (walkedPlaces t root) [] entered := by
  cases hresolves with
  | succeeds horder hgathers _ => exact traced_of_gathers hgathers horder.subset []
  | breaksOff horder hgathers _ => exact traced_of_gathers hgathers horder.subset []
  | fails horder hgathers => exact traced_of_gathers hgathers horder.subset []

/-! ## What stands under a virtual path -/

/-- What a run does to the entry of a virtual path: it is as before, or it is
that of a place that was entered. -/
def Accounted (r : Resolver) (t : FileTree) (before after : SourceSet)
    (entered : List Place) : Prop :=
  ∀ key, after.get? key = before.get? key ∨ ∃ q ∈ entered, q.virtual = key ∧ Holds r t after q

theorem Accounted.refl (sources : SourceSet) : Accounted r t sources sources [] :=
  fun _ => .inl rfl

theorem Accounted.trans {first second third : SourceSet} {inner outer : List Place}
    (hinner : Accounted r t first second inner) (houter : Accounted r t second third outer) :
    Accounted r t first third (inner ++ outer) := by
  intro key
  rcases houter key with hkept | ⟨q, hq, hkey, hholds⟩
  · rcases hinner key with hkept' | ⟨q, hq, hkey, text, htext, hget⟩
    · exact .inl (hkept.trans hkept')
    · subst hkey
      exact .inr ⟨q, List.mem_append_left outer hq, rfl, text, htext, hkept.trans hget⟩
  · exact .inr ⟨q, List.mem_append_right inner hq, hkey, hholds⟩

/-- The placeholder of a place that is entered does not outlive it: the content
that is put in its place accounts for the whole visit. -/
theorem Accounted.close {before between : SourceSet} {inner : List Place} {q : Place}
    {text : String} (htext : t.text? q.real = some text)
    (hinner : ∀ key, key ≠ q.virtual → between.get? key = before.get? key ∨
      ∃ p ∈ inner, p.virtual = key ∧ Holds r t between p) :
    Accounted r t before (between.insert q.virtual (r.contentOf q text)) (q :: inner) := by
  intro key
  by_cases hkey : key = q.virtual
  · exact .inr ⟨q, List.mem_cons_self, hkey.symm, text, htext, TextMap.get?_insert_self ..⟩
  · have hget := TextMap.get?_insert_of_ne between hkey (r.contentOf q text)
    rcases hinner key hkey with hkept | ⟨p, hp, hvirtual, text', htext', hget'⟩
    · exact .inl (hget.trans hkept)
    · subst hvirtual
      exact .inr ⟨p, List.mem_cons_of_mem q hp, rfl, text', htext', hget.trans hget'⟩

theorem accounted_of_follows {p : Place} {imports : List Import} {sources after : SourceSet}
    {entered : List Place} (hfollows : Follows r t p imports sources entered (.ok after)) :
    Accounted r t sources after entered := by
  generalize houtcome : Except.ok after = outcome at hfollows
  induction hfollows generalizing after with
  | done =>
    cases houtcome
    exact .refl _
  | known _ _ ih => exact ih houtcome
  | absent _ _ _ _ ih => exact ih houtcome
  | missing _ _ _ => cases houtcome
  | unreadable _ _ => cases houtcome
  | @enters p i _ _ sources between text inner _ _ _ hcontent _ _ _ ihinside ihrest =>
    have hinner := ihinside rfl
    have hclosed : Accounted r t sources
        (between.insert (r.targetOf p i).virtual (r.contentOf (r.targetOf p i) text))
        (r.targetOf p i :: inner) := by
      refine Accounted.close (text?_of_content? hcontent) fun key hkey => ?_
      have hkept := hinner key
      rw [TextMap.get?_insert_of_ne sources hkey pending] at hkept
      exact hkept
    exact hclosed.trans (ihrest houtcome)
  | fails _ _ _ _ _ => cases houtcome

theorem accounted_of_gathers {places : List Place} {sources after : SourceSet}
    {entered : List Place} (hgathers : Gathers r t places sources entered (.ok after)) :
    Accounted r t sources after entered := by
  generalize houtcome : Except.ok after = outcome at hgathers
  induction hgathers generalizing after with
  | done =>
    cases houtcome
    exact .refl _
  | unreadable _ => cases houtcome
  | adds htext _ hinside _ ihrest =>
    have hinner := accounted_of_follows hinside
    exact (Accounted.close htext fun key _ => hinner key).trans (ihrest houtcome)
  | fails _ _ _ => cases houtcome

/-- Every entry of a resolved set is that of a place which was entered. -/
theorem exists_entered_of_get? {root : Path} {entered : List Place} {sources : SourceSet}
    (hresolves : Resolves r t root entered (.ok sources)) {key content : String}
    (hget : sources.get? key = some content) :
    ∃ q ∈ entered, q.virtual = key ∧
      ∃ text, t.text? q.real = some text ∧ content = r.contentOf q text := by
  cases hresolves with
  | succeeds _ hgathers _ =>
    rcases accounted_of_gathers hgathers key with hkept | ⟨q, hq, hkey, text, htext, hcontent⟩
    · rw [hget, TextMap.get?_empty] at hkept
      cases hkept
    · subst hkey
      rw [hget] at hcontent
      exact ⟨q, hq, rfl, text, htext, Option.some.inj hcontent⟩

/-! ## What the redirected text depends on -/

theorem virtualTarget_congr {r' : Resolver} (hmodule : r'.modulePrefix = r.modulePrefix) :
    r'.virtualTarget = r.virtualTarget := by
  funext virtualDir i
  unfold virtualTarget locate
  rw [hmodule]
  cases i.kind <;> rfl

/-- One import after the other, in the order in which they are scanned, has every
occurrence of its statement replaced by the import of its virtual path. -/
theorem redirect_eq_foldl (r : Resolver) (virtualDir text : String) :
    r.redirect virtualDir text =
      (Import.scan text).foldl (fun rest i => String.ofList
        (replaceAll i.statement.toList (statementFor (r.virtualTarget virtualDir i)).toList
          rest.toList)) text := rfl

theorem redirect_congr {r' : Resolver} (hmodule : r'.modulePrefix = r.modulePrefix) :
    r'.redirect = r.redirect := by
  funext virtualDir text
  rw [redirect_eq_foldl, redirect_eq_foldl, virtualTarget_congr hmodule]

/-- Every entry of a resolved set is the redirected text of a readable file that
the run entered under the key of the entry. Each file that it entered was found
on the walk or is imported by one entered before. A text is redirected by its
imports, in the order in which they are scanned: every occurrence of the
statement of each is replaced by the import of its virtual path. The redirected
text is the same for all resolvers with one module prefix. -/
theorem content_eq_redirect (r : Resolver) (t : FileTree) (depth : Nat) (root : Path)
    (sources : SourceSet) (hresolve : r.resolveWithin t depth root = .ok sources) :
    (∃ entered, Resolves r t root entered (.ok sources) ∧
      Traced r t (walkedPlaces t root) [] entered ∧
      ∀ key content, sources.get? key = some content →
        ∃ q ∈ entered, q.virtual = key ∧
          ∃ text, t.text? q.real = some text ∧
            content = r.redirect (virtualParent key) text) ∧
    (∀ virtualDir text, r.redirect virtualDir text =
      (Import.scan text).foldl (fun rest i => String.ofList
        (replaceAll i.statement.toList (statementFor (r.virtualTarget virtualDir i)).toList
          rest.toList)) text) ∧
    ∀ r' : Resolver, r'.modulePrefix = r.modulePrefix → r'.redirect = r.redirect := by
  obtain ⟨entered, hresolves⟩ := resolves_of_resolveWithin hresolve (ends_ok sources)
  refine ⟨⟨entered, hresolves, traced_of_resolves hresolves, ?_⟩, r.redirect_eq_foldl,
    fun _ => redirect_congr⟩
  intro key content hget
  obtain ⟨q, hq, hkey, text, htext, hcontent⟩ := exists_entered_of_get? hresolves hget
  exact ⟨q, hq, hkey, text, htext, by rw [hcontent, contentOf, hkey]⟩

/-- Two files that import each other, and a module that is not there. -/
def circle : FileTree :=
  ⟨[(["c"], .directory),
    (["c", "A.sol"], .file (.text "import './B.sol';\n") false),
    (["c", "B.sol"], .file (.text "import \"./A.sol\";\nimport \"m/X.sol\";\n") false)]⟩

theorem ok_of_toOption {ε α : Type} {outcome : Except ε α} {a : α}
    (h : outcome.toOption = some a) : outcome = .ok a := by
  cases outcome with
  | error e => cases h
  | ok b => rw [Option.some.inj h]

theorem circle_resolves :
    ∃ sources, (ofModuleDir ⟨"/m"⟩).resolveWithin circle 3 ⟨"/c"⟩ = .ok sources := by
  have hsome : ((ofModuleDir ⟨"/m"⟩).resolveWithin circle 3 ⟨"/c"⟩).toOption.isSome = true := by
    decide +kernel
  obtain ⟨sources, hsources⟩ := Option.isSome_iff_exists.1 hsome
  exact ⟨sources, ok_of_toOption hsources⟩

theorem content_of_circle :
    ∃ sources, (ofModuleDir ⟨"/m"⟩).resolveWithin circle 3 ⟨"/c"⟩ = .ok sources ∧
      ∃ entered, Resolves (ofModuleDir ⟨"/m"⟩) circle ⟨"/c"⟩ entered (.ok sources) ∧
        Traced (ofModuleDir ⟨"/m"⟩) circle (walkedPlaces circle ⟨"/c"⟩) [] entered ∧
        ∀ key content, sources.get? key = some content →
          ∃ q ∈ entered, q.virtual = key ∧
            ∃ text, circle.text? q.real = some text ∧
              content = (ofModuleDir ⟨"/m"⟩).redirect (virtualParent key) text := by
  obtain ⟨sources, hresolve⟩ := circle_resolves
  exact ⟨sources, hresolve,
    (content_eq_redirect (ofModuleDir ⟨"/m"⟩) circle 3 ⟨"/c"⟩ sources hresolve).1⟩

end SolidityBuild.Resolver
