import SolidityBuild.Proofs.FileTree
import SolidityBuild.Proofs.Source.Contents

/-!
The directories of a place, real and virtual, as stacks of names. What a
relative import does to both is the same: it takes names back and puts others in
their place. Above the root the two differ, since there the real path has
nothing to take back and the virtual one is left with a `..`.
-/

namespace SolidityBuild.Resolver

open SolidityBuild.Path FileTree

/-! ## Virtual directories -/

/-- A text with its backslashes as slashes. -/
def slashed (text : String) : String :=
  String.ofList (text.toList.map fun c => if c = '\\' then '/' else c)

theorem slashed_append (front back : String) :
    slashed (front ++ back) = slashed front ++ slashed back := by
  apply String.toList_injective
  simp [slashed]

theorem slashed_eq_self {text : String} (h : '\\' ∉ text.toList) : slashed text = text := by
  apply String.toList_injective
  rw [slashed, String.toList_ofList, List.map_congr_left (g := id), List.map_id]
  intro c hc
  rw [if_neg]
  · rfl
  · rintro rfl
    exact h hc

theorem backslash_not_mem_slashed (text : String) : '\\' ∉ (slashed text).toList := by
  rw [slashed, String.toList_ofList, List.mem_map]
  rintro ⟨c, -, hc⟩
  split at hc
  next => exact absurd hc (by decide)
  next hne => exact hne hc

theorem backslash_not_mem_segment {text s : String} (h : '\\' ∉ text.toList)
    (hs : s ∈ segmentsOf text) : '\\' ∉ s.toList := by
  obtain ⟨piece, hpiece, rfl⟩ := List.mem_map.1 hs
  rw [String.toList_ofList]
  exact fun hmem => h (Text.mem_of_mem_split hpiece hmem)

theorem virtualParent_eq (virtual : String) :
    virtualParent virtual = joinSegments (segmentsOf virtual).dropLast := by
  by_cases hslash : '/' ∈ virtual.toList
  · obtain ⟨back, front, hreverse, hback⟩ := List.eq_append_cons_of_mem
      (List.mem_reverse.2 hslash)
    have hvirtual : virtual = String.ofList front.reverse ++ "/" ++ String.ofList back.reverse := by
      apply String.toList_injective
      rw [← List.reverse_reverse virtual.toList, hreverse]
      simp
    have hlast := segmentsOf_of_slash_not_mem (by simpa using hback :
      '/' ∉ (String.ofList back.reverse).toList)
    have hdrop : virtual.toList.reverse.dropWhile (· ≠ '/') = '/' :: front := by
      rw [hreverse, List.dropWhile_append_of_pos, List.dropWhile_cons_of_neg (by simp)]
      intro c hc
      have hne : c ≠ '/' := by
        rintro rfl
        exact hback hc
      simpa using hne
    rw [virtualParent, hdrop, List.drop_succ_cons, List.drop_zero]
    conv => rhs; rw [hvirtual, segmentsOf_append_slash, hlast, List.dropLast_concat]
    rw [joinSegments_segmentsOf]
  · have hsegments := segmentsOf_of_slash_not_mem hslash
    have hdrop : virtual.toList.reverse.dropWhile (· ≠ '/') = [] := by
      have hall : ∀ c ∈ virtual.toList.reverse, decide (c ≠ '/') = true := by
        intro c hc
        have hne : c ≠ '/' := by
          rintro rfl
          exact hslash (List.mem_reverse.1 hc)
        simpa using hne
      rw [← List.append_nil virtual.toList.reverse, List.dropWhile_append_of_pos hall]
      rfl
    rw [virtualParent, hdrop, hsegments]
    rfl

/-- Whether the virtual directory of a place is taken from the root. -/
def virtualRooted (p : Place) : Bool := isRooted (slashed (virtualParent p.virtual))

/-- The virtual directory of a place, the innermost name first. -/
def virtualStack (p : Place) : List String :=
  (segmentsOf (slashed (virtualParent p.virtual))).foldl (cleanStep (virtualRooted p)) []

theorem virtualRooted_eq (p : Place) :
    virtualRooted p = isRooted (slashed (virtualParent p.virtual)) := rfl

theorem virtualStack_eq (p : Place) :
    virtualStack p = (segmentsOf (slashed (virtualParent p.virtual))).foldl
      (cleanStep (virtualRooted p)) [] := rfl

-- their values are read off these equations only
attribute [irreducible] virtualRooted virtualStack

/-- Names without separators of either kind. -/
def Unslashed (stack : List String) : Prop := Named stack ∧ ∀ s ∈ stack, '\\' ∉ s.toList

theorem Unslashed.tail {name : String} {stack : List String} (h : Unslashed (name :: stack)) :
    Unslashed stack :=
  ⟨fun s hs => h.1 s (List.mem_cons_of_mem name hs),
    fun s hs => h.2 s (List.mem_cons_of_mem name hs)⟩

theorem unslashed_foldl (rooted : Bool) {done : List String} {text : String}
    (hdone : Unslashed done) (htext : '\\' ∉ text.toList) :
    Unslashed ((segmentsOf text).foldl (cleanStep rooted) done) := by
  refine ⟨named_foldl hdone.1 fun s hs => slash_not_mem_of_mem_segmentsOf hs, fun s hs => ?_⟩
  rcases mem_of_mem_foldl_cleanStep hs with hs | ⟨hs, -⟩
  · exact hdone.2 s hs
  · exact backslash_not_mem_segment htext hs

theorem unslashed_nil : Unslashed [] := by
  constructor <;> intro s hs <;> cases hs

theorem unslashed_virtualStack (p : Place) : Unslashed (virtualStack p) := by
  rw [virtualStack_eq]
  exact unslashed_foldl _ unslashed_nil (backslash_not_mem_slashed _)

theorem cleanStack_virtualStack (p : Place) : CleanStack (virtualRooted p) (virtualStack p) := by
  rw [virtualStack_eq]
  exact cleanStack_foldl (.nil _) _

theorem backslash_not_mem_render (rooted : Bool) {stack : List String}
    (h : ∀ s ∈ stack, '\\' ∉ s.toList) : '\\' ∉ (render rooted stack).toList := by
  have hjoined : '\\' ∉ (joinSegments stack.reverse).toList := by
    intro hmem
    rw [joinSegments, String.toList_intercalate] at hmem
    rcases Text.mem_intercalate '/' hmem with hslash | ⟨piece, hpiece, hc⟩
    · cases hslash
    · obtain ⟨s, hs, rfl⟩ := List.mem_map.1 hpiece
      exact h s (List.mem_reverse.1 hs) hc
  unfold render
  split
  · simpa using hjoined
  · split
    · decide
    · exact hjoined

theorem virtualParent_render (rooted : Bool) {name : String} {stack : List String}
    (h : Named (name :: stack)) :
    virtualParent (render rooted (name :: stack)) =
      if stack.isEmpty then "" else render rooted stack := by
  have htail : Named stack := fun s hs => h s (List.mem_cons_of_mem name hs)
  rw [virtualParent_eq]
  cases rooted with
  | true =>
    rw [segmentsOf_render_rooted h (List.cons_ne_nil name stack), List.reverse_cons,
      ← List.cons_append, List.dropLast_concat]
    cases stack with
    | nil => rfl
    | cons next rest =>
      rw [← segmentsOf_render_rooted htail (List.cons_ne_nil next rest), joinSegments_segmentsOf]
      rfl
  | false =>
    rw [segmentsOf_render_unrooted h (List.cons_ne_nil name stack), List.reverse_cons,
      List.dropLast_concat]
    cases stack with
    | nil => rfl
    | cons next rest => rfl

/-- Where the virtual path of a place is a normal form, its directory is what
stands before the last name. -/
theorem virtualStack_of_render {q : Place} {rooted : Bool} {name : String} {stack : List String}
    (hvirtual : q.virtual = render rooted (name :: stack)) (h : Unslashed (name :: stack))
    (hclean : CleanStack rooted stack) :
    virtualRooted q = (rooted && !stack.isEmpty) ∧ virtualStack q = stack := by
  have htail := h.tail
  have hparent := virtualParent_render rooted h.1
  rw [← hvirtual] at hparent
  cases stack with
  | nil =>
    have hempty : virtualParent q.virtual = "" := hparent
    have hrooted : virtualRooted q = false := by
      rw [virtualRooted_eq, hempty]
      decide
    rw [virtualStack_eq, hrooted, hempty]
    exact ⟨by simp, by decide⟩
  | cons next rest =>
    have hparent' : virtualParent q.virtual = render rooted (next :: rest) := hparent
    have hsame := slashed_eq_self (backslash_not_mem_render rooted htail.2)
    have hrooted : virtualRooted q = rooted := by
      rw [virtualRooted_eq, hparent', hsame, isRooted_render htail.1]
    have hagain := foldl_cleanStep_reverse hclean fun s hs => ⟨(htail.1 s hs).1, (htail.1 s hs).2.1⟩
    refine ⟨by simp [hrooted], ?_⟩
    rw [virtualStack_eq, hrooted, hparent', hsame]
    cases rooted with
    | true =>
      rw [segmentsOf_render_rooted htail.1 (List.cons_ne_nil next rest), List.foldl_cons,
        cleanStep_idle (.inl rfl), hagain]
    | false => rw [segmentsOf_render_unrooted htail.1 (List.cons_ne_nil next rest), hagain]

/-! ## Real directories -/

/-- The directory of a file, the innermost name first. -/
def realStack (p : Place) : List String :=
  (segmentsOf (directoryOf p.real).text).foldl (cleanStep true) []

theorem realStack_eq (p : Place) :
    realStack p = (segmentsOf (directoryOf p.real).text).foldl (cleanStep true) [] := rfl

attribute [irreducible] realStack

/-- In a tree without links, the file of a place stands in the directory of its
stack. -/
structure StandsIn (t : FileTree) (p : Place) (name : String) : Prop where
  isAbsolute : (directoryOf p.real).isAbsolute = true
  segments : (segmentsOf p.real.text).foldl (cleanStep true) [] = name :: realStack p
  directories : DirectoriesOf t (realStack p)
  isFile : ((t.entryAt (name :: realStack p).reverse).bind Entry.content?).isSome = true

variable {r : Resolver} {t : FileTree} {p : Place} {i : Import}

/-- The name of a file is the last segment of its path. -/
theorem exists_standsIn_segments (hlinkless : Linkless t) (hfile : t.isFile p.real = true) :
    ∃ front name, segmentsOf p.real.text = "" :: (front ++ [name]) ∧ name ≠ "" ∧ name ≠ "." ∧
      name ≠ ".." ∧ realStack p = front.foldl (cleanStep true) [] ∧ StandsIn t p name := by
  obtain ⟨content, hcontent⟩ := Option.isSome_iff_exists.1 hfile
  obtain ⟨front, name, hsegments, hempty, hdot, hup, hdirectories, hentry⟩ :=
    exists_name_of_content? hlinkless hcontent
  obtain ⟨parent, hparent, habsolute, hstack⟩ := exists_parent hsegments hempty hdot
  have hdirectory : directoryOf p.real = parent := by rw [directoryOf, hparent, Option.getD_some]
  have hreal : realStack p = front.foldl (cleanStep true) [] := by
    rw [realStack_eq, hdirectory, hstack]
  refine ⟨front, name, hsegments, hempty, hdot, hup, hreal, hdirectory ▸ habsolute, ?_,
    hreal ▸ hdirectories, ?_⟩
  · rw [hsegments, List.foldl_cons, cleanStep_idle (.inl rfl), List.foldl_append,
      List.foldl_cons, List.foldl_nil, cleanStep_name hempty hdot hup, hreal]
  · rw [hreal, hentry, Option.isSome_some]

theorem exists_standsIn (hlinkless : Linkless t) (hfile : t.isFile p.real = true) :
    ∃ name, StandsIn t p name := by
  obtain ⟨-, name, -, -, -, -, -, hstands⟩ := exists_standsIn_segments hlinkless hfile
  exact ⟨name, hstands⟩

theorem StandsIn.not_directory {name : String} (h : StandsIn t p name) :
    t.isDirectoryAt (name :: realStack p).reverse = false := by
  have hfile := h.isFile
  rw [isDirectoryAt, decide_eq_false_iff_not]
  intro hdirectory
  rw [hdirectory] at hfile
  cases hfile

/-! ## What a relative import does -/

theorem isRooted_of_relative (hkind : i.kind = .relative) :
    isRooted i.specifier = false ∧ isRooted (slashed i.specifier) = false := by
  unfold Import.kind at hkind
  split at hkind
  next hdot =>
    obtain ⟨rest, hspecifier⟩ := List.head?_eq_some_iff.1 hdot
    simp [isRooted, slashed, hspecifier]
  next => cases hkind

theorem targetOf_real (hkind : i.kind = .relative) :
    (r.targetOf p i).real.text = render (directoryOf p.real).isAbsolute
      ((segmentsOf i.specifier).foldl (cleanStep (directoryOf p.real).isAbsolute)
        ((segmentsOf (directoryOf p.real).text).foldl
          (cleanStep (directoryOf p.real).isAbsolute) [])) := by
  have hspecifier : (Path.mk i.specifier).isAbsolute = false := (isRooted_of_relative hkind).1
  have hrooted := isAbsolute_join (directoryOf p.real) hspecifier
  rw [targetOf, locate, hkind]
  show cleanText ((directoryOf p.real).join ⟨i.specifier⟩).text = _
  rw [cleanText_eq_render, ← hrooted, isAbsolute, foldl_segmentsOf_join hspecifier]

theorem joinVirtual_eq (directory : String) {specifier : String}
    (hspecifier : isRooted (slashed specifier) = false) :
    joinVirtual directory specifier = render (isRooted (slashed directory))
      ((segmentsOf (slashed specifier)).foldl (cleanStep (isRooted (slashed directory)))
        ((segmentsOf (slashed directory)).foldl
          (cleanStep (isRooted (slashed directory))) [])) := by
  unfold joinVirtual
  show cleanText (slashed (if directory = "" then specifier else directory ++ "/" ++ specifier)) = _
  rw [cleanText_eq_render]
  split
  next hempty =>
    have hnone : slashed "" = "" := by decide
    rw [hempty, hspecifier, hnone, segmentsOf_empty, List.foldl_cons, List.foldl_nil,
      cleanStep_idle (.inl rfl)]
    rfl
  next hne =>
    have hjoined : slashed (directory ++ "/" ++ specifier) =
        slashed directory ++ "/" ++ slashed specifier := by
      rw [slashed_append, slashed_append]
      rfl
    have hrooted : isRooted (slashed directory ++ "/" ++ slashed specifier) =
        isRooted (slashed directory) := by
      obtain ⟨c, cs, hc⟩ := List.exists_cons_of_ne_nil (mt String.toList_eq_nil_iff.1 hne)
      simp [isRooted, slashed, hc]
    rw [hjoined, hrooted, segmentsOf_append_slash, List.foldl_append]

theorem targetOf_virtual_slashed (hkind : i.kind = .relative) :
    (r.targetOf p i).virtual = render (virtualRooted p)
      ((segmentsOf (slashed i.specifier)).foldl (cleanStep (virtualRooted p))
        (virtualStack p)) := by
  have hjoin := joinVirtual_eq (virtualParent p.virtual) (isRooted_of_relative hkind).2
  have htarget : (r.targetOf p i).virtual =
      joinVirtual (virtualParent p.virtual) i.specifier := by
    rw [targetOf, locate, hkind]
  rw [htarget, hjoin, virtualStack_eq, virtualRooted_eq]

theorem targetOf_virtual (hkind : i.kind = .relative) (hspecifier : '\\' ∉ i.specifier.toList) :
    (r.targetOf p i).virtual = render (virtualRooted p)
      ((segmentsOf i.specifier).foldl (cleanStep (virtualRooted p)) (virtualStack p)) := by
  have hvirtual := targetOf_virtual_slashed (r := r) (p := p) hkind
  rwa [slashed_eq_self hspecifier] at hvirtual

/-- A real and a virtual directory from which relative imports are followed. -/
structure Base where
  /-- Whether the virtual directory is taken from the root. -/
  rooted : Bool
  real : List String
  virtual : List String

/-- The directories of a place. -/
def baseOf (p : Place) : Base := ⟨virtualRooted p, realStack p, virtualStack p⟩

/-- What leads from a pair of directories to a file: both lose `count` names and
get `names` in their place. -/
structure Steps (b : Base) (q : Place) (count : Nat) (name : String) (names : List String) :
    Prop where
  not_up : ".." ∉ name :: names
  real : q.real = ⟨render true (name :: realStack q)⟩
  realDir : realStack q = names ++ b.real.drop count
  virtual : q.virtual = render b.rooted (name :: (names ++ pops b.rooted count b.virtual))
  unslashed : Unslashed (name :: (names ++ pops b.rooted count b.virtual))
  virtualDir : virtualStack q = names ++ pops b.rooted count b.virtual
  rooted : virtualRooted q = (b.rooted && !(virtualStack q).isEmpty)

theorem cleanStack_realStack (p : Place) : CleanStack true (realStack p) := by
  rw [realStack_eq]
  exact cleanStack_foldl (.nil true) _

theorem named_realStack (p : Place) : Named (realStack p) := by
  rw [realStack_eq]
  exact named_foldl unslashed_nil.1 fun s hs => slash_not_mem_of_mem_segmentsOf hs

theorem foldl_cleanStep_realStack (p : Place) (segments : List String) :
    segments.foldl (cleanStep true) (realStack p) =
      (net segments).2 ++ (realStack p).drop (net segments).1 := by
  rw [foldl_cleanStep_eq, pops_rooted (cleanStack_realStack p).not_mem_up]

theorem targetOf_real_eq_render (habsolute : (directoryOf p.real).isAbsolute = true)
    (hkind : i.kind = .relative) :
    (r.targetOf p i).real.text = render true ((net (segmentsOf i.specifier)).2 ++
      (realStack p).drop (net (segmentsOf i.specifier)).1) := by
  rw [← foldl_cleanStep_realStack, realStack_eq, targetOf_real hkind, habsolute]

/-- The real directory loses the names that an import takes back and gets those that
it puts in their place. -/
theorem realStack_targetOf {name name' : String} (hp : StandsIn t p name')
    (hq : StandsIn t (r.targetOf p i) name) (hkind : i.kind = .relative) :
    (net (segmentsOf i.specifier)).2 ++ (realStack p).drop (net (segmentsOf i.specifier)).1 =
      name :: realStack (r.targetOf p i) := by
  have hclean : CleanStack true ((net (segmentsOf i.specifier)).2 ++
      (realStack p).drop (net (segmentsOf i.specifier)).1) := by
    rw [← foldl_cleanStep_realStack]
    exact cleanStack_foldl (cleanStack_realStack p) _
  have hnamed : Named ((net (segmentsOf i.specifier)).2 ++
      (realStack p).drop (net (segmentsOf i.specifier)).1) := by
    rw [← foldl_cleanStep_realStack]
    exact named_foldl (named_realStack p) fun s hs => slash_not_mem_of_mem_segmentsOf hs
  rw [← hq.segments, targetOf_real_eq_render hp.isAbsolute hkind]
  by_cases hnil : (net (segmentsOf i.specifier)).2 ++
      (realStack p).drop (net (segmentsOf i.specifier)).1 = []
  · rw [hnil]
    decide
  · rw [segmentsOf_render_rooted hnamed hnil, List.foldl_cons, cleanStep_idle (.inl rfl),
      foldl_cleanStep_reverse hclean fun s hs => ⟨(hnamed s hs).1, (hnamed s hs).2.1⟩]

/-- A relative import steps from file to file. It puts at least the name of the
file in place, since what it could take back to are directories. -/
theorem exists_steps (hlinkless : Linkless t) (hfile : t.isFile p.real = true)
    (hkind : i.kind = .relative) (hspecifier : '\\' ∉ i.specifier.toList)
    (htarget : t.isFile (r.targetOf p i).real = true) :
    ∃ name names, net (segmentsOf i.specifier) = ((net (segmentsOf i.specifier)).1, name :: names) ∧
      StandsIn t (r.targetOf p i) name ∧
      Steps (baseOf p) (r.targetOf p i) (net (segmentsOf i.specifier)).1 name names := by
  obtain ⟨_, hp⟩ := exists_standsIn hlinkless hfile
  obtain ⟨name, hq⟩ := exists_standsIn hlinkless htarget
  have hstack := realStack_targetOf hp hq hkind
  have hreal := targetOf_real_eq_render (r := r) hp.isAbsolute hkind
  have hvirtual := targetOf_virtual (r := r) (p := p) hkind hspecifier
  have hunslashed := unslashed_foldl (virtualRooted p) (unslashed_virtualStack p) hspecifier
  have hclean := cleanStack_foldl (cleanStack_virtualStack p) (segmentsOf i.specifier)
  have hup := up_not_mem_net (segmentsOf i.specifier)
  rw [foldl_cleanStep_eq] at hvirtual hunslashed hclean
  generalize hnet : net (segmentsOf i.specifier) = total at *
  obtain ⟨count, put⟩ := total
  cases put with
  | nil =>
    -- only directories are left when nothing is put in place
    rw [List.nil_append] at hstack
    have hdirectory := hp.directories count
    rw [hstack, hq.not_directory] at hdirectory
    cases hdirectory
  | cons first names =>
    simp only [List.cons_append] at hstack hreal hvirtual hunslashed hclean
    obtain ⟨rfl, hrest⟩ := List.cons.inj hstack
    obtain ⟨hrooted, hvirtualStack⟩ := virtualStack_of_render hvirtual hunslashed hclean.tail
    rw [hrest] at hreal
    exact ⟨first, names, rfl, hq, {
      not_up := hup
      real := Path.eq_of_text hreal
      realDir := hrest.symm
      virtual := hvirtual
      unslashed := hunslashed
      virtualDir := hvirtualStack
      rooted := by rw [hvirtualStack]; exact hrooted }⟩

end SolidityBuild.Resolver
