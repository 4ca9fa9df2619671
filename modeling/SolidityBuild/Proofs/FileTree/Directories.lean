import SolidityBuild.Proofs.FileTree.Growth

/-!
Making directories. Whether or not it comes to its end, it changes nothing that
is there: what is new are directories, and each of them is led to by the path
that was asked for or by one of the directories which that path stands in.
-/

namespace SolidityBuild.FileTree

open SolidityBuild.Path

/-- The names in a path. -/
def namesOf (p : Path) : List String := (segmentsOf p.text).filter (· ≠ "")

theorem slash_not_mem_namesOf {p : Path} : ∀ n ∈ namesOf p, '/' ∉ n.toList :=
  fun _ hn => slash_not_mem_of_mem_segmentsOf (List.mem_filter.1 hn).1

theorem cleanText_of_isAbsolute {p : Path} (h : p.isAbsolute = true) :
    p.clean.text = render true ((segmentsOf p.text).foldl (cleanStep true) []) := by
  have hrooted : isRooted p.text = true := h
  rw [clean, cleanText_eq_render, hrooted]

/-- The names of a path from the root in normal form are those it leads along. -/
theorem namesOf_clean_eq {p : Path} (h : p.isAbsolute = true) :
    namesOf p.clean = ((segmentsOf p.text).foldl (cleanStep true) []).reverse := by
  have hnamed := named_foldl_segmentsOf true p.text
  rw [namesOf, cleanText_of_isAbsolute h]
  by_cases hnil : (segmentsOf p.text).foldl (cleanStep true) [] = []
  · rw [hnil]
    decide
  · rw [segmentsOf_render_rooted hnamed hnil, List.filter_cons_of_neg (by simp),
      List.filter_eq_self.2 fun s hs => by simpa using (hnamed.reverse s hs).1]

/-- The names of a path from the root in normal form: they are names, none of them is
`..`, and they spell the path. -/
theorem namesOf_clean {p : Path} (h : p.isAbsolute = true) :
    Named (namesOf p.clean) ∧ ".." ∉ namesOf p.clean ∧ pathOf (namesOf p.clean) = p.clean := by
  have hclean := cleanStack_foldl (.nil true) (segmentsOf p.text)
  rw [namesOf_clean_eq h]
  refine ⟨(named_foldl_segmentsOf true p.text).reverse, by simpa using hclean.not_mem_up, ?_⟩
  exact (eq_of_text (cleanText_of_isAbsolute h)).symm

/-- All that is new in a tree are directories on the way along some names. -/
structure MadeAlong (names : List String) (before after : FileTree) : Prop where
  isTree : after.IsTree
  linkless : Linkless before → Linkless after
  entryAt : ∀ location, after.entryAt location = before.entryAt location ∨
    before.entryAt location = none ∧ after.entryAt location = some .directory ∧
      ∃ front, front <+: names ∧ after.reach? (pathOf front) = some (.entry location)

variable {t t' : FileTree} {names done : List String} {here location : Location} {name : String}

theorem MadeAlong.refl (htree : t.IsTree) (names : List String) : MadeAlong names t t :=
  ⟨htree, id, fun _ => .inl rfl⟩

theorem MadeAlong.keeps (h : MadeAlong names t t') : Keeps t t' := by
  intro location entry hentry
  rcases h.entryAt location with hsame | ⟨hnone, -, -⟩
  · exact hsame.trans hentry
  · rw [hnone] at hentry
    cases hentry

theorem slash_not_mem_concat (hdone : ∀ n ∈ done, '/' ∉ n.toList) (hname : isName name = true) :
    ∀ n ∈ done ++ [name], '/' ∉ n.toList := by
  intro n hn
  rcases List.mem_append.1 hn with hn | hn
  · exact hdone n hn
  · rw [List.mem_singleton.1 hn]
    exact (proper_of_isName hname).2.2.2

theorem linkless_insert (hlinkless : Linkless t) {entry : Entry}
    (hentry : ∀ target, entry ≠ .link target) : Linkless (t.insert location entry) := by
  intro other hother
  rcases List.mem_append.1 hother with hold | hnew
  · exact hlinkless other (List.mem_filter.1 hold).1
  · rw [List.mem_singleton.1 hnew]
    exact hentry

/-! ## Following the paths of locations -/

theorem exists_follow_eq_along (t : FileTree) (links : Nat) :
    ∃ onLink, t.follow links = t.along onLink := by
  cases links with
  | zero => exact ⟨_, rfl⟩
  | succ links => exact ⟨_, rfl⟩

theorem follow_root_idle (t : FileTree) (links : Nat) (rest : List String) :
    t.follow links [] ("" :: rest) = t.follow links [] rest := by
  obtain ⟨onLink, hfollow⟩ := exists_follow_eq_along t links
  rw [hfollow, along_cons]
  rfl

theorem reach?_pathOf (t : FileTree) (hnames : ∀ n ∈ names, '/' ∉ n.toList) :
    t.reach? (pathOf names) = t.follow linkLimit [] names := by
  have habsolute : (pathOf names).isAbsolute = true := by
    simp [pathOf, isAbsolute, isRooted]
  have htext : (pathOf names).text = "" ++ "/" ++ joinSegments names := by
    rw [String.empty_append]
    rfl
  rw [reach?, if_pos habsolute, htext, segmentsOf_append_slash, segmentsOf_empty,
    List.singleton_append, follow_root_idle]
  cases names with
  | nil => exact follow_root_idle t linkLimit []
  | cons first rest => rw [segmentsOf_joinSegments (List.cons_ne_nil first rest) hnames]

/-- Without links names lead to the location that they spell. -/
theorem Linkless.location_eq (hlinkless : Linkless t) (hnames : Named names) (hup : ".." ∉ names)
    (h : t.reach? (pathOf names) = some (.entry location)) : location = names := by
  obtain ⟨onLink, hfollow⟩ := exists_follow_eq_along t linkLimit
  rw [reach?_pathOf t fun n hn => (hnames n hn).2.2, hfollow] at h
  have hclean : CleanStack true names.reverse :=
    ⟨names.reverse, 0, by simp, by simpa using hup, fun _ => rfl⟩
  have hstack := foldl_cleanStep_reverse hclean fun s hs =>
    ⟨(hnames.reverse s hs).1, (hnames.reverse s hs).2.1⟩
  rw [List.reverse_reverse] at hstack
  have hlocation : location = (names.foldl (cleanStep true) []).reverse :=
    location_of_along hlinkless (by simp) h
  rwa [hstack, List.reverse_reverse] at hlocation

theorem along_append_of_onLink {onLink : Location → List String → Option Target} {links : Nat}
    (hfollow : t.follow links = t.along onLink)
    (hlink : ∀ start segments, onLink start segments = some (.entry location) →
      ∃ left, ∀ back, onLink start (segments ++ back) = t.follow left location back)
    {here : Location} {front : List String}
    (h : t.along onLink here front = some (.entry location)) :
    ∃ left, ∀ back, t.along onLink here (front ++ back) = t.follow left location back := by
  induction front generalizing here with
  | nil =>
      obtain rfl := Target.entry.inj (Option.some.inj h)
      exact ⟨links, fun back => by rw [hfollow, List.nil_append]⟩
  | cons segment rest ih =>
      rw [along_cons] at h
      cases hmove : t.move here segment with
      | blocked =>
          rw [hmove] at h
          cases h
      | vacant next =>
          rw [hmove] at h
          simp only at h
          split at h <;> cases h
      | onto next =>
          rw [hmove] at h
          obtain ⟨left, hleft⟩ := ih h
          exact ⟨left, fun back => by rw [List.cons_append, along_cons, hmove]; exact hleft back⟩
      | link start segments =>
          rw [hmove] at h
          obtain ⟨left, hleft⟩ := hlink _ _ h
          refine ⟨left, fun back => ?_⟩
          rw [List.cons_append, along_cons, hmove]
          simp only
          rw [← List.append_assoc]
          exact hleft back

/-- A path goes on from where its beginning leads, with the links that are left. -/
theorem follow_append {links : Nat} {here : Location} {front : List String}
    (h : t.follow links here front = some (.entry location)) :
    ∃ left, ∀ back, t.follow links here (front ++ back) = t.follow left location back := by
  induction links generalizing here front with
  | zero =>
      have hfollow : t.follow 0 = t.along fun _ _ => none := rfl
      exact along_append_of_onLink hfollow (fun _ _ h => by cases h) h
  | succ links ih =>
      have hfollow : t.follow (links + 1) = t.along (t.follow links) := rfl
      exact along_append_of_onLink hfollow (fun _ _ => ih) h

theorem follow_concat {links : Nat} {start : Location} {entry : Entry}
    (hlead : t.follow links start done = some (.entry here))
    (hhere : t.isDirectoryAt here = true) (hname : isName name = true)
    (hentry : t.entryAt (here ++ [name]) = some entry) (hplain : ∀ target, entry ≠ .link target) :
    t.follow links start (done ++ [name]) = some (.entry (here ++ [name])) := by
  obtain ⟨left, hleft⟩ := follow_append hlead
  obtain ⟨onLink, hfollow⟩ := exists_follow_eq_along t left
  rw [hleft, hfollow, along_cons, move_name hhere hname, hentry]
  cases entry with
  | link target => exact absurd rfl (hplain target)
  | directory => rfl
  | file content executable => rfl

theorem along_front {onLink : Location → List String → Option Target} {front back : List String}
    (hback : back ≠ [])
    (hlink : ∀ start segments target, onLink start (segments ++ back) = some target →
      ∃ directory, onLink start segments = some (.entry directory) ∧
        t.isDirectoryAt directory = true)
    {here : Location} {target : Target} (h : t.along onLink here (front ++ back) = some target) :
    ∃ directory, t.along onLink here front = some (.entry directory) ∧
      t.isDirectoryAt directory = true := by
  induction front generalizing here with
  | nil =>
      obtain ⟨segment, rest, rfl⟩ := List.exists_cons_of_ne_nil hback
      refine ⟨here, rfl, Classical.byContradiction fun hnot => ?_⟩
      rw [List.nil_append, along_cons, move, if_pos hnot] at h
      cases h
  | cons segment rest ih =>
      rw [List.cons_append, along_cons] at h
      rw [along_cons]
      cases hmove : t.move here segment with
      | blocked =>
          rw [hmove] at h
          cases h
      | vacant next =>
          rw [hmove] at h
          simp [hback] at h
      | onto next =>
          rw [hmove] at h
          exact ih h
      | link start segments =>
          rw [hmove] at h
          simp only at h
          rw [← List.append_assoc] at h
          exact hlink _ _ _ h

/-- What goes on leads to a directory before. -/
theorem follow_front {links : Nat} {front back : List String} (hback : back ≠ [])
    {target : Target} (h : t.follow links here (front ++ back) = some target) :
    ∃ directory, t.follow links here front = some (.entry directory) ∧
      t.isDirectoryAt directory = true := by
  induction links generalizing here front target with
  | zero => exact along_front hback (fun _ _ _ h => by cases h) h
  | succ links ih => exact along_front hback (fun _ _ _ => ih) h

/-- A name behind the path of a directory leads to the entry of that name in it. -/
theorem reach?_join {directory : Path} {entry : Entry}
    (hreach : t.reach? directory = some (.entry here)) (hhere : t.isDirectoryAt here = true)
    (hname : isName name = true) (hentry : t.entryAt (here ++ [name]) = some entry)
    (hplain : ∀ target, entry ≠ .link target) :
    t.reach? (directory.join ⟨name⟩) = some (.entry (here ++ [name])) := by
  have hslash := (proper_of_isName hname).2.2.2
  have hrelative := isAbsolute_of_slash_not_mem hslash
  obtain ⟨front, hjoined, hdirectory⟩ := exists_segmentsOf_join directory hrelative
  unfold reach? at hreach ⊢
  rw [isAbsolute_join directory hrelative, hjoined, segmentsOf_of_slash_not_mem hslash]
  split at hreach
  case isFalse => cases hreach
  next habsolute =>
    rw [if_pos habsolute]
    refine follow_concat ?_ hhere hname hentry hplain
    rcases hdirectory with hsame | hidle
    · rwa [hsame] at hreach
    · rw [hidle] at hreach
      obtain ⟨before, hfront, hbefore⟩ := follow_front (List.cons_ne_nil "" []) hreach
      obtain ⟨left, hleft⟩ := follow_append hfront
      obtain ⟨onLink, hfollow⟩ := exists_follow_eq_along t left
      rw [hleft, hfollow, along_cons, move, if_neg (not_not_intro hbefore)] at hreach
      obtain rfl := Target.entry.inj (Option.some.inj hreach)
      exact hfront

/-! ## Making them -/

theorem madeAlong_insert (htree : t.IsTree)
    (hlead : t.follow linkLimit [] done = some (.entry here))
    (hhere : t.isDirectoryAt here = true) (hdone : ∀ n ∈ done, '/' ∉ n.toList)
    (hname : isName name = true) (hvacant : t.entryAt (here ++ [name]) = none) :
    MadeAlong (done ++ [name]) t (t.insert (here ++ [name]) .directory) ∧
      (t.insert (here ++ [name]) .directory).follow linkLimit [] (done ++ [name]) =
        some (.entry (here ++ [name])) := by
  have hne : here ++ [name] ≠ [] := by simp
  have hkeeps : Keeps t (t.insert (here ++ [name]) .directory) := keeps_insert hne hvacant
  have hmade := entryAt_insert_self t hne .directory
  have hlead' := follow_concat (hkeeps.follow hlead) (hkeeps.isDirectoryAt hhere) hname hmade
    (by simp)
  have hslash := slash_not_mem_concat hdone hname
  have hlinkless (hbefore : Linkless t) : Linkless (t.insert (here ++ [name]) .directory) :=
    linkless_insert hbefore (by simp)
  refine ⟨⟨isTree_insert_directory htree hhere hname, hlinkless, fun location => ?_⟩, hlead'⟩
  by_cases hlocation : location = here ++ [name]
  · subst hlocation
    exact .inr ⟨hvacant, hmade, done ++ [name], List.prefix_refl _,
      (reach?_pathOf _ hslash).trans hlead'⟩
  · exact .inl (entryAt_insert_of_ne t hne .directory hlocation)

theorem MadeAlong.trans {before between after : FileTree} {front : List String}
    (h : MadeAlong front before between) (h' : MadeAlong names between after)
    (hfront : front <+: names) : MadeAlong names before after := by
  refine ⟨h'.isTree, h'.linkless ∘ h.linkless, fun location => ?_⟩
  rcases h.entryAt location with hsame | ⟨hnone, hmade, inner, hinner, hreach⟩
  · rcases h'.entryAt location with hsame' | ⟨hnone', hmade', hreach'⟩
    · exact .inl (hsame'.trans hsame)
    · exact .inr ⟨hsame.symm.trans hnone', hmade', hreach'⟩
  · exact .inr ⟨hnone, h'.keeps _ _ hmade, inner, hinner.trans hfront, h'.keeps.reach? hreach⟩

/-- If directories are made to the end, the names lead to the last of them. -/
def Arrives (names : List String) (run : FileTree × Bool) : Prop :=
  run.2 = true → ∃ location, run.1.follow linkLimit [] names = some (.entry location) ∧
    run.1.isDirectoryAt location = true

theorem makeNested_made (htree : t.IsTree)
    (hlead : t.follow linkLimit [] done = some (.entry here))
    (hhere : t.isDirectoryAt here = true) (hdone : ∀ n ∈ done, '/' ∉ n.toList)
    (hvacant : ∀ name ∈ names.head?, t.entryAt (here ++ [name]) = none) :
    MadeAlong (done ++ names) t (t.makeNested here names).1 ∧
      Grows t (t.makeNested here names).1 ∧ Arrives (done ++ names) (t.makeNested here names) := by
  induction names generalizing t here done with
  | nil =>
      refine ⟨.refl htree _, .refl, fun _ => ⟨here, ?_, hhere⟩⟩
      rw [List.append_nil]
      exact hlead
  | cons name rest ih =>
      rw [makeNested, occupy?, List.getLast?_concat]
      by_cases hname : isName name = true
      · have hnone := hvacant name rfl
        obtain ⟨hmade, hlead'⟩ := madeAlong_insert htree hlead hhere hdone hname hnone
        have hne : here ++ [name] ≠ [] := by simp
        have hhere' := isDirectoryAt_iff.2 (entryAt_insert_self t hne .directory)
        have hvacant' : ∀ other ∈ rest.head?,
            (t.insert (here ++ [name]) .directory).entryAt ((here ++ [name]) ++ [other]) =
              none := by
          intro other _
          rw [entryAt_insert_of_ne t hne .directory (by simp)]
          exact entryAt_append_of_none htree hnone [other]
        obtain ⟨hrest, hgrows, harrives⟩ :=
          ih hmade.isTree hlead' hhere' (slash_not_mem_concat hdone hname) hvacant'
        rw [List.append_assoc, List.singleton_append] at hrest harrives
        simp only [hname, if_true]
        refine ⟨hmade.trans hrest ⟨rest, ?_⟩, ?_, harrives⟩
        · rw [List.append_assoc, List.singleton_append]
        · exact (Grows.directory .refl hhere hname hnone).trans hgrows
      · simp only [hname, if_false, Bool.false_eq_true]
        exact ⟨.refl htree _, .refl, fun h => by cases h⟩

theorem makeAlong_made (htree : t.IsTree)
    (hlead : t.follow linkLimit [] done = some (.entry here))
    (hhere : t.isDirectoryAt here = true) (hnames : ∀ n ∈ done ++ names, '/' ∉ n.toList) :
    MadeAlong (done ++ names) t (t.makeAlong here done names).1 ∧
      Grows t (t.makeAlong here done names).1 ∧
        Arrives (done ++ names) (t.makeAlong here done names) := by
  induction names generalizing here done with
  | nil =>
      refine ⟨.refl htree _, .refl, fun _ => ⟨here, ?_, hhere⟩⟩
      rw [List.append_nil]
      exact hlead
  | cons name rest ih =>
      have hconcat : done ++ name :: rest = (done ++ [name]) ++ rest := by simp
      have hdone : ∀ n ∈ done ++ [name], '/' ∉ n.toList := by
        intro n hn
        exact hnames n (hconcat ▸ List.mem_append_left rest hn)
      rw [makeAlong]
      cases hlocate : t.locate? (pathOf (done ++ [name])) with
      | some location =>
          simp only
          by_cases hdirectory : t.isDirectoryAt location = true
          · rw [if_pos hdirectory, hconcat]
            have hlead' : t.follow linkLimit [] (done ++ [name]) = some (.entry location) := by
              rw [← reach?_pathOf t hdone]
              exact reach?_of_target? (target?_of_locate? hlocate)
            exact ih hlead' hdirectory (hconcat ▸ hnames)
          · rw [if_neg hdirectory]
            exact ⟨.refl htree _, .refl, fun h => by cases h⟩
      | none =>
          simp only
          by_cases htaken : (t.entryAt (here ++ [name])).isSome = true
          · rw [if_pos htaken]
            exact ⟨.refl htree _, .refl, fun h => by cases h⟩
          · rw [if_neg htaken]
            refine makeNested_made htree hlead hhere
              (fun n hn => hdone n (List.mem_append_left [name] hn)) ?_
            intro other hother
            obtain rfl : name = other := by simpa using hother
            simpa using htaken

theorem makeDirectories_changes (htree : t.IsTree) (p : Path) :
    MadeAlong (namesOf p) t (t.makeDirectories p).1 ∧ Grows t (t.makeDirectories p).1 ∧
      Arrives (namesOf p) (t.makeDirectories p) := by
  rw [makeDirectories]
  split
  · exact ⟨.refl htree _, .refl, fun h => by cases h⟩
  · have hlead : t.follow linkLimit [] [] = some (.entry []) := rfl
    exact makeAlong_made htree hlead rfl slash_not_mem_namesOf

/-- Making a directory changes nothing but what is not there on the way to it. -/
theorem makeDirectories_made (htree : t.IsTree) (p : Path) :
    MadeAlong (namesOf p) t (t.makeDirectories p).1 := (makeDirectories_changes htree p).1

end SolidityBuild.FileTree
