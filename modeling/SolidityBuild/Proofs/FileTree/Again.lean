import SolidityBuild.Proofs.FileTree.Canonical

/-!
Going over a tree again after it has grown. A directory is not made again, and a walk
that comes to its end is the walk from before, if every file that it finds was there
before. It is the same walk, too, where nothing below its root has changed.
-/

namespace SolidityBuild.FileTree

variable {t made before after : FileTree} {here location : Location} {name : String}
  {names done : List String} {entry entry' : Entry} {p path : Path}

/-! ## Making directories -/

theorem isUsable_of_append {front back : List String}
    (h : isUsable (pathOf (front ++ back)) = true) : isUsable (pathOf front) = true := by
  induction back generalizing front with
  | nil => rwa [List.append_nil] at h
  | cons name rest ih =>
      rw [← List.singleton_append, ← List.append_assoc] at h
      have hconcat := isUsable_dropLast (ih h)
      rwa [List.dropLast_concat] at hconcat

theorem locate?_of_follow (hnames : ∀ n ∈ names, '/' ∉ n.toList)
    (husable : isUsable (pathOf names) = true)
    (hfollow : t.follow linkLimit [] names = some (.entry location)) :
    t.locate? (pathOf names) = some location := by
  rw [locate?, target?, if_pos husable, reach?_pathOf t hnames, hfollow]
  rfl

theorem makeAlong_of_follow (done : List String) (hnames : ∀ n ∈ done ++ names, '/' ∉ n.toList)
    (husable : isUsable (pathOf (done ++ names)) = true)
    (hfollow : t.follow linkLimit [] (done ++ names) = some (.entry location))
    (hdirectory : t.isDirectoryAt location = true) :
    t.makeAlong here done names = (t, true) := by
  induction names generalizing here done with
  | nil => rfl
  | cons name rest ih =>
      have hconcat : done ++ name :: rest = (done ++ [name]) ++ rest := by simp
      rw [hconcat] at hnames husable hfollow
      obtain ⟨next, hnext, hinside⟩ : ∃ next,
          t.follow linkLimit [] (done ++ [name]) = some (.entry next) ∧
            t.isDirectoryAt next = true := by
        by_cases hrest : rest = []
        · rw [hrest, List.append_nil] at hfollow
          exact ⟨location, hfollow, hdirectory⟩
        · exact follow_front hrest hfollow
      have hlocate := locate?_of_follow (fun n hn => hnames n (List.mem_append_left rest hn))
        (isUsable_of_append husable) hnext
      rw [makeAlong, hlocate]
      simp only [hinside, if_true]
      exact ih (done ++ [name]) hnames husable hfollow

theorem makeDirectories_of_reach? (hp : pathOf (namesOf p) = p)
    (hsound : ¬ (p.text.toList.contains '\x00' = true ∨ ¬ isUsable p = true))
    (hreach : t.reach? p = some (.entry location))
    (hdirectory : t.isDirectoryAt location = true) : t.makeDirectories p = (t, true) := by
  have husable : isUsable (pathOf (namesOf p)) = true := hp.symm ▸ not_not.1 (not_or.1 hsound).2
  rw [← hp, reach?_pathOf t slash_not_mem_namesOf] at hreach
  rw [makeDirectories, if_neg hsound]
  exact makeAlong_of_follow [] slash_not_mem_namesOf husable hreach hdirectory

theorem sound_of_makeDirectories (hmade : t.makeDirectories p = (made, true)) :
    ¬ (p.text.toList.contains '\x00' = true ∨ ¬ isUsable p = true) := by
  intro hbad
  rw [makeDirectories, if_pos hbad] at hmade
  cases hmade

/-- A directory that is there is not made. -/
theorem eq_of_makeDirectories (hp : pathOf (namesOf p) = p)
    (hmade : t.makeDirectories p = (made, true)) (hreach : t.reach? p = some (.entry location))
    (hdirectory : t.isDirectoryAt location = true) : made = t := by
  rw [makeDirectories_of_reach? hp (sound_of_makeDirectories hmade) hreach hdirectory] at hmade
  exact (Prod.mk.inj hmade).1.symm

/-- A directory that has been made is led to, and not made again. -/
theorem makeDirectories_again (htree : t.IsTree) (hp : pathOf (namesOf p) = p)
    (hmade : t.makeDirectories p = (made, true)) (hgrows : Grows made after) :
    after.makeDirectories p = (after, true) := by
  obtain ⟨-, -, harrives⟩ := makeDirectories_changes htree p
  rw [hmade] at harrives
  obtain ⟨location, hfollow, hdirectory⟩ := harrives rfl
  have hreach : made.reach? p = some (.entry location) := by
    rw [← hp, reach?_pathOf made slash_not_mem_namesOf]
    exact hfollow
  exact makeDirectories_of_reach? hp (sound_of_makeDirectories hmade) (hgrows.reach? hreach)
    (hgrows.isDirectoryAt hdirectory)

/-! ## Paths of files -/

theorem isAbsolute_of_reach? {target : Target} (h : t.reach? p = some target) :
    p.isAbsolute = true := by
  unfold reach? at h
  split at h
  next habsolute => exact habsolute
  next => cases h

/-- Names below the path of a directory lead to the entry below the directory. -/
theorem reach?_behind (htree : t.IsTree) {below : List String}
    (hreach : t.reach? path = some (.entry here))
    (hentry : t.entryAt (here ++ below) = some entry) (hplain : ∀ target, entry ≠ .link target) :
    t.reach? (behind path below) = some (.entry (here ++ below)) := by
  induction below generalizing here path with
  | nil => rwa [List.append_nil]
  | cons name rest ih =>
      have hhere := isDirectoryAt_of_append htree (List.cons_ne_nil name rest) hentry
      have hname : isName name = true :=
        htree.named _ (mem_entries_of_entryAt (by simp) hentry) name (by simp)
      rw [← List.singleton_append, ← List.append_assoc] at hentry ⊢
      refine ih ?_ hentry
      by_cases hrest : rest = []
      · rw [hrest, List.append_nil] at hentry
        exact reach?_join hreach hhere hname hentry hplain
      · have hdirectory := isDirectoryAt_of_append htree hrest hentry
        exact reach?_join hreach hhere hname (isDirectoryAt_iff.1 hdirectory) (by simp)

theorem exists_of_isFile (h : t.isFile p = true) :
    ∃ location, t.reach? p = some (.entry location) ∧ IsFileAt t location := by
  obtain ⟨content, hcontent⟩ := Option.isSome_iff_exists.1 h
  obtain ⟨entry, hentry, hheld⟩ := Option.bind_eq_some_iff.1 hcontent
  obtain ⟨location, hlocate, hat⟩ := Option.bind_eq_some_iff.1 hentry
  refine ⟨location, reach?_of_target? (target?_of_locate? hlocate), ?_⟩
  cases entry with
  | file content executable => exact ⟨content, executable, hat⟩
  | directory => cases hheld
  | link target => cases hheld

theorem content?_eq_of_reach? (hreach : before.reach? p = some (.entry location))
    (hreach' : after.reach? p = some (.entry location))
    (hsame : after.entryAt location = before.entryAt location) :
    after.content? p = before.content? p := by
  simp only [content?, entry?, locate?, target?]
  split
  · simp only [hreach, hreach', Option.bind_some, Target.location?, hsame]
  · rfl

/-- A file that was there stands where its path leads now. -/
theorem Grows.isFileAt (h : Grows before after) (hfile : before.isFile p = true)
    (hreach : after.reach? p = some (.entry location)) : IsFileAt before location := by
  obtain ⟨place, hplace, hat⟩ := exists_of_isFile hfile
  have hsame := h.reach? hplace
  rw [hreach] at hsame
  obtain rfl := Target.entry.inj (Option.some.inj hsame)
  exact hat

theorem exists_locate?_of_complete {root : Path} (h : (t.walk root).complete = true) :
    ∃ location, t.locate? root = some location := by
  cases hlocate : t.locate? root with
  | none =>
      rw [walk, hlocate] at h
      cases h
  | some location => exact ⟨location, rfl⟩

/-! ## Walks of a tree that has grown -/

section Walks

variable {fuel fuel' : Nat} {above : List Location}
  {descend descend' : List Location → Location → Path → List String → Walk}

/-- What a walk from a directory has to bring about for the entry of one name. -/
def SameWalk (before : FileTree)
    (descend descend' : List Location → Location → Path → List String → Walk) : Prop :=
  ∀ above here path names, before.reach? path = some (.entry here) →
    (descend above here path names).complete = true →
    (descend' above here path names).complete = true →
    (∀ found ∈ (descend' above here path names).files, before.isFile found.path = true) →
      descend' above here path names = descend above here path names

/-- A link is followed to where it led before. -/
theorem Grows.childWalk_link_eq (h : Grows before after) (htree : before.IsTree)
    (hdescend : SameWalk before descend descend') {target : String}
    (hends : (before.childWalk descend above here path names (name, .link target)).complete = true)
    (hends' : (after.childWalk descend' above here path names (name, .link target)).complete = true)
    (hfound : ∀ found ∈ (after.childWalk descend' above here path names (name, .link target)).files,
      before.isFile found.path = true) :
    after.childWalk descend' above here path names (name, .link target) =
      before.childWalk descend above here path names (name, .link target) := by
  rw [childWalk_link] at hends hends' hfound ⊢
  rw [childWalk_link]
  cases hlocate : before.locate? (path.join ⟨name⟩) with
  | none =>
      rw [hlocate] at hends
      cases hends
  | some place =>
      have hplace := reach?_of_target? (target?_of_locate? hlocate)
      obtain ⟨other, hother⟩ := exists_entryAt_of_reach? htree hplace
      rw [hlocate] at hends
      rw [h.locate? hlocate] at hends' hfound ⊢
      simp only [h.isDirectoryAt_eq hother] at hends hends' hfound ⊢
      by_cases hdirectory : before.isDirectoryAt place = true
      · rw [if_neg (not_not_intro hdirectory)] at hends hends' hfound ⊢
        rw [if_neg (not_not_intro hdirectory)]
        by_cases habove : place ∈ here :: above
        · rw [if_pos habove] at hends
          cases hends
        · rw [if_neg habove] at hends hends' hfound ⊢
          rw [if_neg habove]
          exact hdescend _ _ _ _ hplace hends hends' hfound
      · rw [if_pos hdirectory, if_pos hdirectory]

theorem Grows.childWalk_eq (h : Grows before after) (htree : before.IsTree)
    (hdescend : SameWalk before descend descend')
    (hreach : before.reach? path = some (.entry here))
    (hentry : before.entryAt (here ++ [name]) = some entry)
    (hentry' : after.entryAt (here ++ [name]) = some entry')
    (hends : (before.childWalk descend above here path names (name, entry)).complete = true)
    (hends' : (after.childWalk descend' above here path names (name, entry')).complete = true)
    (hfound : ∀ found ∈ (after.childWalk descend' above here path names (name, entry')).files,
      before.isFile found.path = true) :
    after.childWalk descend' above here path names (name, entry') =
      before.childWalk descend above here path names (name, entry) := by
  rcases h.entryAt_cases (here ++ [name]) with hsame | ⟨hnone, -⟩ | ⟨htakes, _, _, hwritten⟩
  case inr.inl =>
    rw [hnone] at hentry
    cases hentry
  case inr.inr =>
    obtain ⟨_, _, rfl⟩ := htakes.2 entry hentry
    rw [hentry'] at hwritten
    obtain rfl := Option.some.inj hwritten
    rfl
  case inl =>
    rw [hentry, hentry'] at hsame
    obtain rfl := Option.some.inj hsame
    cases entry' with
    | file content executable => rfl
    | directory =>
        rw [childWalk_directory] at hends hends' hfound ⊢
        rw [childWalk_directory]
        split at hends
        next husable =>
          rw [if_pos husable] at hends' hfound ⊢
          rw [if_pos husable]
          have hhere := isDirectoryAt_dropLast htree hentry
          rw [List.dropLast_concat] at hhere
          have hname : isName name = true :=
            htree.named _ (mem_entries_of_entryAt (by simp) hentry) name (by simp)
          exact hdescend _ _ _ _ (reach?_join hreach hhere hname hentry (by simp)) hends hends'
            hfound
        next => cases hends
    | link target => exact h.childWalk_link_eq htree hdescend hends hends' hfound

/-- Where nothing stood, a walk finds no file that was there before. -/
theorem Grows.not_isFile_of_new (h : Grows before after) (htree : before.IsTree)
    (hreach : after.reach? path = some (.entry here))
    (hnone : before.entryAt (here ++ [name]) = none)
    (hentry' : after.entryAt (here ++ [name]) = some entry') {found : Found}
    (hfound : found ∈ (after.childWalk (after.walkFrom fuel') above here path names
      (name, entry')).files) : before.isFile found.path = false := by
  have htree' := h.isTree htree
  -- what stands behind the name leads there, and it is as new as the name
  have hnew : ∀ below content executable,
      after.entryAt (here ++ name :: below) = some (.file content executable) →
        before.isFile (behind path (name :: below)) = false := by
    intro below content executable hfile
    rw [Bool.eq_false_iff]
    intro hold
    obtain ⟨_, _, hat⟩ := h.isFileAt hold (reach?_behind htree' hreach hfile (by simp))
    rw [← List.singleton_append, ← List.append_assoc, entryAt_append_of_none htree hnone] at hat
    cases hat
  rcases h.entryAt_cases (here ++ [name]) with
    hsame | ⟨-, hmade⟩ | ⟨-, content, executable, hwritten⟩
  · rw [hnone, hentry'] at hsame
    cases hsame
  · rw [hentry'] at hmade
    obtain rfl := Option.some.inj hmade
    rw [childWalk_directory] at hfound
    split at hfound
    next =>
      have hfree : LinkFree after (here ++ [name]) := fun below target hlink => by
        rcases h.entryAt_cases ((here ++ [name]) ++ below) with
          hsame | ⟨-, hother⟩ | ⟨-, _, _, hother⟩
        · rw [hlink, entryAt_append_of_none htree hnone] at hsame
          cases hsame
        · rw [hlink] at hother
          cases hother
        · rw [hlink] at hother
          cases hother
      obtain ⟨below, -, rfl, content, executable, hfile⟩ :=
        exists_below_of_mem_walkFrom htree' hfree hfound
      rw [List.append_assoc] at hfile
      exact hnew below content executable hfile
    next => cases hfound
  · rw [hentry'] at hwritten
    obtain rfl := Option.some.inj hwritten
    obtain rfl := List.mem_singleton.1 hfound
    exact hnew [] content executable hentry'

/-- Two walks that come to their end are the same, if the later one finds only what
was there before. -/
theorem Grows.walkFrom_eq (h : Grows before after) (htree : before.IsTree) (fuel fuel' : Nat) :
    SameWalk before (before.walkFrom fuel) (after.walkFrom fuel') := by
  induction fuel' generalizing fuel with
  | zero => exact fun _ _ _ _ _ _ hends' => by cases hends'
  | succ fuel' ih =>
      intro above here path names hreach hends hends' hfound
      cases fuel with
      | zero => cases hends
      | succ fuel =>
          rw [walkFrom_succ] at hends hends' hfound ⊢
          rw [walkFrom_succ]
          obtain ⟨-, hchildren⟩ := foldl_of_complete hends
          obtain ⟨-, hchildren'⟩ := foldl_of_complete hends'
          rw [foldl_andThen rfl fun child hchild => (hchildren child hchild).1,
            foldl_andThen rfl fun child hchild => (hchildren' child hchild).1]
          refine congrArg (Walk.mk · true) (congrArg _ (TextMap.flatMap_eq_of_sorted
            (before.children here).sorted (after.children here).sorted ?_ ?_))
          · rintro ⟨name, entry⟩ hchild
            have hentry := (mem_children_iff htree).1 hchild
            obtain ⟨entry', hentry'⟩ := h.exists_entryAt hentry
            have hchild' := (mem_children_iff (h.isTree htree)).2 hentry'
            refine ⟨(name, entry'), hchild', rfl, congrArg Walk.files ?_⟩
            exact h.childWalk_eq htree (ih fuel) hreach hentry hentry' (hchildren _ hchild).1
              (hchildren' _ hchild').1 fun found hmem =>
                hfound found ((hchildren' _ hchild').2 found hmem)
          · rintro ⟨name, entry'⟩ hchild' hnew
            have hentry' := (mem_children_iff (h.isTree htree)).1 hchild'
            have hnone : before.entryAt (here ++ [name]) = none := by
              cases hentry : before.entryAt (here ++ [name]) with
              | none => rfl
              | some entry =>
                  exact absurd rfl (hnew (name, entry) ((mem_children_iff htree).2 hentry))
            refine List.eq_nil_iff_forall_not_mem.2 fun found hmem => ?_
            have hold := hfound found ((hchildren' _ hchild').2 found hmem)
            rw [h.not_isFile_of_new htree (h.reach? hreach) hnone hentry' hmem] at hold
            cases hold

theorem Grows.walk_eq (h : Grows before after) (htree : before.IsTree) {root : Path}
    (hends : (before.walk root).complete = true) (hends' : (after.walk root).complete = true)
    (hfound : ∀ found ∈ (after.walk root).files, before.isFile found.path = true) :
    after.walk root = before.walk root := by
  cases hlocate : before.locate? root with
  | none =>
      rw [walk, hlocate] at hends
      cases hends
  | some location =>
      have hreach := reach?_of_target? (target?_of_locate? hlocate)
      obtain ⟨entry, hentry⟩ := exists_entryAt_of_reach? htree hreach
      rw [walk, h.locate? hlocate] at hends' hfound ⊢
      rw [walk, hlocate] at hends ⊢
      simp only [h.isDirectoryAt_eq hentry] at hends hends' hfound ⊢
      split at hends
      next hdirectory =>
        rw [if_pos hdirectory] at hends' hfound ⊢
        rw [if_pos hdirectory]
        exact h.walkFrom_eq htree _ _ _ _ _ _ hreach hends hends' hfound
      next hfile => rw [if_neg hfile, if_neg hfile]

/-! ## Walks where nothing has changed -/

/-- Below a location one tree is as the other. -/
def SameBelow (before after : FileTree) (here : Location) : Prop :=
  ∀ below, below ≠ [] → after.entryAt (here ++ below) = before.entryAt (here ++ below)

theorem SameBelow.concat (h : SameBelow before after here) (name : String) :
    SameBelow before after (here ++ [name]) := by
  intro below hbelow
  rw [List.append_assoc]
  exact h _ (by simp)

theorem SameBelow.children_eq (h : SameBelow before after here) (htree : before.IsTree)
    (htree' : after.IsTree) : after.children here = before.children here := by
  refine TextMap.eq_of_get?_eq fun name => Option.ext fun entry => ?_
  rw [← TextMap.mem_entries_iff, ← TextMap.mem_entries_iff, mem_children_iff htree',
    mem_children_iff htree, h [name] (by simp)]

theorem SameBelow.walkFrom_eq (h : SameBelow before after here) (htree : before.IsTree)
    (htree' : after.IsTree) (hfree : LinkFree before here) (hle : fuel ≤ fuel')
    (hends : (before.walkFrom fuel above here path names).complete = true) :
    after.walkFrom fuel' above here path names = before.walkFrom fuel above here path names := by
  induction fuel generalizing fuel' above here path names with
  | zero => cases hends
  | succ fuel ih =>
      obtain ⟨fuel', rfl⟩ := Nat.exists_eq_add_of_le' (Nat.le_trans (Nat.le_add_left 1 fuel) hle)
      rw [walkFrom_succ] at hends ⊢
      rw [walkFrom_succ, h.children_eq htree htree']
      obtain ⟨-, hchildren⟩ := foldl_of_complete hends
      have hsame : ∀ child ∈ (before.children here).entries,
          after.childWalk (after.walkFrom fuel') above here path names child =
            before.childWalk (before.walkFrom fuel) above here path names child := by
        rintro ⟨name, entry⟩ hchild
        have hchildEnds := (hchildren _ hchild).1
        cases entry with
        | file content executable => rfl
        | link target =>
            exact absurd ((mem_children_iff htree).1 hchild) (hfree [name] target)
        | directory =>
            rw [childWalk_directory] at hchildEnds ⊢
            rw [childWalk_directory]
            split at hchildEnds
            next husable =>
              rw [if_pos husable, if_pos husable]
              exact ih (h.concat name) (hfree.concat name) (Nat.le_of_succ_le_succ hle) hchildEnds
            next => cases hchildEnds
      exact List.foldl_ext _ _ _ fun walk child hchild => by rw [hsame child hchild]

/-- The larger tree has fuel enough for the walk of the smaller one. -/
theorem Grows.walk_eq_of_sameBelow (h : Grows before after) (htree : before.IsTree) {root : Path}
    (hlocate : before.locate? root = some location) (hsame : SameBelow before after location)
    (hfree : LinkFree before location) (hends : (before.walk root).complete = true) :
    after.walk root = before.walk root := by
  obtain ⟨entry, hentry⟩ :=
    exists_entryAt_of_reach? htree (reach?_of_target? (target?_of_locate? hlocate))
  have hlength := Nat.add_le_add_right (h.length_le htree) 2
  rw [walk, hlocate] at hends
  rw [walk, walk, h.locate? hlocate, hlocate]
  simp only [h.isDirectoryAt_eq hentry] at hends ⊢
  split at hends
  next hdirectory =>
    rw [if_pos hdirectory, if_pos hdirectory]
    exact hsame.walkFrom_eq htree (h.isTree htree) hfree (Nat.mul_le_mul hlength hlength) hends
  next hfile => rw [if_neg hfile, if_neg hfile]

end Walks

end SolidityBuild.FileTree
