import Mathlib.Data.List.Induction
import SolidityBuild.FileTree.Basic
import SolidityBuild.Proofs.Path

/-!
Directories that a path stands in. A path from the root stands in the root and in
every directory that it goes through, each spelled as far as its last name, so that the
text of a directory begins the text of the path. The parent of a path is the longest of
them: going from parent to parent passes through all of them, and each is shorter than
the one before it.
-/

namespace SolidityBuild.Path

open FileTree (pathOf)

variable {p q directory other : Path} {name : String} {front idle back rest segments : List String}

/-! ## Segments that name nothing -/

/-- A segment that names nothing. -/
def IsIdle (segment : String) : Prop := segment = "" ∨ segment = "."

/-- Segments that end with a name, if there are any. -/
def EndsNamed (segments : List String) : Prop := ∀ last ∈ segments.getLast?, ¬ IsIdle last

theorem endsNamed_concat (hname : ¬ IsIdle name) : EndsNamed (front ++ [name]) := by
  intro last hlast
  rw [List.getLast?_concat, Option.mem_some_iff] at hlast
  exact hlast ▸ hname

theorem exists_concat_of_endsNamed (h : EndsNamed segments) (hne : segments ≠ []) :
    ∃ front name, segments = front ++ [name] ∧ ¬ IsIdle name := by
  refine ⟨segments.dropLast, segments.getLast hne, ?_, ?_⟩
  · exact (List.dropLast_concat_getLast hne).symm
  · exact h _ (List.getLast?_eq_some_getLast hne)

theorem EndsNamed.exists_mem (h : EndsNamed (front ++ rest)) (hrest : rest ≠ []) :
    ∃ s ∈ rest, ¬ IsIdle s := by
  refine ⟨rest.getLast hrest, List.getLast_mem hrest, h _ ?_⟩
  rw [List.getLast?_append, List.getLast?_eq_some_getLast hrest]
  rfl

/-- Segments are some that end with a name, and behind them some that name nothing. -/
theorem exists_endsNamed (segments : List String) :
    ∃ front idle, segments = front ++ idle ∧ EndsNamed front ∧ ∀ s ∈ idle, IsIdle s := by
  induction segments using List.reverseRecOn with
  | nil => exact ⟨[], [], rfl, by simp [EndsNamed], by simp⟩
  | append_singleton segments segment ih =>
    by_cases hsegment : IsIdle segment
    · obtain ⟨front, idle, rfl, hfront, hidle⟩ := ih
      refine ⟨front, idle ++ [segment], List.append_assoc .., hfront, ?_⟩
      exact List.forall_mem_append.2 ⟨hidle, List.forall_mem_singleton.2 hsegment⟩
    · exact ⟨segments ++ [segment], [], (List.append_nil _).symm, endsNamed_concat hsegment,
        by simp⟩

theorem dropIdle_append (hidle : ∀ s ∈ idle, IsIdle s) (hrest : rest ≠ []) :
    dropIdle (idle ++ rest) = dropIdle rest := by
  induction idle with
  | nil => rfl
  | cons segment idle ih =>
    obtain ⟨hsegment, hidle⟩ := List.forall_mem_cons.1 hidle
    have hmore : ¬ (idle ++ rest).isEmpty = true := by simp [hrest]
    rw [List.cons_append, dropIdle, if_pos ⟨hsegment, hmore⟩, ih hidle]

theorem dropIdle_cons (hname : ¬ IsIdle name) : dropIdle (name :: rest) = name :: rest := by
  rw [dropIdle, if_neg fun h => hname h.1]

/-! ## Standing in a directory -/

/-- A path from the root stands in a directory: behind it there is at least one more
name. The directory is the root, or it ends with a name. -/
def StandsIn (p directory : Path) : Prop :=
  ∃ front back, segmentsOf p.text = "" :: (front ++ back) ∧ EndsNamed front ∧
    (∃ s ∈ back, ¬ IsIdle s) ∧ directory = pathOf front

/-- A path is the directory, or stands in it. -/
def Within (p directory : Path) : Prop := p = directory ∨ p.StandsIn directory

theorem slash_not_mem_of_segmentsOf (h : segmentsOf p.text = "" :: segments) :
    ∀ s ∈ segments, '/' ∉ s.toList :=
  fun _ hs => slash_not_mem_of_mem_segmentsOf (h ▸ List.mem_cons_of_mem "" hs)

theorem segmentsOf_pathOf (hslash : ∀ s ∈ segments, '/' ∉ s.toList) (hne : segments ≠ []) :
    segmentsOf (pathOf segments).text = "" :: segments := by
  have htext : (pathOf segments).text = "" ++ "/" ++ joinSegments segments := by simp [pathOf]
  rw [htext, segmentsOf_append_slash, segmentsOf_joinSegments hne hslash, segmentsOf_empty]
  rfl

theorem segmentsOf_root : segmentsOf (pathOf []).text = ["", ""] := by
  decide

theorem isAbsolute_pathOf (segments : List String) : (pathOf segments).isAbsolute = true := by
  simp [pathOf, isAbsolute, isRooted]

theorem StandsIn.isAbsolute (h : p.StandsIn directory) : directory.isAbsolute = true := by
  obtain ⟨front, -, -, -, -, rfl⟩ := h
  exact isAbsolute_pathOf front

theorem not_standsIn_root : ¬ (pathOf []).StandsIn directory := by
  rintro ⟨front, back, hroot, -, ⟨s, hs, hname⟩, -⟩
  rw [segmentsOf_root] at hroot
  have hmem : s ∈ [""] := by
    rw [(List.cons.inj hroot).2]
    exact List.mem_append_right front hs
  exact hname (.inl (List.mem_singleton.1 hmem))

theorem StandsIn.trans (h : p.StandsIn directory) (h' : directory.StandsIn other) :
    p.StandsIn other := by
  obtain ⟨front, back, hp, -, -, rfl⟩ := h
  by_cases hfront : front = []
  · subst hfront
    exact absurd h' not_standsIn_root
  obtain ⟨front', back', hdirectory, hnamed, ⟨s, hs, hname⟩, rfl⟩ := h'
  have hslash := (List.forall_mem_append.1 (slash_not_mem_of_segmentsOf hp)).1
  rw [segmentsOf_pathOf hslash hfront] at hdirectory
  obtain rfl := (List.cons.inj hdirectory).2
  refine ⟨front', back' ++ back, ?_, hnamed, ⟨s, List.mem_append_left back hs, hname⟩, rfl⟩
  rw [hp, List.append_assoc]

theorem Within.trans (h : p.Within directory) (h' : directory.StandsIn other) :
    p.Within other := by
  rcases h with rfl | h
  · exact .inr h'
  · exact .inr (h.trans h')

/-! ## Texts -/

theorem joinSegments_append (hslash : ∀ s ∈ front ++ back, '/' ∉ s.toList) (hfront : front ≠ [])
    (hback : back ≠ []) :
    joinSegments (front ++ back) = joinSegments front ++ "/" ++ joinSegments back := by
  obtain ⟨hslash, hslash'⟩ := List.forall_mem_append.1 hslash
  have hsegments : segmentsOf (joinSegments front ++ "/" ++ joinSegments back) = front ++ back := by
    rw [segmentsOf_append_slash, segmentsOf_joinSegments hfront hslash,
      segmentsOf_joinSegments hback hslash']
  rw [← hsegments, joinSegments_segmentsOf]

/-- The text of a path goes on behind that of a directory that it stands in. -/
theorem StandsIn.exists_text (h : p.StandsIn directory) :
    ∃ beyond, beyond ≠ "" ∧ p.text = directory.text ++ beyond := by
  obtain ⟨front, back, hp, -, ⟨s, hs, hname⟩, rfl⟩ := h
  have hback : back ≠ [] := List.ne_nil_of_mem hs
  have hslash := slash_not_mem_of_segmentsOf hp
  have htext : p.text = "/" ++ joinSegments (front ++ back) := by
    rw [← joinSegments_segmentsOf p.text, hp, joinSegments_cons (by simp [hback]),
      String.empty_append]
  by_cases hfront : front = []
  · subst hfront
    refine ⟨joinSegments back, ?_, by rw [htext, pathOf]; rfl⟩
    intro hempty
    have hsegments := segmentsOf_joinSegments hback hslash
    rw [hempty, segmentsOf_empty] at hsegments
    rw [← hsegments] at hs
    exact hname (.inl (List.mem_singleton.1 hs))
  · refine ⟨"/" ++ joinSegments back, by simp [← String.toList_inj], ?_⟩
    rw [htext, joinSegments_append hslash hfront hback, pathOf]
    simp only [String.append_assoc]

theorem StandsIn.length_lt (h : p.StandsIn directory) :
    directory.text.length < p.text.length := by
  obtain ⟨beyond, hbeyond, htext⟩ := h.exists_text
  have hpositive : beyond.length ≠ 0 := by simpa using hbeyond
  rw [htext, String.length_append]
  omega

theorem Within.length_le (h : p.Within directory) : directory.text.length ≤ p.text.length := by
  rcases h with rfl | h
  · exact Nat.le_refl _
  · exact Nat.le_of_lt h.length_lt

/-- A directory that a path is within is told by the length of its text. -/
theorem Within.eq_of_length (h : p.Within directory) (h' : p.Within other)
    (hlength : directory.text.length = other.text.length) : directory = other := by
  have hbegins : ∀ d, p.Within d → d.text.toList <+: p.text.toList := by
    rintro d (rfl | hd)
    · exact List.prefix_refl _
    · obtain ⟨beyond, -, htext⟩ := hd.exists_text
      rw [htext, String.toList_append]
      exact List.prefix_append _ _
  have hlists : directory.text.toList <+: other.text.toList :=
    List.prefix_of_prefix_length_le (hbegins _ h) (hbegins _ h')
      (by simpa only [String.length_toList] using Nat.le_of_eq hlength)
  have hsame : directory.text.toList = other.text.toList :=
    hlists.eq_of_length (by simpa only [String.length_toList] using hlength)
  exact eq_of_text (String.toList_injective hsame)

/-! ## Parents -/

theorem parent?_of_idle (hp : segmentsOf p.text = "" :: idle) (hidle : ∀ s ∈ idle, IsIdle s) :
    p.parent? = none := by
  have hreverse : (segmentsOf p.text).reverse = idle.reverse ++ [""] := by simp [hp]
  have hdrop : dropIdle (idle.reverse ++ [""]) = [""] := by
    rw [dropIdle_append (by simpa using hidle) (List.cons_ne_nil "" [])]
    rfl
  rw [parent?, hreverse, hdrop]
  rfl

theorem parent?_of_name (hp : segmentsOf p.text = "" :: (front ++ (idle ++ name :: back)))
    (hfront : EndsNamed front) (hidle : ∀ s ∈ idle, IsIdle s) (hname : ¬ IsIdle name)
    (hback : ∀ s ∈ back, IsIdle s) : p.parent? = some (pathOf front) := by
  have hreverse : (segmentsOf p.text).reverse =
      back.reverse ++ name :: (idle.reverse ++ (front.reverse ++ [""])) := by
    simp [hp]
  have hdrop : dropIdle (segmentsOf p.text).reverse =
      name :: (idle.reverse ++ (front.reverse ++ [""])) := by
    rw [hreverse, dropIdle_append (by simpa using hback) (by simp), dropIdle_cons hname]
  have hempty : name ≠ "" := fun h => hname (.inl h)
  have hkept : dropIdle (idle.reverse ++ (front.reverse ++ [""])) = front.reverse ++ [""] := by
    rw [dropIdle_append (by simpa using hidle) (by simp)]
    by_cases hne : front = []
    · subst hne
      rfl
    · obtain ⟨init, last, rfl, hlast⟩ := exists_concat_of_endsNamed hfront hne
      rw [List.reverse_append, List.reverse_singleton, List.singleton_append, List.cons_append,
        dropIdle_cons hlast]
  rw [parent?, hdrop]
  simp only [hkept]
  rw [if_neg (by simp)]
  by_cases hne : front = []
  · subst hne
    have hroot : ([] : List String).reverse ++ [""] = [""] := rfl
    rw [if_pos hroot, if_neg hempty]
    rfl
  · rw [if_neg (by simp [hne])]
    have hcons : (front.reverse ++ [""]).reverse = "" :: front := by simp
    rw [hcons, joinSegments_cons hne, String.empty_append]
    rfl

/-- What ends in front of another name ends in front of the last one. -/
theorem exists_append_of_name {front' back' : List String}
    (h : front' ++ back' = front ++ name :: back) (hback : ∀ s ∈ back, IsIdle s)
    (hmore : ∃ s ∈ back', ¬ IsIdle s) : ∃ between, front = front' ++ between := by
  rcases List.append_eq_append_iff.1 h with ⟨between, hfront, -⟩ | ⟨between, hfront', hrest⟩
  · exact ⟨between, hfront⟩
  · cases between with
    | nil => exact ⟨[], by rw [hfront', List.append_nil, List.append_nil]⟩
    | cons first between =>
      obtain ⟨s, hs, hname⟩ := hmore
      obtain ⟨-, rfl⟩ := List.cons.inj hrest
      exact absurd (hback s (List.mem_append_right between hs)) hname

/-- A path from the root stands in its parent, and in what its parent stands in; without
a parent it stands in nothing. -/
theorem parent?_spec (hp : p.isAbsolute = true) :
    match p.parent? with
    | none => ∀ directory, ¬ p.StandsIn directory
    | some parent => p.StandsIn parent ∧
        ∀ directory, p.StandsIn directory → parent.Within directory := by
  obtain ⟨segments, -, hsegments⟩ := isRooted_iff.1 hp
  obtain ⟨named, back, rfl, hnamed, hback⟩ := exists_endsNamed segments
  by_cases hempty : named = []
  · subst hempty
    rw [List.nil_append] at hsegments
    rw [parent?_of_idle hsegments hback]
    rintro directory ⟨front', back', hsegments', -, ⟨s, hs, hname⟩, -⟩
    have hsame := (List.cons.inj (hsegments.symm.trans hsegments')).2
    exact hname (hback s (hsame ▸ List.mem_append_right front' hs))
  obtain ⟨before, name, rfl, hname⟩ := exists_concat_of_endsNamed hnamed hempty
  obtain ⟨front, idle, rfl, hfront, hidle⟩ := exists_endsNamed before
  have hsplit : segmentsOf p.text = "" :: (front ++ (idle ++ name :: back)) := by
    simpa using hsegments
  have hstands : p.StandsIn (pathOf front) :=
    ⟨front, idle ++ name :: back, hsplit, hfront, ⟨name, by simp, hname⟩, rfl⟩
  rw [parent?_of_name hsplit hfront hidle hname hback]
  refine ⟨hstands, ?_⟩
  rintro directory ⟨front', back', hsegments', hfront', hmore, rfl⟩
  have hsame : front' ++ back' = (front ++ idle) ++ name :: back := by
    have h := (List.cons.inj (hsegments'.symm.trans hsplit)).2
    rw [h, List.append_assoc]
  -- a directory ends in front of the last name, and not among what stands idle there
  obtain ⟨between, hbetween⟩ := exists_append_of_name hsame hback hmore
  rcases List.append_eq_append_iff.1 hbetween with ⟨rest, rfl, hrest⟩ | ⟨rest, rfl, -⟩
  · have hnil : rest = [] := by
      by_contra hne
      obtain ⟨s, hs, hname⟩ := hfront'.exists_mem hne
      exact hname (hidle s (hrest ▸ List.mem_append_left between hs))
    rw [hnil, List.append_nil]
    exact .inl rfl
  · by_cases hnil : rest = []
    · rw [hnil, List.append_nil]
      exact .inl rfl
    · have hslash := (List.forall_mem_append.1 (slash_not_mem_of_segmentsOf hsplit)).1
      have hparent := segmentsOf_pathOf hslash (List.append_ne_nil_of_right_ne_nil front' hnil)
      exact .inr ⟨front', rest, hparent, hfront', hfront.exists_mem hnil, rfl⟩

theorem StandsIn.of_parent? {parent : Path} (hp : p.isAbsolute = true)
    (hparent : p.parent? = some parent) : p.StandsIn parent := by
  have hspec := parent?_spec hp
  rw [hparent] at hspec
  exact hspec.1

theorem StandsIn.within_parent {parent : Path} (h : p.StandsIn directory)
    (hp : p.isAbsolute = true) (hparent : p.parent? = some parent) : parent.Within directory := by
  have hspec := parent?_spec hp
  rw [hparent] at hspec
  exact hspec.2 directory h

theorem not_standsIn_of_parent? (hp : p.isAbsolute = true) (hparent : p.parent? = none) :
    ¬ p.StandsIn directory := by
  have hspec := parent?_spec hp
  rw [hparent] at hspec
  exact hspec directory

/-! ## Going up -/

theorem length_pos_of_isAbsolute (hp : p.isAbsolute = true) : 0 < p.text.length := by
  refine Nat.pos_of_ne_zero fun hzero => ?_
  have hempty : p.text = "" := by simpa using hzero
  rw [isAbsolute, hempty] at hp
  exact absurd hp (by decide)

/-- All that counts is that the fuel is enough: each parent is shorter. -/
theorem ancestorsWithin_eq {fuel fuel' : Nat} (hp : p.isAbsolute = true)
    (hfuel : p.text.length ≤ fuel) (hfuel' : p.text.length ≤ fuel') :
    ancestorsWithin fuel p = ancestorsWithin fuel' p := by
  induction fuel generalizing p fuel' with
  | zero =>
    have hpositive := length_pos_of_isAbsolute hp
    omega
  | succ fuel ih =>
    have hpositive := length_pos_of_isAbsolute hp
    obtain ⟨fuel', rfl⟩ := Nat.exists_eq_add_one_of_ne_zero (by omega : fuel' ≠ 0)
    rw [ancestorsWithin, ancestorsWithin]
    cases hparent : p.parent? with
    | none => rfl
    | some parent =>
      have hstands := StandsIn.of_parent? hp hparent
      have hlt := hstands.length_lt
      exact congrArg (p :: ·) (ih hstands.isAbsolute (by omega) (by omega))

theorem ancestors_of_none (hparent : p.parent? = none) : p.ancestors = [p] := by
  rw [ancestors]
  cases p.text.length with
  | zero => rfl
  | succ fuel => rw [ancestorsWithin, hparent]

theorem ancestors_of_some {parent : Path} (hp : p.isAbsolute = true)
    (hparent : p.parent? = some parent) : p.ancestors = p :: parent.ancestors := by
  have hstands := StandsIn.of_parent? hp hparent
  have hlt := hstands.length_lt
  obtain ⟨fuel, hfuel⟩ := Nat.exists_eq_add_one_of_ne_zero (by omega : p.text.length ≠ 0)
  have hrest : ancestorsWithin fuel parent = ancestorsWithin parent.text.length parent :=
    ancestorsWithin_eq hstands.isAbsolute (by omega) (Nat.le_refl _)
  rw [ancestors, hfuel, ancestorsWithin, hparent]
  simp only [hrest, ancestors]

end SolidityBuild.Path
