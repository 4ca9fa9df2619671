import Mathlib.Order.Bounds.Defs
import SolidityBuild.Proofs.Project.Saving

/-!
Names of networks. A configuration file is refused if two of its networks share a name,
with the first name that comes back; otherwise it is loaded, and in the configuration
every name belongs to one network at most, which is found under it.
-/

namespace SolidityBuild.Project

open Json

variable {t : FileTree} {o : Overrides} {directory path canonical : Path} {file : ConfigFile}
  {c : Config} {networks : List Network} {n : Network} {seen names : List String} {name x : String}

/-! ## Names that come back -/

/-- The name at a position stands at one before it, too. -/
def RepeatsAt (names : List String) (i : Nat) : Prop :=
  ∃ x, names[i]? = some x ∧ ∃ j < i, names[j]? = some x

/-- The name at the first position with a name that stands at one before it, too. -/
def IsFirstRepeated (names : List String) (x : String) : Prop :=
  ∃ i, IsLeast {i | RepeatsAt names i} i ∧ names[i]? = some x

theorem nodup_iff_forall_not_repeatsAt : names.Nodup ↔ ∀ i, ¬ RepeatsAt names i := by
  rw [List.nodup_iff_getElem?_ne_getElem?]
  constructor
  · rintro h i ⟨x, hx, j, hj, hx'⟩
    have hi : i < names.length := (List.getElem?_eq_some_iff.1 hx).1
    exact h j i hj hi (hx'.trans hx.symm)
  · intro h j i hj hi hsame
    have hx := List.getElem?_eq_getElem hi
    exact h i ⟨names[i], hx, j, hj, hsame.trans hx⟩

theorem repeatsAt_take_iff {i k : Nat} :
    RepeatsAt (names.take i) k ↔ k < i ∧ RepeatsAt names k := by
  simp only [RepeatsAt, List.getElem?_take]
  constructor
  · rintro ⟨x, hx, j, hj, hjx⟩
    obtain ⟨hk, hx⟩ := Option.ite_none_right_eq_some.1 hx
    exact ⟨hk, x, hx, j, hj, (Option.ite_none_right_eq_some.1 hjx).2⟩
  · rintro ⟨hk, x, hx, j, hj, hjx⟩
    exact ⟨x, by rwa [if_pos hk], j, hj, by rwa [if_pos (Nat.lt_trans hj hk)]⟩

/-- The first name that comes back stands behind names of which none does. -/
theorem isFirstRepeated_iff :
    IsFirstRepeated names x ↔
      ∃ front back, names = front ++ x :: back ∧ x ∈ front ∧ front.Nodup := by
  constructor
  · rintro ⟨i, ⟨⟨x', hx', j, hj, hjx⟩, hleast⟩, hx⟩
    obtain rfl : x' = x := Option.some.inj (hx'.symm.trans hx)
    obtain ⟨hi, hget⟩ := List.getElem?_eq_some_iff.1 hx
    refine ⟨names.take i, names.drop (i + 1), ?_, ?_, ?_⟩
    · rw [← hget, ← List.drop_eq_getElem_cons hi, List.take_append_drop]
    · rw [← List.getElem?_take_of_lt hj] at hjx
      exact List.mem_of_getElem? hjx
    · refine nodup_iff_forall_not_repeatsAt.2 fun k hk => ?_
      obtain ⟨hlt, hrepeats⟩ := repeatsAt_take_iff.1 hk
      exact Nat.not_le_of_lt hlt (hleast hrepeats)
  · rintro ⟨front, back, rfl, hx, hfront⟩
    have hget : (front ++ x :: back)[front.length]? = some x := by simp
    obtain ⟨j, hj, hjx⟩ := List.getElem_of_mem hx
    have hbefore : (front ++ x :: back)[j]? = some x := by
      rw [List.getElem?_append_left hj, List.getElem?_eq_getElem hj, hjx]
    refine ⟨front.length, ⟨⟨x, hget, j, hj, hbefore⟩, fun k hk => ?_⟩, hget⟩
    by_contra hlt
    have hrepeats : RepeatsAt ((front ++ x :: back).take front.length) k :=
      repeatsAt_take_iff.2 ⟨Nat.lt_of_not_le hlt, hk⟩
    rw [List.take_left] at hrepeats
    exact nodup_iff_forall_not_repeatsAt.1 hfront k hrepeats

namespace ConfigFile

/-- Behind names that have been seen, once each, the first name is found that is one of
them or comes back. -/
theorem duplicateIn_eq_some_iff (hseen : seen.Nodup) :
    duplicateIn seen networks = some x ↔
      ∃ front back, networks.map (·.name) = front ++ x :: back ∧ x ∈ front ++ seen ∧
        (front ++ seen).Nodup := by
  induction networks generalizing seen with
  | nil => simp [duplicateIn]
  | cons n networks ih =>
    rw [duplicateIn, List.map_cons]
    by_cases hmem : n.name ∈ seen
    · rw [if_pos hmem, Option.some.injEq]
      constructor
      · rintro rfl
        exact ⟨[], _, rfl, hmem, hseen⟩
      · rintro ⟨front, back, hnames, -, hnodup⟩
        cases front with
        | nil => exact (List.cons.inj hnames).1
        | cons first front =>
          obtain ⟨rfl, -⟩ := List.cons.inj hnames
          have hnot := (List.nodup_cons.1 hnodup).1
          exact absurd (List.mem_append_right front hmem) hnot
    · rw [if_neg hmem, ih (List.nodup_cons.2 ⟨hmem, hseen⟩)]
      constructor
      · rintro ⟨front, back, hnames, hx, hnodup⟩
        refine ⟨n.name :: front, back, by rw [hnames, List.cons_append], ?_, ?_⟩
        · simpa [or_left_comm] using hx
        · exact List.nodup_middle.1 hnodup
      · rintro ⟨front, back, hnames, hx, hnodup⟩
        cases front with
        | nil =>
          obtain ⟨rfl, -⟩ := List.cons.inj hnames
          exact absurd hx hmem
        | cons first front =>
          obtain ⟨rfl, hrest⟩ := List.cons.inj hnames
          refine ⟨front, back, hrest, ?_, List.nodup_middle.2 hnodup⟩
          simpa [or_left_comm] using hx

theorem duplicateIn_eq_none_iff (hseen : seen.Nodup) :
    duplicateIn seen networks = none ↔ (networks.map (·.name) ++ seen).Nodup := by
  induction networks generalizing seen with
  | nil => simpa [duplicateIn] using hseen
  | cons n networks ih =>
    rw [duplicateIn, List.map_cons, List.cons_append]
    by_cases hmem : n.name ∈ seen
    · simp [hmem]
    · rw [if_neg hmem, ih (List.nodup_cons.2 ⟨hmem, hseen⟩), List.nodup_middle]

theorem duplicate?_eq_some_iff (f : ConfigFile) :
    f.duplicate? = some x ↔ IsFirstRepeated (f.networks.map (·.name)) x := by
  simp only [duplicate?, duplicateIn_eq_some_iff List.nodup_nil, List.append_nil,
    isFirstRepeated_iff]

theorem duplicate?_eq_none_iff (f : ConfigFile) :
    f.duplicate? = none ↔ (f.networks.map (·.name)).Nodup := by
  rw [duplicate?, duplicateIn_eq_none_iff List.nodup_nil, List.append_nil]

/-- Values from the environment leave the networks alone. -/
theorem duplicate?_override (f : ConfigFile) (o : Overrides) :
    (f.override o).duplicate? = f.duplicate? := rfl

end ConfigFile

namespace Config

/-! ## Looking up -/

/-- Where names are not shared, a network is found under its name, and nothing else. -/
theorem network_eq_ok_iff (hnames : (c.networks.map (·.name)).Nodup) :
    c.network name = .ok n ↔ n ∈ c.networks ∧ n.name = name := by
  rw [network]
  constructor
  · intro h
    cases hfind : c.networks.find? (·.name = name) with
    | none =>
      rw [hfind] at h
      cases h
    | some m =>
      rw [hfind] at h
      obtain rfl : m = n := Except.ok.inj h
      exact ⟨List.mem_of_find?_eq_some hfind, by simpa using List.find?_some hfind⟩
  · rintro ⟨hmem, hname⟩
    obtain ⟨m, hfind⟩ : ∃ m, c.networks.find? (·.name = name) = some m :=
      Option.isSome_iff_exists.1 (List.find?_isSome.2 ⟨n, hmem, by simpa using hname⟩)
    have hsame : m.name = n.name := by
      rw [hname]
      simpa using List.find?_some hfind
    rw [hfind, List.inj_on_of_nodup_map hnames (List.mem_of_find?_eq_some hfind) hmem hsame]

/-! ## Loading -/

/-- A configuration file that is well formed: it can be read, its text is that of a
configuration, and a canonical path leads to it. -/
structure IsConfigAt (t : FileTree) (directory path : Path) (file : ConfigFile)
    (canonical : Path) : Prop where
  reads : ∃ text, t.textFrom? directory path = some text ∧
    (Json.read text).decode (ConfigFile.read : Decoder Empty ConfigFile) = .ok file
  settles : t.canonical? (directory.join path) = some canonical

/-- All that decides about a well-formed file are the names of its networks. -/
theorem IsConfigAt.loadFrom_eq (h : IsConfigAt t directory path file canonical) (o : Overrides) :
    loadFrom t o directory path =
      match file.duplicate? with
      | some x => .error (.duplicateNetwork x)
      | none => .ok ⟨canonical, file.override o⟩ := by
  obtain ⟨⟨text, htext, hfile⟩, hcanonical⟩ := h
  simp only [loadFrom, htext, hfile, hcanonical, Option.elim, bind, Except.bind,
    file.duplicate?_override]
  cases file.duplicate? <;> rfl

theorem isConfigAt_of_ok (h : loadFrom t o directory path = .ok c) :
    ∃ file canonical, IsConfigAt t directory path file canonical ∧ c.networks = file.networks ∧
      (c.networks.map (·.name)).Nodup := by
  obtain ⟨text, file, canonical, htext, hfile, hcanonical, hunique, rfl⟩ :=
    loadFrom_eq_ok_iff_steps.1 h
  rw [file.duplicate?_override, file.duplicate?_eq_none_iff] at hunique
  exact ⟨file, canonical, ⟨⟨text, htext, hfile⟩, hcanonical⟩, rfl, hunique⟩

/-- Names are keys of networks. A well-formed configuration file is refused for a name if
and only if that is the first one to come back, so if and only if two networks share a
name, and is loaded otherwise; in every configuration that was loaded, whatever values
the environment has, a network is found under its name and under no other. -/
theorem names_are_keys (t : FileTree) (o : Overrides) (directory path : Path) :
    (∀ file canonical, IsConfigAt t directory path file canonical →
      (∀ x, loadFrom t o directory path = .error (.duplicateNetwork x) ↔
        IsFirstRepeated (file.networks.map (·.name)) x) ∧
      ((∃ x, loadFrom t o directory path = .error (.duplicateNetwork x)) ↔
        ∃ i, RepeatsAt (file.networks.map (·.name)) i) ∧
      ((∃ c, loadFrom t o directory path = .ok c) ↔
        ∀ i, ¬ RepeatsAt (file.networks.map (·.name)) i)) ∧
    ∀ c, loadFrom t o directory path = .ok c →
      (∃ file canonical, IsConfigAt t directory path file canonical ∧
        c.networks = file.networks) ∧
      ∀ n name, c.network name = .ok n ↔ n ∈ c.networks ∧ n.name = name := by
  refine ⟨fun file canonical hconfig => ?_, fun c hload => ?_⟩
  · have hnone := nodup_iff_forall_not_repeatsAt.symm.trans file.duplicate?_eq_none_iff.symm
    have hsome : (∃ i, RepeatsAt (file.networks.map (·.name)) i) ↔ file.duplicate? ≠ none := by
      rw [← not_iff_not, not_exists, not_not, hnone]
    rw [hconfig.loadFrom_eq o, hnone, hsome]
    simp only [← file.duplicate?_eq_some_iff]
    cases file.duplicate? <;> simp
  · obtain ⟨file, canonical, hconfig, hnetworks, hnames⟩ := isConfigAt_of_ok hload
    exact ⟨⟨file, canonical, hconfig, hnetworks⟩, fun n name => network_eq_ok_iff hnames⟩

/-! ## Two names for four networks -/

def crowdedNames : List String := ["dev", "main", "main", "dev"]

def crowdedFile : ConfigFile :=
  { ConfigFile.initial with
    networks := crowdedNames.map fun name =>
      ⟨name, ⟨"http", some "localhost:8545", some 8545, "/", none, none⟩, 31337, none⟩ }

def crowded : FileTree :=
  ⟨[(["steelshards.json"], .file (.text crowdedFile.write.indented) false)]⟩

theorem isConfigAt_crowded :
    IsConfigAt crowded .root ⟨"/steelshards.json"⟩ crowdedFile ⟨"/steelshards.json"⟩ := by
  have hurl : ∀ n ∈ crowdedFile.networks, n.UrlReadsBack := by decide +kernel
  refine ⟨⟨crowdedFile.write.indented, rfl, ?_⟩, by decide +kernel⟩
  exact crowdedFile.decode_text hurl

/-- The name that comes back first is complained of, and not the one that stands first;
a network that was loaded is found under its name. -/
theorem repeated_name_refused :
    IsConfigAt crowded .root ⟨"/steelshards.json"⟩ crowdedFile ⟨"/steelshards.json"⟩ ∧
    IsFirstRepeated crowdedNames "main" ∧
    loadFrom crowded ⟨some "src", none⟩ .root ⟨"/steelshards.json"⟩ =
      .error (.duplicateNetwork "main") ∧
    loadFrom linked .unset ⟨"/work"⟩ ⟨"app/steelshards.json"⟩ = .ok linkedConfig ∧
    linkedConfig.network "dev" = .ok linkedNetwork := by
  have hfirst : IsFirstRepeated crowdedNames "main" :=
    isFirstRepeated_iff.2 ⟨["dev", "main"], ["dev"], rfl, by simp, by decide⟩
  have hrefused := ((names_are_keys crowded ⟨some "src", none⟩ .root ⟨"/steelshards.json"⟩).1
    crowdedFile _ isConfigAt_crowded).1 "main"
  have hfound := ((names_are_keys linked .unset ⟨"/work"⟩ ⟨"app/steelshards.json"⟩).2
    linkedConfig load_linked).2 linkedNetwork "dev"
  exact ⟨isConfigAt_crowded, hfirst, hrefused.2 hfirst, load_linked,
    hfound.2 ⟨List.mem_singleton_self _, rfl⟩⟩

end Config

end SolidityBuild.Project
