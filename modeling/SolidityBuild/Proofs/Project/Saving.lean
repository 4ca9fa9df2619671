import SolidityBuild.Proofs.FileTree.Canonical
import SolidityBuild.Proofs.Project.Redaction

/-!
Configurations that are loaded, and saved again. A configuration is saved at the
canonical path of the file that it was loaded from; both that path and the path
that was given lead there still, to the text of the configuration, which is loaded
as the configuration without its secrets.
-/

namespace SolidityBuild.Project

open Json FileTree

variable {t : FileTree} {location : Location} {content : Content} {executable : Bool}
  {directory path : Path} {o : Overrides} {c : Config} {file : ConfigFile} {text : String}

namespace ConfigFile

theorem duplicateIn_redacted (seen : List String) (networks : List Network) :
    duplicateIn seen (networks.map Network.redacted) = duplicateIn seen networks := by
  induction networks generalizing seen with
  | nil => rfl
  | cons n ns ih =>
      rw [List.map_cons, duplicateIn, duplicateIn, ih]
      rfl

theorem duplicate?_redacted (f : ConfigFile) : f.redacted.duplicate? = f.duplicate? :=
  duplicateIn_redacted [] f.networks

end ConfigFile

/-- An environment without any value. -/
def Overrides.unset : Overrides := ⟨none, none⟩

@[simp] theorem ConfigFile.override_unset (f : ConfigFile) : f.override .unset = f := rfl

namespace Config

/-! ## Loading -/

/-- Loading takes the text, reads it, finds the canonical path and checks the names
of the networks. -/
theorem loadFrom_eq_ok_iff_steps :
    loadFrom t o directory path = .ok c ↔ ∃ text file canonical,
      t.textFrom? directory path = some text ∧
      (Json.read text).decode (ConfigFile.read : Decoder Empty ConfigFile) = .ok file ∧
      t.canonical? (directory.join path) = some canonical ∧
      (file.override o).duplicate? = none ∧ c = ⟨canonical, file.override o⟩ := by
  constructor
  · intro h
    unfold loadFrom at h
    cases htext : t.textFrom? directory path with
    | none => rw [htext] at h; cases h
    | some text =>
        simp only [htext, Option.elim, bind, Except.bind] at h
        cases hfile : (Json.read text).decode (ConfigFile.read : Decoder Empty ConfigFile) with
        | error fault => rw [hfile] at h; cases h
        | ok file =>
            cases hcanonical : t.canonical? (directory.join path) with
            | none => rw [hfile, hcanonical] at h; cases h
            | some canonical =>
                simp only [hfile, hcanonical] at h
                cases hduplicate : (file.override o).duplicate? with
                | some name => simp only [hduplicate] at h; cases h
                | none =>
                    simp only [hduplicate] at h
                    exact ⟨text, file, canonical, rfl, hfile, rfl, hduplicate,
                      (Except.ok.inj h).symm⟩
  · rintro ⟨text, file, canonical, htext, hfile, hcanonical, hduplicate, rfl⟩
    simp only [loadFrom, htext, hfile, hcanonical, hduplicate, Option.elim, bind, Except.bind,
      pure, Except.pure]

/-- A configuration is loaded from the text of a file, under its canonical path. -/
theorem loadFrom_eq_ok_iff :
    loadFrom t o directory path = .ok c ↔
      isUsable path = true ∧ ∃ location text executable file,
        t.Settles (directory.join path) location ∧
        t.entryAt location = some (.file (.text text) executable) ∧
        (Json.read text).decode (ConfigFile.read : Decoder Empty ConfigFile) = .ok file ∧
        (file.override o).duplicate? = none ∧ c = ⟨pathOf location, file.override o⟩ := by
  rw [loadFrom_eq_ok_iff_steps]
  constructor
  · rintro ⟨text, file, canonical, htext, hfile, hcanonical, hduplicate, rfl⟩
    obtain ⟨husable, location, executable, hreach, hentry⟩ := textFrom?_eq_some_iff.1 htext
    obtain ⟨other, hsettles, rfl⟩ := canonical?_eq_some_iff.1 hcanonical
    obtain rfl : location = other :=
      Target.entry.inj (Option.some.inj (hreach.symm.trans hsettles.reach?))
    exact ⟨husable, location, text, executable, file, hsettles, hentry, hfile, hduplicate, rfl⟩
  · rintro ⟨husable, location, text, executable, file, hsettles, hentry, hfile, hduplicate, rfl⟩
    have htext : t.textFrom? directory path = some text :=
      textFrom?_eq_some_iff.2 ⟨husable, location, executable, hsettles.reach?, hentry⟩
    have hcanonical : t.canonical? (directory.join path) = some (pathOf location) :=
      canonical?_eq_some_iff.2 ⟨location, hsettles, rfl⟩
    exact ⟨text, file, pathOf location, htext, hfile, hcanonical, hduplicate, rfl⟩

/-! ## Saving -/

/-- A configuration whose path leads to a file is saved there by force. -/
theorem save_of_target? (htarget : t.target? c.path = some (.entry location))
    (hentry : t.entryAt location = some (.file content executable)) :
    c.save t true = .ok (t.insert location (.file (.text c.text) executable)) := by
  have hwrite : t.write? c.path c.text =
      some (t.insert location (.file (.text c.text) executable)) := by
    rw [write?, htarget]
    simp only [hentry]
  rw [save, if_neg (by simp), hwrite]

/-- What was saved for a configuration is loaded without its secrets, along every
path that led to the file before. -/
theorem loadFrom_insert_text (hpath : c.path = pathOf location)
    (hlocation : isUsable c.path = true) (htakes : TakesFile t location)
    (hunique : c.file.duplicate? = none) (hurl : ∀ n ∈ c.networks, n.UrlReadsBack)
    (husable : isUsable path = true) (hsettles : t.Settles (directory.join path) location) :
    loadFrom (t.insert location (.file (.text c.text) executable)) .unset directory path =
      .ok c.redacted := by
  rw [hpath] at hlocation
  refine loadFrom_eq_ok_iff.2 ⟨husable, location, c.text, executable, c.file.redacted,
    hsettles.insert_file hlocation htakes, entryAt_insert_self t htakes.1 _,
    c.file.decode_text hurl, ?_, ?_⟩
  · rw [ConfigFile.override_unset, ConfigFile.duplicate?_redacted, hunique]
  · rw [ConfigFile.override_unset, ← hpath]
    rfl

/-- A configuration that was loaded without values from the environment is saved
by force. From the path that was given, and from its own, it is loaded again
as it was, but for the marker in place of each secret; and that is saved as the same
text, which leaves the tree as it is. -/
theorem saved_loads_back (htree : t.IsTree) (hload : loadFrom t .unset directory path = .ok c)
    (hurl : ∀ n ∈ c.networks, n.UrlReadsBack) :
    ∃ t', c.save t true = .ok t' ∧ t'.text? c.path = some c.text ∧
      loadFrom t' .unset directory path = .ok c.redacted ∧
      load t' .unset c.path = .ok c.redacted ∧
      c.redacted.text = c.text ∧ c.redacted.save t' true = .ok t' := by
  obtain ⟨husable, location, text, executable, file, hsettles, hentry, -, hunique, hc⟩ :=
    loadFrom_eq_ok_iff.1 hload
  have hpath : c.path = pathOf location := by rw [hc]
  have hduplicate : c.file.duplicate? = none := by rw [hc, hunique]
  have hlocation : isUsable c.path = true := hpath ▸ hsettles.usable htree
  have hself : t.Settles c.path location :=
    hpath ▸ settles_pathOf htree (hsettles.usable htree) hentry (by simp)
  have hne : location ≠ [] := by
    rintro rfl
    cases hentry
  have htakes : TakesFile t location := by
    refine ⟨hne, fun entry h => ⟨.text text, executable, ?_⟩⟩
    exact Option.some.inj (h.symm.trans hentry)
  -- the text is put where the configuration was, and its own path leads there still
  have htarget : t.target? c.path = some (.entry location) := by
    rw [target?, if_pos hlocation]
    exact hself.reach?
  have htarget' : (t.insert location (.file (.text c.text) executable)).target? c.path =
      some (.entry location) := by
    rw [target?_insert_file htakes, htarget]
    rfl
  have hentry' := entryAt_insert_self t hne (.file (.text c.text) executable)
  have hrooted : Path.root.join c.path = c.path := by
    have habsolute : c.path.isAbsolute = true := by
      simp [hpath, pathOf, Path.isAbsolute, Path.isRooted]
    rw [Path.join, if_pos habsolute]
  refine ⟨_, save_of_target? htarget hentry, ?_, ?_, ?_, text_redacted c, ?_⟩
  · exact text?_of_spot? (by rw [spot?, htarget']; rfl) hentry'
  · exact loadFrom_insert_text hpath hlocation htakes hduplicate hurl husable hsettles
  · exact loadFrom_insert_text hpath hlocation htakes hduplicate hurl hlocation
      (hrooted.symm ▸ hself)
  · rw [save_of_target? (c := c.redacted) htarget' hentry', insert_insert, text_redacted]

/-! ## A project behind a link -/

/-- A configuration as a user may write it. -/
def linkedValue : Value :=
  .obj [("outputs", .obj [("json", .str "out")]),
    ("networks", .arr [.obj [("name", .str "dev"), ("rpc", .str "http://LOCALHOST:8545"),
      ("networkID", .int 31337), ("wallet", .obj [("privateKey", .str "0x01")])]])]

def linked : FileTree :=
  ⟨[(["work"], .directory), (["work", "app"], .link "../src/app"), (["src"], .directory),
    (["src", "app"], .directory),
    (["src", "app", "steelshards.json"], .file (.text linkedValue.indented) false)]⟩

def linkedNetwork : Network :=
  ⟨"dev", ⟨"http", some "localhost:8545", some 8545, "/", none, none⟩, 31337,
    some ⟨none, some ⟨"0x01"⟩, none⟩⟩

def linkedConfig : Config :=
  ⟨⟨"/src/app/steelshards.json"⟩,
    ⟨ConfigFile.defaultInputs, ⟨some ⟨"out"⟩, none⟩, .default, [linkedNetwork], .default⟩⟩

theorem isTree_linked : linked.IsTree := by
  constructor <;> decide +kernel

theorem load_linked :
    loadFrom linked .unset ⟨"/work"⟩ ⟨"app/steelshards.json"⟩ = .ok linkedConfig := by
  have hid : leastInteger ≤ 31337 ∧ (31337 : Int) ≤ largestInteger := by decide
  have hexact : linkedValue.Exact := by
    simpa only [linkedValue, Value.Exact, Value.ExactItems, Value.ExactFields, true_and,
      and_true] using hid
  have hfits : linkedValue.Fits nestingLimit := ⟨hexact, by decide⟩
  have hread : (ConfigFile.read : Decoder Empty ConfigFile) linkedValue.toDocument =
      .ok linkedConfig.file := by
    decide +kernel
  have hsettles : linked.Settles (Path.join ⟨"/work"⟩ ⟨"app/steelshards.json"⟩)
      ["src", "app", "steelshards.json"] := by
    unfold Settles
    decide +kernel
  exact loadFrom_eq_ok_iff.2 ⟨by decide +kernel, _, linkedValue.indented, false, _, hsettles, rfl,
    decode_indented hfits hread, rfl, by decide +kernel⟩

theorem linked_saved_loads_back :
    linked.IsTree ∧
      loadFrom linked .unset ⟨"/work"⟩ ⟨"app/steelshards.json"⟩ = .ok linkedConfig ∧
      (∀ n ∈ linkedConfig.networks, n.UrlReadsBack) ∧
      linkedConfig.redacted.networks.map (·.wallet) =
        [some ⟨none, some ⟨Secret.marker⟩, none⟩] ∧
      ∃ t', linkedConfig.save linked true = .ok t' ∧
        loadFrom t' .unset ⟨"/work"⟩ ⟨"app/steelshards.json"⟩ = .ok linkedConfig.redacted ∧
        linkedConfig.redacted.save t' true = .ok t' := by
  have hurl : ∀ n ∈ linkedConfig.networks, n.UrlReadsBack := by decide +kernel
  obtain ⟨t', hsave, -, hagain, -, -, hsame⟩ := saved_loads_back isTree_linked load_linked hurl
  exact ⟨isTree_linked, load_linked, hurl, rfl, t', hsave, hagain, hsame⟩

end Config

end SolidityBuild.Project
