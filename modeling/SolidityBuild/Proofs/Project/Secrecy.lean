import Mathlib.Data.List.Forall2
import SolidityBuild.Command
import SolidityBuild.Proofs.Project.Saving

/-!
What secrets do not show in. Two configurations are alike if they agree in all but
what their secrets are; then they have one redacted form. All that is written of a
configuration, and all that the list of its networks says, is a function of that
form, so it is the same for both.
-/

namespace SolidityBuild.Project

open Json

/-! ## Alike but for secrets -/

/-- Both secrets are there, or both are absent. -/
def Secret.Alike (s s' : Option Secret) : Prop := s.isSome = s'.isSome

structure Wallet.Alike (w w' : Wallet) : Prop where
  displayName : w.displayName = w'.displayName
  privateKey : Secret.Alike w.privateKey w'.privateKey
  seedPhrase : Secret.Alike w.seedPhrase w'.seedPhrase

structure Network.Alike (n n' : Network) : Prop where
  name : n.name = n'.name
  rpc : n.rpc = n'.rpc
  id : n.id = n'.id
  wallet : Option.Rel Wallet.Alike n.wallet n'.wallet

/-- The networks are alike one by one; all else is the same. -/
structure Config.Alike (c c' : Config) : Prop where
  path : c.path = c'.path
  inputs : c.file.inputs = c'.file.inputs
  outputs : c.file.outputs = c'.file.outputs
  target : c.file.target = c'.file.target
  networks : List.Forall₂ Network.Alike c.networks c'.networks
  compiler : c.file.compiler = c'.file.compiler

theorem Secret.alike_iff {s s' : Option Secret} :
    Secret.Alike s s' ↔ s.map Secret.redacted = s'.map Secret.redacted := by
  cases s <;> cases s' <;> simp [Secret.Alike, redacted]

theorem Wallet.alike_iff {w w' : Wallet} : w.Alike w' ↔ w.redacted = w'.redacted := by
  obtain ⟨name, key, phrase⟩ := w
  obtain ⟨name', key', phrase'⟩ := w'
  constructor
  · rintro ⟨rfl, hkey, hphrase⟩
    rw [redacted, redacted, Secret.alike_iff.1 hkey, Secret.alike_iff.1 hphrase]
  · intro h
    obtain ⟨hname, hkey, hphrase⟩ := Wallet.mk.inj h
    exact ⟨hname, Secret.alike_iff.2 hkey, Secret.alike_iff.2 hphrase⟩

theorem rel_wallet_iff {w w' : Option Wallet} :
    Option.Rel Wallet.Alike w w' ↔ w.map Wallet.redacted = w'.map Wallet.redacted := by
  cases w <;> cases w' <;> simp [Wallet.alike_iff]

theorem Network.alike_iff {n n' : Network} : n.Alike n' ↔ n.redacted = n'.redacted := by
  obtain ⟨name, rpc, id, wallet⟩ := n
  obtain ⟨name', rpc', id', wallet'⟩ := n'
  constructor
  · rintro ⟨rfl, rfl, rfl, hwallet⟩
    rw [redacted, redacted, rel_wallet_iff.1 hwallet]
  · intro h
    obtain ⟨hname, hrpc, hid, hwallet⟩ := Network.mk.inj h
    exact ⟨hname, hrpc, hid, rel_wallet_iff.2 hwallet⟩

theorem forall₂_network_iff {ns ns' : List Network} :
    List.Forall₂ Network.Alike ns ns' ↔
      ns.map Network.redacted = ns'.map Network.redacted := by
  have hrel : Network.Alike = fun n n' => n.redacted = n'.redacted := by
    funext n n'
    exact propext Network.alike_iff
  rw [← List.forall₂_eq_eq_eq, List.forall₂_map_left_iff, List.forall₂_map_right_iff, hrel]

/-- Redaction keeps of a configuration what those alike to it have in common. -/
theorem Config.alike_iff {c c' : Config} : c.Alike c' ↔ c.redacted = c'.redacted := by
  obtain ⟨path, inputs, outputs, target, networks, compiler⟩ := c
  obtain ⟨path', inputs', outputs', target', networks', compiler'⟩ := c'
  constructor
  · rintro ⟨rfl, rfl, rfl, rfl, hnetworks, rfl⟩
    have hmap : networks.map Network.redacted = networks'.map Network.redacted :=
      forall₂_network_iff.1 hnetworks
    simp only [redacted, ConfigFile.redacted, hmap]
  · intro h
    obtain ⟨hpath, hfile⟩ := Config.mk.inj h
    obtain ⟨hinputs, houtputs, htarget, hnetworks, hcompiler⟩ := ConfigFile.mk.inj hfile
    exact ⟨hpath, hinputs, houtputs, htarget, forall₂_network_iff.2 hnetworks, hcompiler⟩

/-! ## What is shown -/

/-- What is written of a network, and of the wallet in it. -/
def Network.shown (n : Network) : Value × Option Value := (n.write, n.wallet.map Wallet.write)

theorem Network.shown_redacted (n : Network) : n.redacted.shown = n.shown := by
  have hwallet : n.redacted.wallet.map Wallet.write = n.wallet.map Wallet.write := by
    rw [redacted, Option.map_map]
    exact Option.map_congr fun w _ => w.write_redacted
  rw [shown, shown, n.write_redacted, hwallet]

theorem networkLines_redacted (position : Nat) (n : Network) :
    Command.networkLines position n.redacted = Command.networkLines position n := by
  obtain ⟨name, rpc, id, wallet⟩ := n
  cases wallet <;> rfl

theorem networksLines_redacted (c : Config) :
    Command.networksLines c.redacted = Command.networksLines c := by
  have hnetworks : c.redacted.networks = c.networks.map Network.redacted := rfl
  have hlines : (c.networks.map Network.redacted).mapIdx Command.networkLines =
      c.networks.mapIdx Command.networkLines := by
    refine List.ext_getElem? fun position => ?_
    rw [List.getElem?_mapIdx, List.getElem?_mapIdx, List.getElem?_map, Option.map_map]
    exact Option.map_congr fun n _ => networkLines_redacted position n
  rw [Command.networksLines, Command.networksLines, hnetworks, hlines, List.isEmpty_map]

theorem Config.save_redacted (c : Config) (t : FileTree) (force : Bool) :
    c.redacted.save t force = c.save t force := by
  rw [save, save, text_redacted]
  rfl

section Shown

variable {c c' : Config}

theorem shown_networks (c : Config) :
    c.redacted.networks.map Network.shown = c.networks.map Network.shown := by
  have hnetworks : c.redacted.networks = c.networks.map Network.redacted := rfl
  rw [hnetworks, List.map_map]
  exact List.map_congr_left fun n _ => n.shown_redacted

/-- What secrets are shows nowhere: configurations that are alike but for their
secrets have one text and are saved alike, their networks and wallets are written alike one
by one, and the command that lists their networks prints the same, however
either of them was loaded. -/
theorem secrets_hidden (h : c.Alike c') :
    c.text = c'.text ∧ (∀ t force, c.save t force = c'.save t force) ∧
      c.networks.map Network.shown = c'.networks.map Network.shown ∧
      ∀ s s' program program' t t' config config',
        Command.loadConfig s t config = .ok c → Command.loadConfig s' t' config' = .ok c' →
        (Command.run s program t (.networks config)).stdout =
          (Command.run s' program' t' (.networks config')).stdout := by
  have hredacted := Config.alike_iff.1 h
  refine ⟨?_, fun t force => ?_, ?_, ?_⟩
  · rw [← c.text_redacted, hredacted, c'.text_redacted]
  · rw [← c.save_redacted, hredacted, c'.save_redacted]
  · rw [← shown_networks c, hredacted, shown_networks]
  · intro s s' program program' t t' config config' hload hload'
    rw [Command.run, Command.run, hload, hload']
    show Command.unlines _ = Command.unlines _
    rw [← networksLines_redacted c, hredacted, networksLines_redacted]

/-! ## A key that looks like the rest of a wallet -/

def keyedConfig (key : String) : Config :=
  ⟨⟨"/p/steelshards.json"⟩,
    ⟨ConfigFile.defaultInputs, .none, .default,
      [⟨"dev", ⟨"http", some "node", none, "/", none, none⟩, 5,
        some ⟨some "deployer", some ⟨key⟩, none⟩⟩], .default⟩⟩

/-- The configuration as a user may write it, with the key. -/
def keyedValue (key : String) : Value :=
  .obj [("networks", .arr [.obj [("name", .str "dev"), ("rpc", .str "http://node"),
    ("networkID", .int 5),
    ("wallet", .obj [("displayName", .str "deployer"), ("privateKey", .str key)])]])]

def keyedTree (key : String) : FileTree :=
  ⟨[(["p"], .directory),
    (["p", "steelshards.json"], .file (.text (keyedValue key).indented) false)]⟩

def atRoot : Command.Surroundings := ⟨⟨.root, []⟩, .unset⟩

def loadKeyed (key : String) : Except ConfigError Config :=
  Command.loadConfig atRoot (keyedTree key) (some "/p/steelshards.json")

def listKeyed (key : String) : Command.Run :=
  Command.run atRoot (fun _ => ⟨[], []⟩) (keyedTree key) (.networks (some "/p/steelshards.json"))

theorem load_keyed {key : String}
    (hread : (ConfigFile.read : Decoder Empty ConfigFile) (keyedValue key).toDocument =
      .ok (keyedConfig key).file) : loadKeyed key = .ok (keyedConfig key) := by
  have hid : leastInteger ≤ 5 ∧ (5 : Int) ≤ largestInteger := by decide
  have hexact : (keyedValue key).Exact := by
    simpa only [keyedValue, Value.Exact, Value.ExactItems, Value.ExactFields, true_and,
      and_true] using hid
  have hnesting : (keyedValue key).toDocument.nesting = 4 := rfl
  have hfits : (keyedValue key).Fits nestingLimit := ⟨hexact, by rw [hnesting]; decide⟩
  have hsettles : (keyedTree key).Settles (Path.root.join ⟨"/p/steelshards.json"⟩)
      ["p", "steelshards.json"] := rfl
  exact Config.loadFrom_eq_ok_iff.2 ⟨by decide +kernel, _, (keyedValue key).indented, false, _,
    hsettles, rfl, decode_indented hfits hread, rfl, rfl⟩

/-- Quotation marks as in a text with a phrase behind the key. -/
def likeText : String := "\", \"seedPhrase\": \"" ++ Secret.marker

/-- One key is the marker itself, and the other one looks like a part of the text. -/
theorem keyed_secrets_hidden :
    (keyedConfig Secret.marker).Alike (keyedConfig likeText) ∧
      keyedConfig Secret.marker ≠ keyedConfig likeText ∧
      loadKeyed Secret.marker = .ok (keyedConfig Secret.marker) ∧
      loadKeyed likeText = .ok (keyedConfig likeText) ∧
      (keyedConfig Secret.marker).text = (keyedConfig likeText).text ∧
      (listKeyed Secret.marker).stdout = (listKeyed likeText).stdout := by
  have halike : (keyedConfig Secret.marker).Alike (keyedConfig likeText) :=
    ⟨rfl, rfl, rfl, rfl, .cons ⟨rfl, rfl, rfl, .some ⟨rfl, rfl, rfl⟩⟩ .nil, rfl⟩
  have hmarker : loadKeyed Secret.marker = .ok (keyedConfig Secret.marker) :=
    load_keyed (by decide +kernel)
  have hother : loadKeyed likeText = .ok (keyedConfig likeText) := load_keyed (by decide +kernel)
  obtain ⟨htext, -, -, hstdout⟩ := secrets_hidden halike
  exact ⟨halike, by decide +kernel, hmarker, hother, htext,
    hstdout _ _ _ _ _ _ _ _ hmarker hother⟩

end Shown

end SolidityBuild.Project
