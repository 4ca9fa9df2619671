import SolidityBuild.Project.Config
import SolidityBuild.Proofs.Compiler.Request

/-!
Configurations without their secrets. Redaction puts the marker in the place of
every secret, and adds and leaves out none. A configuration and its redacted form
are written alike, and what is written is read back as the redacted form, from
the document and from its text.
-/

namespace SolidityBuild.Project

open Json

variable {ε : Type}

/-! ## Redaction -/

def Secret.redacted (_ : Secret) : Secret := ⟨marker⟩

def Wallet.redacted (w : Wallet) : Wallet :=
  { w with
    privateKey := w.privateKey.map Secret.redacted
    seedPhrase := w.seedPhrase.map Secret.redacted }

def Network.redacted (n : Network) : Network := { n with wallet := n.wallet.map Wallet.redacted }

def ConfigFile.redacted (f : ConfigFile) : ConfigFile :=
  { f with networks := f.networks.map Network.redacted }

def Config.redacted (c : Config) : Config := { c with file := c.file.redacted }

/-! ## What is written -/

theorem Wallet.write_redacted (w : Wallet) : w.redacted.write = w.write := by
  obtain ⟨displayName, privateKey, seedPhrase⟩ := w
  cases privateKey <;> cases seedPhrase <;> rfl

theorem Network.write_redacted (n : Network) : n.redacted.write = n.write := by
  obtain ⟨name, rpc, id, wallet⟩ := n
  cases wallet with
  | none => rfl
  | some w => simp [redacted, write, Value.field?, w.write_redacted]

theorem ConfigFile.write_redacted (f : ConfigFile) : f.redacted.write = f.write := by
  have hnetworks : f.redacted.networks.map Network.write = f.networks.map Network.write := by
    rw [redacted, List.map_map]
    exact List.map_congr_left fun n _ => n.write_redacted
  rw [write, write, hnetworks]
  rfl

theorem Config.text_redacted (c : Config) : c.redacted.text = c.text :=
  congrArg Value.indented c.file.write_redacted

/-! ## What is read back -/

section Reading

theorem Secret.optional_write (s : Secret) :
    Decoder.optional (Secret.read : Decoder ε Secret) s.write.toDocument = .ok (some s.redacted) :=
  rfl

theorem Wallet.read_write (w : Wallet) :
    (Wallet.read : Decoder ε Wallet) w.write.toDocument = .ok w.redacted := by
  refine Record.decode_obj ?_ (by decide) fun r hr => ?_
  · simp only [List.map_append]
    exact ((Value.keys_field?_sublist _ _ _).append (Value.keys_field?_sublist _ _ _)).append
      (Value.keys_field?_sublist _ _ _)
  · have hname : r.optional "displayName" .text =
        (.good w.displayName : Fields ε (Option String)) :=
      hr.optional_map .str (by simp [List.lookup_append]) fun _ => rfl
    have hkey : r.optional "privateKey" Secret.read =
        (.good w.redacted.privateKey : Fields ε (Option Secret)) :=
      hr.optional_restored Secret.write Secret.redacted (by simp [List.lookup_append])
        fun s _ => s.optional_write
    have hphrase : r.optional "seedPhrase" Secret.read =
        (.good w.redacted.seedPhrase : Fields ε (Option Secret)) :=
      hr.optional_restored Secret.write Secret.redacted (by simp [List.lookup_append])
        fun s _ => s.optional_write
    rw [hname, hkey, hphrase]
    rfl

theorem Wallet.optional_write (w : Wallet) :
    Decoder.optional (Wallet.read : Decoder ε Wallet) w.write.toDocument =
      .ok (some w.redacted) :=
  Decoder.optional_obj w.read_write

/-- The text of the network's URL is read as that URL. -/
def Network.UrlReadsBack (n : Network) : Prop := Url.ofText? n.rpc.text = some n.rpc

instance (n : Network) : Decidable n.UrlReadsBack :=
  inferInstanceAs (Decidable (_ = _))

theorem Network.read_write (n : Network) (hrpc : n.UrlReadsBack) :
    (Network.read : Decoder ε Network) n.write.toDocument = .ok n.redacted := by
  refine Record.decode_obj ?_ (by decide) fun r hr => ?_
  · rw [List.map_append]
    exact (List.Sublist.refl ["name", "rpc", "networkID"]).append
      (Value.keys_field?_sublist _ _ _)
  · have hname : r.required "name" .text = (.good n.name : Fields ε String) :=
      hr.required (v := .str n.name) (by simp) rfl
    have hurl : r.required "rpc" readUrl = (.good n.rpc : Fields ε Url) := by
      refine hr.required (v := .str n.rpc.text) (by simp [List.lookup_cons]) ?_
      have hread : Url.ofText? n.rpc.text = some n.rpc := hrpc
      simp only [Value.toDocument, readUrl, Decoder.ofOption, hread]
    have hid : r.required "networkID" .uint64 = (.good n.id : Fields ε UInt64) :=
      hr.required (by simp [List.lookup_cons]) (Decoder.uint64_int n.id)
    have hwallet : r.optional "wallet" Wallet.read =
        (.good n.redacted.wallet : Fields ε (Option Wallet)) :=
      hr.optional_restored Wallet.write Wallet.redacted
        (by simp [List.lookup_cons]) fun w _ => w.optional_write
    rw [hname, hurl, hid, hwallet]
    rfl

theorem Outputs.read_write (o : Outputs) :
    (Outputs.read : Decoder ε Outputs) o.write.toDocument = .ok o := by
  refine Record.decode_obj ?_ (by decide) fun r hr => ?_
  · rw [List.map_append]
    exact (Value.keys_field?_sublist _ _ _).append (Value.keys_field?_sublist _ _ _)
  · have hjson : r.optional "json" readPath = (.good o.json : Fields ε (Option Path)) :=
      hr.optional_map writePath (by simp [List.lookup_append]) fun _ => rfl
    have hts : r.optional "ts" readPath = (.good o.ts : Fields ε (Option Path)) :=
      hr.optional_map writePath (by simp [List.lookup_append]) fun _ => rfl
    rw [hjson, hts]
    rfl

theorem CompilerConfig.read_write (c : CompilerConfig) :
    (CompilerConfig.read : Decoder ε CompilerConfig) c.write.toDocument = .ok c := by
  refine Record.decode_obj ?_ (by decide) fun r hr => ?_
  · simp only [List.map_append]
    exact ((((List.Sublist.refl ["solc", "moduleDir"]).append
      (Value.keys_field?_sublist _ _ _)).append (Value.keys_field?_sublist _ _ _)).append
      (Value.keys_field?_sublist _ _ _)).append (Value.keys_nonEmptyField_sublist _ _ _)
  · have hsolc : r.optionalWith "solc" default.solc readPath = (.good c.solc : Fields ε Path) :=
      hr.optionalWith (v := writePath c.solc) _ (by simp) rfl
    have hmodules : r.optionalWith "moduleDir" default.moduleDir readPath =
        (.good c.moduleDir : Fields ε Path) :=
      hr.optionalWith (v := writePath c.moduleDir) _ (by simp [List.lookup_cons]) rfl
    have hoptimizer : r.optional "optimizer" Compiler.Optimizer.read =
        (.good c.optimizer : Fields ε (Option Compiler.Optimizer)) :=
      hr.optional_map Compiler.Optimizer.write (by simp [List.lookup_append, List.lookup_cons])
        Compiler.Optimizer.optional_write
    have hversion : r.optional "evmVersion" .text =
        (.good c.evmVersion : Fields ε (Option String)) :=
      hr.optional_map .str (by simp [List.lookup_append, List.lookup_cons]) fun _ => rfl
    have hviaIR : r.optional "viaIR" .bool = (.good c.viaIR : Fields ε (Option Bool)) :=
      hr.optional_map .bool (by simp [List.lookup_append, List.lookup_cons]) fun _ => rfl
    have hremappings : r.optionalWith "remappings" [] (.list .text) =
        (.good c.remappings : Fields ε (List String)) :=
      hr.list_nonEmpty .str (by simp [List.lookup_append, List.lookup_cons]) fun _ _ => rfl
    rw [hsolc, hmodules, hoptimizer, hversion, hviaIR, hremappings]
    rfl

theorem CodegenTarget.read_write (t : CodegenTarget) :
    (CodegenTarget.read : Decoder ε CodegenTarget) t.write.toDocument = .ok t := by
  cases t <;> rfl

/-- A configuration file is read back without its secrets. -/
theorem ConfigFile.read_write (f : ConfigFile) (hrpc : ∀ n ∈ f.networks, n.UrlReadsBack) :
    (ConfigFile.read : Decoder ε ConfigFile) f.write.toDocument = .ok f.redacted := by
  refine Record.decode_obj (.refl _) (by decide) fun r hr => ?_
  have hinputs : r.optionalWith "inputs" defaultInputs readPath =
      (.good f.inputs : Fields ε Path) :=
    hr.optionalWith (v := writePath f.inputs) _ (by simp) rfl
  have houtputs : r.optionalWith "outputs" .none Outputs.read =
      (.good f.outputs : Fields ε Outputs) :=
    hr.optionalWith _ (by simp [List.lookup_cons]) f.outputs.read_write
  have htarget : r.optionalWith "codeGenerationTarget" .default CodegenTarget.read =
      (.good f.target : Fields ε CodegenTarget) :=
    hr.optionalWith _ (by simp [List.lookup_cons]) f.target.read_write
  have hnetworks : r.optionalWith "networks" [] (.list Network.read) =
      (.good f.redacted.networks : Fields ε (List Network)) :=
    hr.optionalWith _ (by simp [List.lookup_cons])
      (Decoder.list_map Network.redacted fun n hn => n.read_write (hrpc n hn))
  have hcompiler : r.optionalWith "compiler" .default CompilerConfig.read =
      (.good f.compiler : Fields ε CompilerConfig) :=
    hr.optionalWith _ (by simp [List.lookup_cons]) f.compiler.read_write
  rw [hinputs, houtputs, htarget, hnetworks, hcompiler]
  rfl

end Reading

/-! ## The text of a configuration -/

section Text

theorem Wallet.fits_write (w : Wallet) : w.write.Fits 1 := by
  refine Value.fits_obj fun f hf => ?_
  simp only [List.mem_append, Value.mem_field?_iff] at hf
  rcases hf with (⟨name, -, rfl⟩ | ⟨key, -, rfl⟩) | ⟨phrase, -, rfl⟩
  · exact Value.fits_str name
  · exact Value.fits_str _
  · exact Value.fits_str _

theorem Network.fits_write (n : Network) : n.write.Fits 2 := by
  refine Value.fits_obj fun f hf => ?_
  simp only [List.mem_append, List.mem_cons, List.not_mem_nil, or_false,
    Value.mem_field?_iff] at hf
  rcases hf with (rfl | rfl | rfl) | ⟨w, -, rfl⟩
  · exact Value.fits_str n.name
  · exact Value.fits_str n.rpc.text
  · exact Value.fits_uint64 n.id
  · exact w.fits_write

theorem Outputs.fits_write (o : Outputs) : o.write.Fits 1 := by
  refine Value.fits_obj fun f hf => ?_
  simp only [List.mem_append, Value.mem_field?_iff] at hf
  rcases hf with ⟨p, -, rfl⟩ | ⟨p, -, rfl⟩ <;> exact Value.fits_str p.text

theorem CompilerConfig.fits_write (c : CompilerConfig) : c.write.Fits 2 := by
  refine Value.fits_obj fun f hf => ?_
  simp only [List.mem_append, List.mem_cons, List.not_mem_nil, or_false, Value.mem_field?_iff,
    Value.mem_nonEmptyField_iff] at hf
  rcases hf with ((((rfl | rfl) | ⟨o, -, rfl⟩) | ⟨s, -, rfl⟩) | ⟨b, -, rfl⟩) | ⟨-, rfl⟩
  · exact Value.fits_str c.solc.text
  · exact Value.fits_str c.moduleDir.text
  · exact o.fits_write
  · exact Value.fits_str s
  · exact Value.fits_bool b
  · exact Value.fits_arr (List.forall_mem_map.2 fun s _ => Value.fits_str s)

theorem ConfigFile.fits_write (f : ConfigFile) : f.write.Fits 4 := by
  refine Value.fits_obj (List.forall_mem_cons.2 ⟨Value.fits_str f.inputs.text, ?_⟩)
  refine List.forall_mem_cons.2 ⟨f.outputs.fits_write.mono (by decide), ?_⟩
  refine List.forall_mem_cons.2 ⟨Value.fits_str f.target.text, ?_⟩
  refine List.forall_mem_cons.2 ⟨?_, List.forall_mem_singleton.2 ?_⟩
  · exact Value.fits_arr (List.forall_mem_map.2 fun n _ => n.fits_write)
  · exact f.compiler.fits_write.mono (by decide)

/-- A value that is read as something is read so from its text too. -/
theorem decode_indented {α : Type} {read : Decoder ε α} {v : Value} {a : α}
    (h : v.Fits nestingLimit) (hread : read v.toDocument = .ok a) :
    (Json.read v.indented).decode read = .ok a :=
  Reading.decode_eq_ok (Value.read_indented h.exact h.nesting) hread

/-- The text of a configuration file is read as the file without its secrets. -/
theorem ConfigFile.decode_text (f : ConfigFile) (hrpc : ∀ n ∈ f.networks, n.UrlReadsBack) :
    (Json.read f.write.indented).decode (ConfigFile.read : Decoder ε ConfigFile) =
      .ok f.redacted :=
  decode_indented (f.fits_write.mono (by decide)) (f.read_write hrpc)

end Text

end SolidityBuild.Project
