import SolidityBuild.Compiler.Gateway
import SolidityBuild.Proofs.Json.Printer
import SolidityBuild.Proofs.Json.Record

/-!
Requests that the compiler reads back. A request is written with every source
under its virtual path, and without the settings that are absent; what is read from
its text is the request itself, whatever characters its paths and sources hold.
-/

namespace SolidityBuild

open Json

variable {ε : Type}

namespace SourceSet

theorem readSource_write (content : String) :
    (readSource : Decoder ε String) (writeSource content).toDocument = .ok content := by
  refine Record.decode_obj (.refl _) (by decide) fun r hr => ?_
  exact hr.required (v := .str content) (by simp) rfl

theorem read_write (sources : SourceSet) :
    (SourceSet.read : Decoder ε SourceSet) (SourceSet.write sources).toDocument = .ok sources :=
  Decoder.map_ofMap _ fun entry _ => readSource_write entry.2

theorem fits_write (sources : SourceSet) : (SourceSet.write sources).Fits 2 :=
  Value.fits_ofMap fun entry _ =>
    Value.fits_obj (List.forall_mem_singleton.2 (Value.fits_str entry.2))

end SourceSet

namespace Compiler

/-! ## What is read back -/

theorem Optimizer.read_write (o : Optimizer) :
    (Optimizer.read : Decoder ε Optimizer) o.write.toDocument = .ok o := by
  refine Record.decode_obj (.refl _) (by decide) fun r hr => ?_
  have henabled : r.required "enabled" .bool = (.good o.enabled : Fields ε Bool) :=
    hr.required (v := .bool o.enabled) (by simp) rfl
  have hruns : r.optionalWith "runs" defaultRuns .uint32 = (.good o.runs : Fields ε UInt32) :=
    hr.optionalWith _ (by simp [List.lookup_cons]) (Decoder.uint32_int o.runs)
  rw [henabled, hruns]
  rfl

theorem Optimizer.optional_write (o : Optimizer) :
    Decoder.optional (Optimizer.read : Decoder ε Optimizer) o.write.toDocument = .ok (some o) :=
  Decoder.optional_obj o.read_write

namespace Settings

theorem selection_read_write (selection : Selection) :
    Decoder.map (.map (.list .text)) (writeSelection selection).toDocument =
      (.ok selection : Except (Fault ε) Selection) :=
  Decoder.map_ofMap _ fun _ _ => Decoder.map_ofMap _ fun _ _ => Decoder.list_arr fun _ _ => rfl

/-- Settings that are absent are absent again, and no others are. -/
theorem read_write (s : Settings) :
    (Settings.read : Decoder ε Settings) s.write.toDocument = .ok s := by
  refine Record.decode_obj ?_ (by decide) fun r hr => ?_
  · simp only [List.map_append]
    exact ((((Value.keys_nonEmptyField_sublist _ _ _).append
      (Value.keys_field?_sublist _ _ _)).append (Value.keys_field?_sublist _ _ _)).append
      (Value.keys_field?_sublist _ _ _)).append (.refl _)
  · have hremappings : r.optionalWith "remappings" [] (.list .text) =
        (.good s.remappings : Fields ε (List String)) :=
      hr.list_nonEmpty .str (by simp [List.lookup_append, List.lookup_cons]) fun _ _ => rfl
    have hoptimizer : r.optional "optimizer" Optimizer.read =
        (.good s.optimizer : Fields ε (Option Optimizer)) :=
      hr.optional_map Optimizer.write (by simp [List.lookup_append, List.lookup_cons])
        Optimizer.optional_write
    have hversion : r.optional "evmVersion" .text =
        (.good s.evmVersion : Fields ε (Option String)) :=
      hr.optional_map .str (by simp [List.lookup_append, List.lookup_cons]) fun _ => rfl
    have hviaIR : r.optional "viaIR" .bool = (.good s.viaIR : Fields ε (Option Bool)) :=
      hr.optional_map .bool (by simp [List.lookup_append, List.lookup_cons]) fun _ => rfl
    have hselection : r.optionalWith "outputSelection" selectAll (.map (.map (.list .text))) =
        (.good s.outputSelection : Fields ε Selection) :=
      hr.optionalWith _ (by simp [List.lookup_append])
        (selection_read_write s.outputSelection)
    rw [hremappings, hoptimizer, hversion, hviaIR, hselection]
    rfl

end Settings

theorem Request.read_write (r : Request) :
    (Request.read : Decoder ε Request) r.write.toDocument = .ok r := by
  refine Record.decode_obj (.refl _) (by decide) fun fields hfields => ?_
  have hlanguage : fields.required "language" readLanguage = (.good () : Fields ε Unit) :=
    hfields.required (v := .str language) (by simp) rfl
  have hsources : fields.required "sources" SourceSet.read =
      (.good r.sources : Fields ε SourceSet) :=
    hfields.required (by simp [List.lookup_cons]) r.sources.read_write
  have hsettings : fields.required "settings" Settings.read =
      (.good r.settings : Fields ε Settings) :=
    hfields.required (by simp [List.lookup_cons]) r.settings.read_write
  rw [hlanguage, hsources, hsettings]
  rfl

/-! ## The text of a request -/

theorem Optimizer.fits_write (o : Optimizer) : o.write.Fits 1 := by
  refine Value.fits_obj fun f hf => ?_
  simp only [List.mem_cons, List.not_mem_nil, or_false] at hf
  rcases hf with rfl | rfl
  · exact Value.fits_bool o.enabled
  · exact Value.fits_uint64 o.runs.toUInt64

theorem Settings.fits_writeSelection (selection : Selection) :
    (writeSelection selection).Fits 3 :=
  Value.fits_ofMap fun _ _ => Value.fits_ofMap fun _ _ =>
    Value.fits_arr (List.forall_mem_map.2 fun s _ => Value.fits_str s)

theorem Settings.fits_write (s : Settings) : s.write.Fits 4 := by
  refine Value.fits_obj fun f hf => ?_
  simp only [List.mem_append, List.mem_singleton, Value.mem_field?_iff,
    Value.mem_nonEmptyField_iff] at hf
  rcases hf with (((⟨-, rfl⟩ | ⟨o, -, rfl⟩) | ⟨v, -, rfl⟩) | ⟨b, -, rfl⟩) | rfl
  · exact Value.fits_arr (List.forall_mem_map.2 fun s _ => Value.fits_str s)
  · exact o.fits_write.mono (by decide)
  · exact Value.fits_str v
  · exact Value.fits_bool b
  · exact fits_writeSelection s.outputSelection

theorem Request.fits_write (r : Request) : r.write.Fits 5 := by
  refine Value.fits_obj (List.forall_mem_cons.2 ⟨Value.fits_str language, ?_⟩)
  refine List.forall_mem_cons.2 ⟨r.sources.fits_write.mono (by decide), ?_⟩
  exact List.forall_mem_singleton.2 r.settings.fits_write

theorem Request.read_text (r : Request) : Json.read r.text = ⟨r.write.toDocument, true⟩ :=
  have hfits : r.write.Fits nestingLimit := r.fits_write.mono (by decide)
  Value.read_compact hfits.exact hfits.nesting

/-- The text of a request is read as the request, and it is all that the compiler
gets on its standard input, however it is called. -/
theorem text_reads_back (r : Request) :
    (Json.read r.text).decode (Request.read : Decoder ε Request) = .ok r ∧
      ∀ (g : Gateway) (t : FileTree) (o : Origin),
        (Json.read (g.invocation t o r).input).decode (Request.read : Decoder ε Request) =
          .ok r := by
  have hread := Reading.decode_eq_ok r.read_text (r.read_write (ε := ε))
  exact ⟨hread, fun _ _ _ => hread⟩

end Compiler

end SolidityBuild
