import SolidityBuild.Compiler.Result
import SolidityBuild.Proofs.Abi.Steady

/-!
Answers of the compiler that are written again. An artifact keeps the fields that
are not looked into, at each of its three levels, and its interface and its code are
written as they were read. So what is written of an answer is read as the same
answer, and no field of an artifact is lost, changed or moved to another level.
-/

namespace SolidityBuild.Compiler

open Json

/-! ## Diagnostics -/

section Diagnostic

variable {ε : Type} {d : Document}

theorem Severity.read_write (s : Severity) :
    (Severity.read : Decoder ε Severity) s.write.toDocument = .ok s := by
  cases s <;> rfl

theorem Severity.steady_read : (Severity.read : Decoder ε Severity).Steady := by
  refine .oneOf _ fun d d' hd hnull => ?_
  cases d with
  | null =>
      rw [hd.null_iff.2 rfl]
      rfl
  | _ => cases hnull

theorem SourceLocation.steady_read :
    (SourceLocation.read : Decoder ε SourceLocation).Steady := by
  refine Record.steady_decode (by decide) nofun ?_
  exact ((Record.Steady.map (.required (by decide) .text)).seq
    (.required (by decide) (.intIn _ _))).seq (.required (by decide) (.intIn _ _))

/-- Offsets that were read are signed words. -/
theorem SourceLocation.read_write {l : SourceLocation}
    (h : (SourceLocation.read : Decoder ε SourceLocation) d = .ok l) :
    (SourceLocation.read : Decoder ε SourceLocation) l.write.toDocument = .ok l := by
  obtain ⟨r, -, hr⟩ := Record.decode_eq_ok h
  simp only [Fields.seq_eq_good, Fields.map_eq_good] at hr
  obtain ⟨_, stop, ⟨_, start, ⟨file, -, rfl⟩, hstart, rfl⟩, hstop, rfl⟩ := hr
  obtain ⟨_, _, -, hreadStart⟩ := Record.required_eq_good hstart
  obtain ⟨_, _, -, hreadStop⟩ := Record.required_eq_good hstop
  obtain ⟨hleast, hgreatest⟩ := Decoder.intIn_eq_ok hreadStart
  obtain ⟨hleast', hgreatest'⟩ := Decoder.intIn_eq_ok hreadStop
  refine Record.decode_obj (.refl _) (by decide) fun fields hfields => ?_
  have hfile : fields.required "file" .text = (.good file : Fields ε String) :=
    hfields.required (v := .str file) (by simp) rfl
  have hfirst : fields.required "start" readOffset = (.good start : Fields ε Int) :=
    hfields.required (by simp [List.lookup_cons]) (Decoder.intIn_int hleast hgreatest)
  have hlast : fields.required "end" readOffset = (.good stop : Fields ε Int) :=
    hfields.required (by simp [List.lookup_cons]) (Decoder.intIn_int hleast' hgreatest')
  rw [hfile, hfirst, hlast]
  rfl

namespace Diagnostic

variable {diagnostic : Diagnostic}

theorem exists_of_read (h : (read : Decoder ε Diagnostic) d = .ok diagnostic) {l : SourceLocation}
    (hl : diagnostic.sourceLocation = some l) :
    ∃ part, (SourceLocation.read : Decoder ε SourceLocation) part = .ok l := by
  obtain ⟨r, -, hr⟩ := Record.decode_eq_ok h
  simp only [Fields.seq_eq_good, Fields.map_eq_good] at hr
  obtain ⟨_, location, ⟨_, code, ⟨_, component, ⟨_, kind, ⟨_, formatted, ⟨_, message,
    ⟨severity, -, rfl⟩, -, rfl⟩, -, rfl⟩, -, rfl⟩, -, rfl⟩, -, rfl⟩, hlocation, rfl⟩ := hr
  obtain rfl : location = some l := hl
  obtain ⟨_, part, -, hread⟩ := Record.optional_eq_good hlocation
  exact ⟨part, hread⟩

theorem read_write (h : (read : Decoder ε Diagnostic) d = .ok diagnostic) :
    (read : Decoder ε Diagnostic) diagnostic.write.toDocument = .ok diagnostic := by
  refine Record.decode_obj ?_ (by decide) fun r hr => ?_
  · simp only [List.map_append]
    exact (((((List.Sublist.refl _).append (Value.keys_field?_sublist _ _ _)).append
      (Value.keys_field?_sublist _ _ _)).append (Value.keys_field?_sublist _ _ _)).append
      (Value.keys_field?_sublist _ _ _)).append (Value.keys_field?_sublist _ _ _)
  have hseverity : r.required "severity" Severity.read =
      (.good diagnostic.severity : Fields ε Severity) :=
    hr.required (by simp) diagnostic.severity.read_write
  have hmessage : r.required "message" .text = (.good diagnostic.message : Fields ε String) :=
    hr.required (v := .str diagnostic.message) (by simp [List.lookup_cons]) rfl
  have hformatted : r.optional "formattedMessage" .text =
      (.good diagnostic.formattedMessage : Fields ε (Option String)) :=
    hr.optional_map .str (by simp [List.lookup_append, List.lookup_cons]) fun _ => rfl
  have hkind : r.optional "type" .text = (.good diagnostic.kind : Fields ε (Option String)) :=
    hr.optional_map .str (by simp [List.lookup_append, List.lookup_cons]) fun _ => rfl
  have hcomponent : r.optional "component" .text =
      (.good diagnostic.component : Fields ε (Option String)) :=
    hr.optional_map .str (by simp [List.lookup_append, List.lookup_cons]) fun _ => rfl
  have hcode : r.optional "errorCode" .text =
      (.good diagnostic.errorCode : Fields ε (Option String)) :=
    hr.optional_map .str (by simp [List.lookup_append, List.lookup_cons]) fun _ => rfl
  have hlocation : r.optional "sourceLocation" SourceLocation.read =
      (.good (diagnostic.sourceLocation.map id) : Fields ε (Option SourceLocation)) :=
    hr.optional_restored SourceLocation.write id
      (by simp [List.lookup_append, List.lookup_cons]) fun l hl => by
        obtain ⟨part, hread⟩ := exists_of_read h hl
        exact Decoder.optional_obj (SourceLocation.read_write hread)
  rw [Option.map_id, id_eq] at hlocation
  rw [hseverity, hmessage, hformatted, hkind, hcomponent, hcode, hlocation]
  rfl

theorem steady_read : (read : Decoder ε Diagnostic).Steady := by
  refine Record.steady_decode (by decide) nofun ?_
  exact ((((((Record.Steady.map (.required (by decide) Severity.steady_read)).seq
    (.required (by decide) .text)).seq (.optional (by decide) .text)).seq
    (.optional (by decide) .text)).seq (.optional (by decide) .text)).seq
    (.optional (by decide) .text)).seq (.optional (by decide) SourceLocation.steady_read)

end Diagnostic

end Diagnostic

/-! ## Artifacts -/

section Artifact

variable {d : Document}

namespace Bytecode

variable {b : Bytecode}

theorem opens_of_read (h : read d = .ok b) : ∃ r : Record, r.Opens ["object"] d ∧
    r.others = (.good b.extra : Fields Abi.InvalidType _) := by
  obtain ⟨r, hopens, hr⟩ := Record.opens_of_decodeOpen h
  simp only [Fields.seq_eq_good, Fields.map_eq_good] at hr
  obtain ⟨_, extra, ⟨object, -, rfl⟩, hextra, rfl⟩ := hr
  exact ⟨r, hopens, hextra⟩

theorem keepsBeside (h : read d = .ok b) : KeepsBeside ["object"] d b.write := by
  obtain ⟨r, hopens, hextra⟩ := opens_of_read h
  exact hopens.keepsBeside [("object", .str b.object)] hextra rfl (by decide)

theorem read_write (h : read d = .ok b) : read b.write.toDocument = .ok b := by
  obtain ⟨r, hopens, hextra⟩ := opens_of_read h
  refine Record.decodeOpen_obj [("object", .str b.object)] rfl (by decide)
    (hopens.others hextra).1 fun fields hfields hothers => ?_
  have hobject : fields.optionalWith "object" "" .text =
      (.good b.object : Fields Abi.InvalidType String) :=
    hfields.optionalWith (v := .str b.object) _ (by simp) rfl
  rw [hobject, hothers]
  rfl

theorem steady_read : read.Steady :=
  Record.steady_decodeOpen <|
    (Record.Steady.map (.optionalWith (by decide) .text)).seq .others

end Bytecode

namespace Evm

variable {e : Evm}

theorem opens_of_read (h : read d = .ok e) : ∃ r : Record, r.Opens ["bytecode"] d ∧
    r.others = (.good e.extra : Fields Abi.InvalidType _) ∧
      Bytecode.read (d.partOrEmpty "bytecode") = .ok e.bytecode := by
  obtain ⟨r, hopens, hr⟩ := Record.opens_of_decodeOpen h
  simp only [Fields.seq_eq_good, Fields.map_eq_good] at hr
  obtain ⟨_, extra, ⟨bytecode, hbytecode, rfl⟩, hextra, rfl⟩ := hr
  refine ⟨r, hopens, hextra, ?_⟩
  rcases Record.optionalWith_of_part hbytecode (hopens.declared _ (by simp)) with
    ⟨hpart, rfl⟩ | ⟨part, hpart, hread⟩
  · rw [Document.partOrEmpty, hpart]
    rfl
  · rwa [Document.partOrEmpty, hpart]

theorem keepsBeside (h : read d = .ok e) : KeepsBeside ["bytecode"] d e.write := by
  obtain ⟨r, hopens, hextra, -⟩ := opens_of_read h
  exact hopens.keepsBeside [("bytecode", e.bytecode.write)] hextra rfl (by decide)

theorem read_write (h : read d = .ok e) : read e.write.toDocument = .ok e := by
  obtain ⟨r, hopens, hextra, hcode⟩ := opens_of_read h
  refine Record.decodeOpen_obj [("bytecode", e.bytecode.write)] rfl (by decide)
    (hopens.others hextra).1 fun fields hfields hothers => ?_
  have hbytecode : fields.optionalWith "bytecode" Bytecode.default Bytecode.read =
      .good e.bytecode := hfields.optionalWith _ (by simp) (Bytecode.read_write hcode)
  rw [hbytecode, hothers]
  rfl

theorem steady_read : read.Steady :=
  Record.steady_decodeOpen <|
    (Record.Steady.map (.optionalWith (by decide) Bytecode.steady_read)).seq .others

end Evm

namespace Artifact

variable {a : Artifact}

theorem opens_of_read (h : read d = .ok a) : ∃ r : Record, r.Opens ["abi", "evm"] d ∧
    r.others = (.good a.extra : Fields Abi.InvalidType _) ∧
      Abi.read ((d.part? "abi").getD (.arr [])) = .ok a.abi ∧
        Evm.read (d.partOrEmpty "evm") = .ok a.evm := by
  obtain ⟨r, hopens, hr⟩ := Record.opens_of_decodeOpen h
  simp only [Fields.seq_eq_good, Fields.map_eq_good] at hr
  obtain ⟨_, extra, ⟨_, evm, ⟨abi, habi, rfl⟩, hevm, rfl⟩, hextra, rfl⟩ := hr
  refine ⟨r, hopens, hextra, ?_, ?_⟩
  · rcases Record.optionalWith_of_part habi (hopens.declared _ (by simp)) with
      ⟨hpart, rfl⟩ | ⟨part, hpart, hread⟩
    · rw [hpart]
      rfl
    · rwa [hpart]
  · rcases Record.optionalWith_of_part hevm (hopens.declared _ (by simp)) with
      ⟨hpart, rfl⟩ | ⟨part, hpart, hread⟩
    · rw [Document.partOrEmpty, hpart]
      rfl
    · rwa [Document.partOrEmpty, hpart]

theorem keepsBeside (h : read d = .ok a) : KeepsBeside ["abi", "evm"] d a.write := by
  obtain ⟨r, hopens, hextra, -⟩ := opens_of_read h
  exact hopens.keepsBeside [("abi", Abi.write a.abi), ("evm", a.evm.write)] hextra rfl (by decide)

theorem read_write (h : read d = .ok a) : read a.write.toDocument = .ok a := by
  obtain ⟨r, hopens, hextra, hinterface, hsection⟩ := opens_of_read h
  refine Record.decodeOpen_obj [("abi", Abi.write a.abi), ("evm", a.evm.write)] rfl (by decide)
    (hopens.others hextra).1 fun fields hfields hothers => ?_
  have habi : fields.optionalWith "abi" [] Abi.read = .good a.abi :=
    hfields.optionalWith _ (by simp) (Abi.read_write hinterface)
  have hevm : fields.optionalWith "evm" Evm.default Evm.read = .good a.evm :=
    hfields.optionalWith _ (by simp [List.lookup_cons]) (Evm.read_write hsection)
  rw [habi, hevm, hothers]
  rfl

theorem steady_read : read.Steady :=
  Record.steady_decodeOpen <|
    ((Record.Steady.map (.optionalWith (by decide) Abi.steady_read)).seq
      (.optionalWith (by decide) Evm.steady_read)).seq .others

end Artifact

end Artifact

/-! ## Answers -/

namespace Result

variable {d : Document} {r : Result}

/-- What an answer says about contracts: in an array, the third item. -/
def contractsPart? : Document → Option Document
  | .arr items => items[2]?
  | d => d.part? "contracts"

/-- The part of an answer that an artifact is read of. -/
def artifactPart? (file name : String) (d : Document) : Option Document :=
  ((contractsPart? d).bind (·.part? file)).bind (·.part? name)

theorem partOf_contracts (d : Document) :
    Record.partOf ["errors", "sources", "contracts"] "contracts" d = contractsPart? d := by
  cases d with
  | arr items =>
      match items with
      | [] | [_] | [_, _] | [_, _, _] | _ :: _ :: _ :: _ :: _ => rfl
  | _ => rfl

/-- What an answer holds was read of its parts. -/
theorem parts_of_read (h : read d = .ok r) :
    (∀ diagnostic ∈ r.diagnostics, ∃ part,
        (Diagnostic.read : Abi.Decoder Diagnostic) part = .ok diagnostic) ∧
      (∀ e ∈ r.sources.entries, e.2.Held) ∧
        Decoder.map (.map Artifact.read) ((contractsPart? d).getD (.obj [])) = .ok r.artifacts := by
  obtain ⟨record, hr, hpart⟩ := Record.exists_of_decode h
  simp only [Fields.seq_eq_good, Fields.map_eq_good] at hr
  obtain ⟨_, artifacts, ⟨_, sources, ⟨diagnostics, hdiagnostics, rfl⟩, hsources, rfl⟩, hartifacts,
    rfl⟩ := hr
  refine ⟨fun diagnostic hmem => ?_, fun e he => ?_, ?_⟩
  · rcases Record.optionalWith_eq_good hdiagnostics with ⟨-, rfl⟩ | ⟨_, part, -, hread⟩
    · cases hmem
    · obtain ⟨items, -, hitems⟩ := Decoder.list_eq_ok_iff.1 hread
      obtain ⟨item, -, hitem⟩ := exists_of_forall₂ hitems hmem
      exact ⟨item, hitem⟩
  · rcases Record.optionalWith_eq_good hsources with ⟨-, rfl⟩ | ⟨_, part, -, hread⟩
    · cases he
    · obtain ⟨part, -, hvalue⟩ := Decoder.exists_of_map hread he
      exact Document.held_of_value? (Decoder.value_eq_ok_iff.1 hvalue)
  · rcases Record.optionalWith_of_part hartifacts (hpart _ (by simp)) with
      ⟨hnone, rfl⟩ | ⟨part, hsome, hread⟩
    · rw [← partOf_contracts, hnone]
      rfl
    · rwa [← partOf_contracts, hsome]

theorem exists_artifact_read (h : read d = .ok r) {file name : String} {a : Artifact}
    (ha : (r.artifacts.get? file).bind (·.get? name) = some a) :
    ∃ part, artifactPart? file name d = some part ∧ Artifact.read part = .ok a := by
  obtain ⟨artifacts, hfile, hname⟩ := Option.bind_eq_some_iff.1 ha
  obtain ⟨filePart, hfilePart, hfileRead⟩ :=
    Decoder.exists_of_map (parts_of_read h).2.2 (r.artifacts.mem_entries_iff.2 hfile)
  obtain ⟨part, hpart, hread⟩ :=
    Decoder.exists_of_map hfileRead (artifacts.mem_entries_iff.2 hname)
  have hcontracts : (contractsPart? d).bind (·.part? file) = some filePart := by
    cases hd : contractsPart? d with
    | none => rw [hd] at hfilePart; cases hfilePart
    | some contracts => rwa [hd] at hfilePart
  refine ⟨part, ?_, hread⟩
  rw [artifactPart?, hcontracts]
  exact hpart

theorem keys_fields_sublist (r : Result) :
    ((Value.nonEmptyField "errors" Diagnostic.write r.diagnostics ++
      [("sources", Value.ofMap id r.sources),
        ("contracts", Value.ofMap (.ofMap Artifact.write) r.artifacts)]).map Prod.fst).Sublist
      ["errors", "sources", "contracts"] := by
  rw [List.map_append]
  exact (Value.keys_nonEmptyField_sublist _ _ _).append (.refl _)

theorem read_write (h : read d = .ok r) : read r.write.toDocument = .ok r := by
  obtain ⟨hdiagnostics, hheld, hartifacts⟩ := parts_of_read h
  refine Record.decode_obj (keys_fields_sublist r) (by decide) fun fields hfields => ?_
  have herrors : fields.optionalWith "errors" [] (.list Diagnostic.read) =
      (.good r.diagnostics : Fields Abi.InvalidType _) :=
    hfields.list_nonEmpty Diagnostic.write (by simp [List.lookup_append, List.lookup_cons])
      fun diagnostic hmem => by
        obtain ⟨part, hread⟩ := hdiagnostics diagnostic hmem
        exact Diagnostic.read_write hread
  have hsources : fields.optionalWith "sources" TextMap.empty (.map .value) =
      (.good r.sources : Fields Abi.InvalidType _) :=
    hfields.optionalWith _ (by simp [List.lookup_append]) (Decoder.map_ofMap id
      fun e he => Decoder.value_eq_ok_iff.2 (hheld e he))
  have hcontracts : fields.optionalWith "contracts" TextMap.empty (.map (.map Artifact.read)) =
      .good r.artifacts := by
    refine hfields.optionalWith _ (by simp [List.lookup_append, List.lookup_cons])
      (Decoder.map_ofMap (.ofMap Artifact.write) fun file hfile =>
        Decoder.map_ofMap Artifact.write fun e he => ?_)
    obtain ⟨_, -, hfileRead⟩ := Decoder.exists_of_map hartifacts hfile
    obtain ⟨_, -, hread⟩ := Decoder.exists_of_map hfileRead he
    exact Artifact.read_write hread
  rw [herrors, hsources, hcontracts]
  rfl

theorem steady_read : read.Steady := by
  refine Record.steady_decode (by decide) nofun ?_
  exact ((Record.Steady.map (.optionalWith (by decide) (.list Diagnostic.steady_read))).seq
    (.optionalWith (by decide) (.map .value))).seq
    (.optionalWith (by decide) (.map (.map Artifact.steady_read)))

/-- The value of what is written holds the value of each artifact that is written. -/
theorem exists_part? {v : Value} (hv : r.write.toDocument.value? = some v) {file name : String}
    {a : Artifact} (ha : (r.artifacts.get? file).bind (·.get? name) = some a) :
    ∃ after, ((v.part? "contracts").bind (·.part? file)).bind (·.part? name) = some after ∧
      a.write.toDocument.value? = some after := by
  obtain ⟨artifacts, hfile, hname⟩ := Option.bind_eq_some_iff.1 ha
  have hcontracts : r.write.part? "contracts" =
      some (.ofMap (.ofMap Artifact.write) r.artifacts) := by
    simp [write, Value.part?, List.lookup_append, List.lookup_cons]
  obtain ⟨contracts, hpart, hvalue⟩ :=
    Value.exists_part? ((keys_fields_sublist r).nodup (by decide)) hv hcontracts
  obtain ⟨inFile, hinFile, hvalue⟩ := Value.exists_part?_ofMap hvalue hfile
  obtain ⟨after, hafter, hvalue⟩ := Value.exists_part?_ofMap hvalue hname
  refine ⟨after, ?_, hvalue⟩
  rw [hpart, Option.bind_some, hinFile, Option.bind_some, hafter]

/-- What is written of an answer is read as that answer, also by way of the value that is
written. Of each artifact in the answer, this value has the declared keys and, beside
them, just the keys of the part that the artifact was read of, each with its value and at
its level; a section that is missing from the part counts as empty. -/
theorem written_verbatim (h : read d = .ok r) :
    read r.write.toDocument = .ok r ∧
      ∃ v, r.write.toDocument.value? = some v ∧ read v.toDocument = .ok r ∧
        ∀ file name a, (r.artifacts.get? file).bind (·.get? name) = some a →
          ∃ before after evm code,
            artifactPart? file name d = some before ∧
            ((v.part? "contracts").bind (·.part? file)).bind (·.part? name) = some after ∧
            KeepsBeside ["abi", "evm"] before after ∧
            after.part? "evm" = some evm ∧
            KeepsBeside ["bytecode"] (before.partOrEmpty "evm") evm ∧
            evm.part? "bytecode" = some code ∧
            KeepsBeside ["object"] ((before.partOrEmpty "evm").partOrEmpty "bytecode") code := by
  obtain ⟨v, hv⟩ := Option.isSome_iff_exists.1 (Value.isReadable_toDocument r.write)
  refine ⟨read_write h, v, hv, steady_read _ _ r ⟨v, hv, rfl⟩ (read_write h), ?_⟩
  intro file name a ha
  obtain ⟨part, hpart, hread⟩ := exists_artifact_read h ha
  obtain ⟨-, -, -, -, hevm⟩ := Artifact.opens_of_read hread
  obtain ⟨-, -, -, hcode⟩ := Evm.opens_of_read hevm
  have hkeeps := Artifact.keepsBeside hread
  have hkeepsEvm := Evm.keepsBeside hevm
  obtain ⟨after, hafter, hvalue⟩ := exists_part? hv ha
  obtain ⟨evm, hevmPart, hevmValue⟩ := hkeeps.exists_part? hvalue
    (show a.write.part? "evm" = some a.evm.write from rfl)
  obtain ⟨code, hcodePart, hcodeValue⟩ := hkeepsEvm.exists_part? hevmValue
    (show a.evm.write.part? "bytecode" = some a.evm.bytecode.write from rfl)
  exact ⟨part, after, evm, code, hpart, hafter, hkeeps.of_value? hvalue, hevmPart,
    hkeepsEvm.of_value? hevmValue, hcodePart, (Bytecode.keepsBeside hcode).of_value? hcodeValue⟩

/-- An artifact with a field that is not looked into at each of its levels. -/
def layered : Document :=
  .obj [(some "contracts", .obj [(some "A.sol", .obj [(some "Token", .obj
    [(some "metadata", .str "settings"),
      (some "evm", .obj
        [(some "gasEstimates", .null),
          (some "bytecode", .obj
            [(some "sourceMap", .str "0:1"), (some "object", .str "01")])])])])])]

def layeredResult : Result :=
  ⟨[], .empty, .ofList [("A.sol", .ofList [("Token",
    ⟨[], ⟨⟨"01", .ofList [("sourceMap", .str "0:1")]⟩, .ofList [("gasEstimates", .null)]⟩,
      .ofList [("metadata", .str "settings")]⟩)])]⟩

theorem layered_written_verbatim :
    read layered = .ok layeredResult ∧
      ∃ v, layeredResult.write.toDocument.value? = some v ∧
        read v.toDocument = .ok layeredResult ∧
        ∃ after evm code,
          ((v.part? "contracts").bind (·.part? "A.sol")).bind (·.part? "Token") = some after ∧
          after.part? "metadata" = some (.str "settings") ∧
          after.part? "evm" = some evm ∧
          evm.part? "gasEstimates" = some .null ∧
          evm.part? "bytecode" = some code ∧
          code.part? "sourceMap" = some (.str "0:1") := by
  have hread : read layered = .ok layeredResult := rfl
  obtain ⟨-, v, hv, hagain, hartifacts⟩ := written_verbatim hread
  obtain ⟨before, after, evm, code, hbefore, hafter, hkeeps, hevm, hkeepsEvm, hcode, hkeepsCode⟩ :=
    hartifacts "A.sol" "Token" _ rfl
  cases hbefore
  exact ⟨hread, v, hv, hagain, after, evm, code, hafter, hkeeps.part?_eq (by decide) rfl rfl, hevm,
    hkeepsEvm.part?_eq (by decide) rfl rfl, hcode, hkeepsCode.part?_eq (by decide) rfl rfl⟩

end Result

end SolidityBuild.Compiler
