import SolidityBuild.Json.Printer
import SolidityBuild.Source.Set

/-!
What the compiler is asked: one request in standard JSON, with all sources and
the settings. Absent settings are left out when a request is written, and take
their defaults when it is read.
-/

namespace SolidityBuild

open Json

namespace Compiler

structure Optimizer where
  enabled : Bool
  /-- How often the contract is expected to run. -/
  runs : UInt32
deriving DecidableEq

/-- The outputs that are asked for, by file and contract; `*` stands for all. -/
abbrev Selection := TextMap (TextMap (List String))

structure Settings where
  remappings : List String
  optimizer : Option Optimizer
  evmVersion : Option String
  viaIR : Option Bool
  outputSelection : Selection
deriving DecidableEq

structure Request where
  sources : SourceSet
  settings : Settings
deriving DecidableEq

/-! ## Reading and writing -/

namespace Optimizer

def defaultRuns : UInt32 := 200

def read {ε : Type} : Decoder ε Optimizer :=
  Record.decode ["enabled", "runs"] .reject fun r =>
    Optimizer.mk <$> r.required "enabled" .bool <*> r.optionalWith "runs" defaultRuns .uint32

def write (o : Optimizer) : Value :=
  .obj [("enabled", .bool o.enabled), ("runs", .int o.runs.toNat)]

end Optimizer

namespace Settings

/-- Every output of every contract in every file. -/
def selectAll : Selection :=
  TextMap.empty.insert "*" (TextMap.empty.insert "*" ["*"])

def default : Settings := ⟨[], none, none, none, selectAll⟩

def fieldNames : List String :=
  ["remappings", "optimizer", "evmVersion", "viaIR", "outputSelection"]

def read {ε : Type} : Decoder ε Settings :=
  Record.decode fieldNames .skip fun r =>
    Settings.mk <$>
      r.optionalWith "remappings" [] (.list .text) <*>
      r.optional "optimizer" Optimizer.read <*>
      r.optional "evmVersion" .text <*>
      r.optional "viaIR" .bool <*>
      r.optionalWith "outputSelection" selectAll (.map (.map (.list .text)))

def writeSelection (selection : Selection) : Value :=
  .ofMap (.ofMap fun outputs => .arr (outputs.map .str)) selection

def write (s : Settings) : Value :=
  .obj (Value.nonEmptyField "remappings" .str s.remappings ++
    Value.field? "optimizer" Optimizer.write s.optimizer ++
    Value.field? "evmVersion" .str s.evmVersion ++
    Value.field? "viaIR" .bool s.viaIR ++
    [("outputSelection", writeSelection s.outputSelection)])

end Settings

namespace Request

/-- The language of every request. -/
def language : String := "Solidity"

def readLanguage {ε : Type} : Decoder ε Unit := .oneOf Document.isNull [(language, ())]

def read {ε : Type} : Decoder ε Request :=
  Record.decode ["language", "sources", "settings"] .skip fun r =>
    (fun _ sources settings => ⟨sources, settings⟩) <$>
      r.required "language" readLanguage <*>
      r.required "sources" SourceSet.read <*>
      r.required "settings" Settings.read

def write (r : Request) : Value :=
  .obj [("language", .str language), ("sources", r.sources.write), ("settings", r.settings.write)]

/-- The text that the compiler gets. -/
def text (r : Request) : String := r.write.compact

end Request

end Compiler

end SolidityBuild
