import SolidityBuild.Abi.Codec
import SolidityBuild.Compiler.Diagnostic
import SolidityBuild.Text.Utf8

/-!
What the compiler answers: diagnostics, and an artifact for each contract. Of
an artifact only the interface and the bytecode are looked into. Everything
else is kept as it is, at the level where it stands, and written behind the
known fields in the order of its keys.
-/

namespace SolidityBuild.Compiler

open Json

structure Bytecode where
  /-- The code in hexadecimal digits. -/
  object : String
  extra : TextMap Value

structure Evm where
  bytecode : Bytecode
  extra : TextMap Value

/-- What the compiler made of one contract. -/
structure Artifact where
  abi : Abi
  evm : Evm
  extra : TextMap Value

/-- Artifacts by file and contract name. -/
abbrev Contracts := TextMap (TextMap Artifact)

structure Result where
  diagnostics : List Diagnostic
  /-- What the compiler says about each file. -/
  sources : TextMap Value
  artifacts : Contracts

/-! ## Reading and writing -/

namespace Bytecode

def default : Bytecode := ⟨"", TextMap.empty⟩

def read : Abi.Decoder Bytecode :=
  Record.decodeOpen ["object"] fun r =>
    Bytecode.mk <$> r.optionalWith "object" "" .text <*> r.others

def write (b : Bytecode) : Value := .obj (("object", .str b.object) :: b.extra.entries)

end Bytecode

namespace Evm

def default : Evm := ⟨Bytecode.default, TextMap.empty⟩

def read : Abi.Decoder Evm :=
  Record.decodeOpen ["bytecode"] fun r =>
    Evm.mk <$> r.optionalWith "bytecode" Bytecode.default Bytecode.read <*> r.others

def write (e : Evm) : Value := .obj (("bytecode", e.bytecode.write) :: e.extra.entries)

end Evm

namespace Artifact

/-- The code that deploys the contract. -/
def bytecode (a : Artifact) : String := a.evm.bytecode.object

def read : Abi.Decoder Artifact :=
  Record.decodeOpen ["abi", "evm"] fun r =>
    Artifact.mk <$>
      r.optionalWith "abi" [] Abi.read <*>
      r.optionalWith "evm" Evm.default Evm.read <*>
      r.others

def write (a : Artifact) : Value :=
  .obj (("abi", Abi.write a.abi) :: ("evm", a.evm.write) :: a.extra.entries)

end Artifact

/-- Every diagnostic of a failed compilation, as reports. -/
structure Failure where
  reports : List Report
deriving DecidableEq

namespace Failure

/-- The reports of errors. -/
def errors (f : Failure) : List Report := f.reports.filter Report.isError

def message (f : Failure) : String :=
  "Compilation failed with " ++ toString f.errors.length ++ " error(s)" ++
    String.join (f.errors.map fun r => "\n  " ++ r.text)

end Failure

namespace Result

def read : Abi.Decoder Result :=
  Record.decode ["errors", "sources", "contracts"] .skip fun r =>
    Result.mk <$>
      r.optionalWith "errors" [] (.list Diagnostic.read) <*>
      r.optionalWith "sources" TextMap.empty (.map .value) <*>
      r.optionalWith "contracts" TextMap.empty (.map (.map Artifact.read))

def write (r : Result) : Value :=
  .obj (Value.nonEmptyField "errors" Diagnostic.write r.diagnostics ++
    [("sources", .ofMap id r.sources), ("contracts", .ofMap (.ofMap Artifact.write) r.artifacts)])

def hasErrors (r : Result) : Bool := r.diagnostics.any fun d => d.severity = .error

/-- The artifacts, unless the compiler reported an error. -/
def contracts? (r : Result) : Option Contracts :=
  if r.hasErrors then none else some r.artifacts

/-- The diagnostics with the lines they point at, in the order of the compiler. -/
def reports (r : Result) (sources : SourceSet) : List Report :=
  r.diagnostics.map fun d => .of d sources

/-- The artifacts and the reports of a compilation, which has failed if one of
the diagnostics is an error. -/
def outcome (r : Result) (sources : SourceSet) : Except Failure (Contracts × List Report) :=
  if r.hasErrors then .error ⟨r.reports sources⟩ else .ok (r.artifacts, r.reports sources)

end Result

end SolidityBuild.Compiler
