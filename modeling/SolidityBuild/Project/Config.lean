import SolidityBuild.Compiler.Request
import SolidityBuild.FileTree.Basic
import SolidityBuild.Project.Network

/-!
Project configurations. A configuration file says where the sources are, where
the outputs go, what is generated, which networks there are and how the
compiler is called; every part of it has a default. A configuration is the
content of such a file together with the path of the file, from which relative
paths in it are taken.
-/

namespace SolidityBuild.Project

open Json

/-- What is generated for each contract. -/
inductive CodegenTarget where
  | declaration
  | ethersClient
deriving DecidableEq

/-- Directories for outputs; what has no directory is not written. -/
structure Outputs where
  json : Option Path
  ts : Option Path
deriving DecidableEq

/-- How the compiler is called. -/
structure CompilerConfig where
  /-- The program: a name, or a path. -/
  solc : Path
  moduleDir : Path
  optimizer : Option Compiler.Optimizer
  evmVersion : Option String
  viaIR : Option Bool
  remappings : List String
deriving DecidableEq

/-- The content of a configuration file. -/
structure ConfigFile where
  inputs : Path
  outputs : Outputs
  target : CodegenTarget
  networks : List Network
  compiler : CompilerConfig
deriving DecidableEq

structure Config where
  /-- The path of the configuration file. -/
  path : Path
  file : ConfigFile
deriving DecidableEq

/-- Values from the environment that take the place of configured ones. -/
structure Overrides where
  inputs : Option String
  solc : Option String
deriving DecidableEq

inductive ConfigError where
  | notFound
  | malformed (path : Path)
  | alreadyExists (path : Path)
  | unreadable (path : Path)
  /-- No canonical path leads to it. -/
  | noCanonicalPath (path : Path)
  | unwritable (path : Path)
  | duplicateNetwork (name : String)
  | missingNetwork (name : String)
deriving DecidableEq

/-- The name of configuration files. -/
def configName : String := "steelshards.json"

namespace ConfigError

def message : ConfigError → String
  | notFound => "Could not find config file " ++ configName
  | malformed path => "Malformed config " ++ path.text
  | alreadyExists path => "Config file already exists. Path: " ++ path.text
  | unreadable path => "Failed to read config file. Path: " ++ path.text
  | noCanonicalPath path => "Failed to canonicalize path. Path: " ++ path.text
  | unwritable path => "Failed to write config to file. Path: " ++ path.text
  | duplicateNetwork name => "Network '" ++ name ++ "' is defined more than once"
  | missingNetwork name => "Network '" ++ name ++ "' not found"

end ConfigError

/-! ## Reading and writing -/

def readPath {ε : Type} : Decoder ε Path := fun d => (Decoder.text d).map Path.mk

def writePath (p : Path) : Value := .str p.text

namespace CodegenTarget

def text : CodegenTarget → String
  | declaration => "none"
  | ethersClient => "ethers.js"

def default : CodegenTarget := declaration

def all : List CodegenTarget := [declaration, ethersClient]

def read {ε : Type} : Decoder ε CodegenTarget :=
  .oneOf Document.isNull (all.map fun t => (t.text, t))

def write (t : CodegenTarget) : Value := .str t.text

end CodegenTarget

namespace Outputs

def none : Outputs := ⟨.none, .none⟩

def read {ε : Type} : Decoder ε Outputs :=
  Record.decode ["json", "ts"] .reject fun r =>
    Outputs.mk <$> r.optional "json" readPath <*> r.optional "ts" readPath

def write (o : Outputs) : Value :=
  .obj (Value.field? "json" writePath o.json ++ Value.field? "ts" writePath o.ts)

end Outputs

namespace CompilerConfig

def default : CompilerConfig := ⟨⟨"solc"⟩, ⟨"node_modules"⟩, none, none, none, []⟩

def fieldNames : List String :=
  ["solc", "moduleDir", "optimizer", "evmVersion", "viaIR", "remappings"]

def read {ε : Type} : Decoder ε CompilerConfig :=
  Record.decode fieldNames .reject fun r =>
    CompilerConfig.mk <$>
      r.optionalWith "solc" default.solc readPath <*>
      r.optionalWith "moduleDir" default.moduleDir readPath <*>
      r.optional "optimizer" Compiler.Optimizer.read <*>
      r.optional "evmVersion" .text <*>
      r.optional "viaIR" .bool <*>
      r.optionalWith "remappings" [] (.list .text)

def write (c : CompilerConfig) : Value :=
  .obj ([("solc", writePath c.solc), ("moduleDir", writePath c.moduleDir)] ++
    Value.field? "optimizer" Compiler.Optimizer.write c.optimizer ++
    Value.field? "evmVersion" .str c.evmVersion ++
    Value.field? "viaIR" .bool c.viaIR ++
    Value.nonEmptyField "remappings" .str c.remappings)

/-- The settings of requests: every output is asked for. -/
def settings (c : CompilerConfig) : Compiler.Settings :=
  ⟨c.remappings, c.optimizer, c.evmVersion, c.viaIR, Compiler.Settings.selectAll⟩

end CompilerConfig

namespace ConfigFile

def defaultInputs : Path := ⟨"contracts"⟩

/-- What a project without a configuration file starts from. -/
def initial : ConfigFile :=
  ⟨defaultInputs, ⟨some ⟨"dist/json"⟩, some ⟨"ts/interfaces"⟩⟩, .default, [], .default⟩

def read {ε : Type} : Decoder ε ConfigFile :=
  Record.decode ["inputs", "outputs", "codeGenerationTarget", "networks", "compiler"] .reject
    fun r => ConfigFile.mk <$>
      r.optionalWith "inputs" defaultInputs readPath <*>
      r.optionalWith "outputs" .none Outputs.read <*>
      r.optionalWith "codeGenerationTarget" .default CodegenTarget.read <*>
      r.optionalWith "networks" [] (.list Network.read) <*>
      r.optionalWith "compiler" .default CompilerConfig.read

def write (f : ConfigFile) : Value :=
  .obj [("inputs", writePath f.inputs), ("outputs", f.outputs.write),
    ("codeGenerationTarget", f.target.write), ("networks", .arr (f.networks.map Network.write)),
    ("compiler", f.compiler.write)]

/-- Put in the values from the environment. -/
def override (f : ConfigFile) (o : Overrides) : ConfigFile :=
  { f with
    inputs := (o.inputs.map Path.mk).getD f.inputs
    compiler := { f.compiler with solc := (o.solc.map Path.mk).getD f.compiler.solc } }

/-- The first name that a network shares with one before it. -/
def duplicateIn (seen : List String) : List Network → Option String
  | [] => none
  | n :: ns => if n.name ∈ seen then some n.name else duplicateIn (n.name :: seen) ns

def duplicate? (f : ConfigFile) : Option String := duplicateIn [] f.networks

end ConfigFile

namespace Config

/-! ## Paths -/

/-- The directory of the configuration file. -/
def projectDir (c : Config) : Path := c.path.parent?.getD .root

/-- A configured path in normal form, taken from the project directory. -/
def inProject (c : Config) (p : Path) : Path := (c.projectDir.join p).clean

def inputsDir (c : Config) : Path := c.inProject c.file.inputs

def jsonDir (c : Config) : Option Path := c.file.outputs.json.map c.inProject

def tsDir (c : Config) : Option Path := c.file.outputs.ts.map c.inProject

def moduleDir (c : Config) : Path := c.inProject c.file.compiler.moduleDir

/-! ## Networks -/

def networks (c : Config) : List Network := c.file.networks

/-- The first network with a name. -/
def network (c : Config) (name : String) : Except ConfigError Network :=
  match c.networks.find? (·.name = name) with
  | some n => .ok n
  | none => .error (.missingNetwork name)

/-- The network that is active unless another one is chosen. -/
def defaultNetwork? (c : Config) : Option Network := c.networks.head?

/-! ## Files -/

/-- The configuration for a directory without a configuration file. -/
def new (t : FileTree) (directory : Path) : Except ConfigError Config :=
  match t.canonical? directory with
  | some canonical => .ok ⟨canonical.join ⟨configName⟩, .initial⟩
  | none => .error (.noCanonicalPath directory)

/-- Load a configuration file whose path is taken from a directory. The values
from the environment are put in before the networks are checked. -/
def loadFrom (t : FileTree) (o : Overrides) (directory path : Path) :
    Except ConfigError Config := do
  let text ← (t.textFrom? directory path).elim (.error (.unreadable path)) .ok
  let read : Except (Fault Empty) ConfigFile := (Json.read text).decode ConfigFile.read
  match read with
  | .error _ => .error (.malformed path)
  | .ok file =>
    let canonical ←
      (t.canonical? (directory.join path)).elim (.error (.noCanonicalPath path)) .ok
    let file := file.override o
    match file.duplicate? with
    | some name => .error (.duplicateNetwork name)
    | none => return ⟨canonical, file⟩

/-- Load a configuration file. -/
def load (t : FileTree) (o : Overrides) (path : Path) : Except ConfigError Config :=
  loadFrom t o .root path

/-- Load the configuration file in a directory. -/
def loadDir (t : FileTree) (o : Overrides) (directory : Path) : Except ConfigError Config :=
  load t o (directory.join ⟨configName⟩)

/-- The file with a name in the innermost directory that has one, from a
directory upwards. -/
def findFile (t : FileTree) (name : String) (directory : Path) : Except ConfigError Path :=
  match (directory.ancestors.map (·.join ⟨name⟩)).find? t.isFile with
  | some path => .ok path
  | none => .error .notFound

/-- Load the nearest configuration file, from a directory upwards. -/
def loadNearest (t : FileTree) (o : Overrides) (directory : Path) : Except ConfigError Config := do
  load t o (← findFile t configName directory)

/-- The text of the configuration file. -/
def text (c : Config) : String := c.file.write.indented

/-- Save a configuration at its path. A file that is there is overwritten by
force only. -/
def save (c : Config) (t : FileTree) (force : Bool) : Except ConfigError FileTree :=
  if ¬ force ∧ t.isFile c.path then .error (.alreadyExists c.path)
  else
    match t.write? c.path c.text with
    | some t => .ok t
    | none => .error (.unwritable c.path)

end Config

end SolidityBuild.Project
