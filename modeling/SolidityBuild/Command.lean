import SolidityBuild.Command.Help
import SolidityBuild.Project.Session

/-!
The command line: `build` builds a project, `networks` lists its networks. A
command is read from its arguments and then run against a file tree. What a run
leaves behind is its exit code, what it printed, and the tree after it.
-/

namespace SolidityBuild

open Compiler (Gateway Invocation ProgramOutput Report Severity)
open Project

/-- What the command line asks for. -/
inductive Command where
  | build (config : Option String) (noEmit : Bool)
  | networks (config : Option String)
  /-- An explanation of the program or of one of its commands. -/
  | help (topic : Command.Topic)
deriving DecidableEq

namespace Command

/-! ## Reading arguments -/

/-- The options read so far. -/
structure Options where
  config : Option String
  noEmit : Bool

/-- How an argument gives the configuration file: not at all, with its value
attached, or with the next argument as its value. -/
inductive ConfigOption where
  | absent
  | attached (value : String)
  | separate
deriving DecidableEq

def configOption (argument : String) : ConfigOption :=
  if argument = "-c" ∨ argument = "--config" then .separate
  else
    match "--config=".toList.isPrefixOf? argument.toList with
    | some value => .attached (String.ofList value)
    | none =>
      match "-c".toList.isPrefixOf? argument.toList with
      | some ('=' :: value) => .attached (String.ofList value)
      | some value => .attached (String.ofList value)
      | none => .absent

/-- Whether an argument is taken for an option, so that it is no value. -/
def looksLikeOption (argument : String) : Bool :=
  argument.toList.head? = some '-' && argument ≠ "-"

def isHelp (argument : String) : Bool :=
  argument = "--help" || ['-', 'h'].isPrefixOf argument.toList

/-- The options with a configuration file, which is given once and is not
empty. -/
def Options.setConfig (o : Options) (value : String) : Option Options :=
  if value = "" ∨ o.config.isSome then none else some { o with config := some value }

/-- Read the options of a command; `none` for wrong usage. -/
def readOptions (topic : Topic) (finish : Options → Command) (o : Options) :
    List String → Option Command
  | [] => some (finish o)
  | argument :: rest =>
    if argument = "--" then if rest.isEmpty then some (finish o) else none
    else if isHelp argument then some (help topic)
    else if argument = "--no-emit" then
      if topic = .build ∧ ¬ o.noEmit then readOptions topic finish { o with noEmit := true } rest
      else none
    else
      match configOption argument with
      | .absent => none
      | .attached value =>
        match o.setConfig value with
        | some o => readOptions topic finish o rest
        | none => none
      | .separate =>
        match rest with
        | [] => none
        | value :: rest =>
          if looksLikeOption value then none
          else
            match o.setConfig value with
            | some o => readOptions topic finish o rest
            | none => none

/-- Read the arguments of a command; `none` for wrong usage. -/
def ofTopic? : Topic → List String → Option Command
  | .build, rest => readOptions .build (fun o => build o.config o.noEmit) ⟨none, false⟩ rest
  | .networks, rest => readOptions .networks (fun o => networks o.config) ⟨none, false⟩ rest
  | .help, [] => some (help .program)
  | .help, [name] => (Topic.ofName? name).map help
  | _, _ => none

/-- Read a command line; `none` for wrong usage. -/
def ofArguments? : List String → Option Command
  | [] => none
  | argument :: rest =>
    match Topic.ofName? argument with
    | some topic => ofTopic? topic rest
    | none => if isHelp argument then some (help .program) else none

/-! ## Running -/

/-- Where a command runs. -/
structure Surroundings extends Compiler.Origin where
  overrides : Overrides

/-- What a run leaves behind. -/
structure Run where
  exitCode : Nat
  stdout : String
  /-- Why the command failed, line by line. -/
  complaint : String
  /-- The call of the compiler, if there was one. -/
  call : Option Invocation
  tree : FileTree

def label : Severity → String
  | .error => "error"
  | .warning => "warning"
  | .info => "info"

/-- A number with blanks in front, three characters wide. -/
def padded (n : Nat) : String :=
  let digits := toString n
  String.ofList (List.replicate (3 - digits.length) ' ') ++ digits

/-- The lines that show a report. -/
def reportLines (r : Report) : List String :=
  (label r.severity ++ " while compiling " ++ r.diagnostic.file ++ ": " ++ r.diagnostic.summary) ::
    r.lines.map fun (number, line) => " " ++ padded number ++ " | " ++ line

/-- The lines that list one network. -/
def networkLines (position : Nat) (n : Network) : List String :=
  ("  " ++ toString (position + 1) ++ ". " ++ n.name ++ " (id " ++ toString n.id.toNat ++ ") " ++
    n.rpc.text) ::
    (n.wallet.map fun w => "     wallet: " ++ w.label).toList

/-- The lines that list the networks of a project. -/
def networksLines (c : Config) : List String :=
  "Available Networks:" ::
    if c.networks.isEmpty then ["  (no networks configured)"]
    else (c.networks.mapIdx networkLines).flatten

/-- The lines that tell how a build went. -/
def outcomeLines : Except BuildError Build → List String
  | .ok b =>
    b.diagnostics.flatMap reportLines ++ b.emitted.map (fun p => "- wrote " ++ p.text) ++ ["Done!"]
  | .error (.diagnostics f) => f.reports.flatMap reportLines
  | .error (.resolve (.missingImport path importer)) =>
    ["error File not found: " ++ path.text, "  -> imported from " ++ importer.text]
  | .error _ => []

def unlines (lines : List String) : String := String.join (lines.map (· ++ "\n"))

/-- The configuration that a command works with. -/
def loadConfig (s : Surroundings) (t : FileTree) : Option String → Except ConfigError Config
  | some path => Config.loadFrom t s.overrides s.workingDir ⟨path⟩
  | none => Config.loadNearest t s.overrides s.workingDir

/-- The compiler of a project runs in the project directory and may read from
the module directory. -/
def gatewayFor (c : Config) : Gateway :=
  ⟨c.file.compiler.solc, [c.moduleDir], some c.projectDir⟩

/-- Run the `build` command. -/
def runBuild (s : Surroundings) (program : Invocation → ProgramOutput) (c : Config)
    (noEmit : Bool) (t : FileTree) : Run :=
  let gateway := gatewayFor c
  let run := Project.build c (gateway.backend t s.toOrigin program) noEmit t
  let call :=
    if gateway.canStart t s.toOrigin then run.request.map (gateway.invocation t s.toOrigin)
    else none
  let stdout := unlines (("Compiling " ++ c.inputsDir.text) :: outcomeLines run.outcome)
  match run.outcome with
  | .ok _ => ⟨0, stdout, "", call, run.tree⟩
  | .error e => ⟨1, stdout, unlines [e.message], call, run.tree⟩

/-- Run a command. `program` is what the compiler does when it is called. -/
def run (s : Surroundings) (program : Invocation → ProgramOutput) (t : FileTree) : Command → Run
  | help topic => ⟨0, unlines topic.lines, "", none, t⟩
  | networks config =>
    match loadConfig s t config with
    | .ok c => ⟨0, unlines (networksLines c), "", none, t⟩
    | .error e => ⟨1, "", unlines [e.message], none, t⟩
  | build config noEmit =>
    match loadConfig s t config with
    | .ok c => runBuild s program c noEmit t
    | .error e => ⟨1, "", unlines [e.message], none, t⟩

/-- The exit code for wrong usage. -/
def usageCode : Nat := 2

/-- Run a command line. -/
def runArguments (s : Surroundings) (program : Invocation → ProgramOutput) (t : FileTree)
    (arguments : List String) : Run :=
  match ofArguments? arguments with
  | some command => command.run s program t
  | none => ⟨usageCode, "", unlines Topic.program.lines, none, t⟩

end Command

end SolidityBuild
