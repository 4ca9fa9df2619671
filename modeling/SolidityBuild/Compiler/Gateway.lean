import SolidityBuild.Compiler.Request
import SolidityBuild.Compiler.Result
import SolidityBuild.FileTree.Basic

/-!
The way to the compiler. The compiler is a program that reads a request from
its standard input and writes a result to its standard output; what it writes
to its standard error is quoted if the result cannot be read. `Gateway` says how
the program is called and when it can be started at all.
-/

namespace SolidityBuild.Compiler

open Json

/-- What is wrong with the output of the compiler. -/
inductive OutputFlaw where
  | missing
  | notAResult
deriving DecidableEq

inductive CompilerError where
  /-- The program cannot be started. -/
  | spawn (program : Path)
  /-- The output is no result; with what stands on standard error. -/
  | protocol (flaw : OutputFlaw) (complaint : String)
deriving DecidableEq

namespace OutputFlaw

def text : OutputFlaw → String
  | missing => "compiler produced no output"
  | notAResult => "compiler output is not a standard-JSON result"

end OutputFlaw

namespace CompilerError

def message : CompilerError → String
  | spawn program => "Failed to start compiler '" ++ program.text ++ "'"
  | protocol flaw complaint =>
    "Malformed compiler output: " ++ flaw.text ++
      (if complaint = "" then "" else " (" ++ complaint ++ ")")

end CompilerError

/-- Answers requests. -/
abbrev Backend := Request → Except CompilerError Result

/-- The blanks of ASCII. -/
def isAsciiBlank (b : UInt8) : Bool :=
  b = 0x20 || b = 0x09 || b = 0x0A || b = 0x0C || b = 0x0D

/-- Read the output of the compiler. -/
def parseOutput (stdout stderr : List UInt8) : Except CompilerError Result :=
  match (Json.readBytes stdout).decode Result.read with
  | .ok result => .ok result
  | .error _ =>
    let flaw := if stdout.all isAsciiBlank then OutputFlaw.missing else .notAResult
    .error (.protocol flaw (String.ofList (Text.trim (Text.Utf8.decodeLossy stderr))))

/-- Where programs are started from. -/
structure Origin where
  workingDir : Path
  /-- The directories in which programs are found by their names. -/
  searchPath : List Path

/-- How the compiler is called. -/
structure Gateway where
  program : Path
  /-- Directories that the compiler may read from. -/
  allowed : List Path
  workingDir : Option Path

/-- One call of the compiler. -/
structure Invocation where
  input : String
  arguments : List String
  /-- The directory that the compiler was given to run in, by the path that
  passes through no link. -/
  workingDir : Option Path
deriving DecidableEq

/-- What a program leaves behind when it has ended. -/
structure ProgramOutput where
  stdout : List UInt8
  stderr : List UInt8

namespace Gateway

def arguments (g : Gateway) : List String :=
  "--standard-json" ::
    if g.allowed.isEmpty then []
    else ["--allow-paths", String.intercalate "," (g.allowed.map (·.text))]

def invocation (g : Gateway) (t : FileTree) (o : Origin) (request : Request) : Invocation :=
  ⟨request.text, g.arguments, g.workingDir.bind fun d => t.physical? (o.workingDir.join d)⟩

/-- The paths that may lead to the program, taken from its working directory. A
path with a slash stands for itself, a name is looked for in the search path. -/
def candidates (g : Gateway) (searchPath : List Path) : List Path :=
  if g.program.text.toList.contains '/' then [g.program]
  else searchPath.map (·.join g.program)

def isExecutable : Entry → Bool
  | .file _ executable => executable
  | _ => false

/-- An argument of a program has less than this many bytes. -/
def argumentLimit : Nat := 131072

/-- Whether a text can be an argument of a program. -/
def isArgument (text : String) : Bool :=
  text.utf8ByteSize < argumentLimit && ¬ text.toList.contains '\x00'

/-- Whether the program can be started: its working directory is there, one of
the paths leads to an executable file, and the arguments can be handed over. -/
def canStart (g : Gateway) (t : FileTree) (o : Origin) : Bool :=
  let given := g.workingDir.getD o.workingDir
  let workingDir := o.workingDir.join given
  let programs := (g.candidates o.searchPath).filterMap (t.entryFrom? workingDir)
  t.entryFrom? o.workingDir given = some .directory && programs.any isExecutable &&
    g.arguments.all isArgument

/-- The compiler behind a gateway. -/
def backend (g : Gateway) (t : FileTree) (o : Origin) (run : Invocation → ProgramOutput) :
    Backend := fun request =>
  if g.canStart t o then
    let output := run (g.invocation t o request)
    parseOutput output.stdout output.stderr
  else .error (.spawn g.program)

end Gateway

end SolidityBuild.Compiler
