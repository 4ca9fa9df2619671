import SolidityBuild.Compiler.Gateway
import SolidityBuild.Project.Config
import SolidityBuild.Source.Resolve
import SolidityBuild.TypeScript.Client
import SolidityBuild.TypeScript.Declaration

/-!
Building a project: resolve the sources, have them compiled, write the outputs.
A build takes the file tree before it to the one after it. It asks the compiler
at most once, and it writes outputs only after the compiler has reported no
error.
-/

namespace SolidityBuild.Project

open Compiler (Artifact Backend Contracts Report Request)

inductive BuildError where
  | resolve (e : ResolveError)
  | unwritable (path : Path)
  | compiler (e : Compiler.CompilerError)
  | diagnostics (f : Compiler.Failure)
deriving DecidableEq

namespace BuildError

def message : BuildError → String
  | resolve e => e.message
  | unwritable path => "Error writing file " ++ path.text
  | compiler e => e.message
  | diagnostics f => f.message

end BuildError

/-- What a successful build has made. -/
structure Build where
  sources : SourceSet
  contracts : Contracts
  /-- The diagnostics, none of them an error. -/
  diagnostics : List Report
  /-- The files written, in order. -/
  emitted : List Path

namespace Build

/-- The artifact of the first contract with a name, in the order of files. -/
def contract? (b : Build) (name : String) : Option Artifact :=
  b.contracts.values.findSome? (·.get? name)

/-- The names of all contracts, in the order of files. -/
def contractNames (b : Build) : List String :=
  b.contracts.values.flatMap TextMap.keys

end Build

/-- A file that is to be written. -/
structure OutputFile where
  path : Path
  content : String
deriving DecidableEq

/-- What can be generated for one contract. -/
def tsText (target : CodegenTarget) (name : String) (artifact : Artifact) : String :=
  match target with
  | .declaration =>
    TypeScript.Declaration.render ⟨name, .exported, true, .defaults⟩ artifact.abi
  | .ethersClient =>
    (TypeScript.Client.ofAbi .ethers name artifact.abi artifact.bytecode).render

/-- The outputs for one contract. -/
def contractOutputs (c : Config) (name : String) (artifact : Artifact) : List OutputFile :=
  (c.jsonDir.map fun directory =>
      ⟨directory.join ⟨name ++ ".json"⟩, artifact.write.indented⟩).toList ++
    (c.tsDir.map fun directory =>
      ⟨directory.join ⟨name ++ ".ts"⟩, tsText c.file.target name artifact⟩).toList

/-- The outputs for all contracts, in the order of files and names. -/
def outputs (c : Config) (contracts : Contracts) : List OutputFile :=
  contracts.values.flatMap fun byName =>
    byName.entries.flatMap fun (name, artifact) => contractOutputs c name artifact

/-- Make directories one after the other. The path of the first that cannot be
made is the error. -/
def makeAll (t : FileTree) : List Path → FileTree × Except Path Unit
  | [] => (t, .ok ())
  | p :: ps =>
    match t.makeDirectories p with
    | (t, true) => makeAll t ps
    | (t, false) => (t, .error p)

/-- Write files one after the other. The path of the first that cannot be
written is the error. -/
def writeAll (t : FileTree) : List OutputFile → FileTree × Except Path Unit
  | [] => (t, .ok ())
  | f :: fs =>
    match t.write? f.path f.content with
    | some t => writeAll t fs
    | none => (t, .error f.path)

/-- Write the outputs for all contracts, and say where. -/
def emit (c : Config) (contracts : Contracts) (t : FileTree) :
    FileTree × Except Path (List Path) :=
  match makeAll t (c.jsonDir.toList ++ c.tsDir.toList) with
  | (t, .error p) => (t, .error p)
  | (t, .ok ()) =>
    let files := outputs c contracts
    match writeAll t files with
    | (t, .error p) => (t, .error p)
    | (t, .ok ()) => (t, .ok (files.map (·.path)))

/-- What happened in a build. -/
structure BuildRun where
  /-- The file tree after it. -/
  tree : FileTree
  /-- What the compiler was asked, if it was asked. -/
  request : Option Request
  outcome : Except BuildError Build

/-- The request that compiles the sources of a project. -/
def requestFor (c : Config) (sources : SourceSet) : Request :=
  ⟨sources, c.file.compiler.settings⟩

/-- The resolver of a project. -/
def resolverFor (c : Config) : Resolver := .ofModuleDir c.moduleDir

/-- Go on with the answer of the compiler. -/
def finishBuild (c : Config) (noEmit : Bool) (request : Request)
    (answer : Except Compiler.CompilerError Compiler.Result) (t : FileTree) :
    FileTree × Except BuildError Build :=
  match answer with
  | .error e => (t, .error (.compiler e))
  | .ok result =>
    match result.outcome request.sources with
    | .error failure => (t, .error (.diagnostics failure))
    | .ok (contracts, diagnostics) =>
      if noEmit then (t, .ok ⟨request.sources, contracts, diagnostics, []⟩)
      else
        match emit c contracts t with
        | (t, .error p) => (t, .error (.unwritable p))
        | (t, .ok emitted) => (t, .ok ⟨request.sources, contracts, diagnostics, emitted⟩)

/-- Build a project. -/
def build (c : Config) (backend : Backend) (noEmit : Bool) (t : FileTree) : BuildRun :=
  match t.makeDirectories c.inputsDir with
  | (t, false) => ⟨t, none, .error (.unwritable c.inputsDir)⟩
  | (t, true) =>
    match (resolverFor c).resolve t c.inputsDir with
    | .error e => ⟨t, none, .error (.resolve e)⟩
    | .ok sources =>
      let request := requestFor c sources
      let (t, outcome) := finishBuild c noEmit request (backend request) t
      ⟨t, some request, outcome⟩

end SolidityBuild.Project
