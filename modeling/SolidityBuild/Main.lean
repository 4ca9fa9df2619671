import SolidityBuild.Command

/-!
The program. The files that a command may touch are read into a file tree, the
command is run on the tree, and what has changed in it is written back. The
compiler is reached through pipes: the request is written to standard error,
and the answer is read from standard input.
-/

namespace SolidityBuild.Program

/-- What has been read so far. -/
structure Loaded where
  tree : FileTree
  /-- The directories that have been read. -/
  directories : List Location

def locationOf (p : Path) : Location := (Path.segmentsOf p.text).filter (· ≠ "")

/-- Add an entry at a path that passes through no link. -/
def Loaded.add (l : Loaded) (p : Path) (entry : Entry) : Loaded :=
  let location := locationOf p
  let (tree, _) := l.tree.makeDirectories (FileTree.pathOf location.dropLast)
  { l with tree := tree.insert location entry }

mutual

/-- Read what a path names, and everything below it. -/
partial def load (executable : Bool) (l : Loaded) (p : Path) : IO Loaded := do
  let file := System.mkFilePath [p.text]
  unless ← file.pathExists do
    return l
  let real : Path := ⟨(← IO.FS.realPath file).toString⟩
  let l := if real = p.clean then l else l.add p.clean (.link real.text)
  if ← file.isDir then loadDirectory l real
  else
    let bytes ← IO.FS.readBinFile file
    return l.add real (.file (.ofBytes bytes.toList) executable)

/-- Read a directory, unless it has been read before. -/
partial def loadDirectory (l : Loaded) (p : Path) : IO Loaded := do
  let location := locationOf p
  if location ∈ l.directories then return l
  let mut l := { l.add p .directory with directories := location :: l.directories }
  for child in ← (System.mkFilePath [p.text]).readDir do
    l ← load false l ⟨child.path.toString⟩
  return l

end

def loadAll (executable : Bool) (t : FileTree) (paths : List Path) : IO FileTree := do
  return (← paths.foldlM (load executable) ⟨t, []⟩).tree

/-- The paths at which the configuration file of a command may be. -/
def configPaths (s : Command.Surroundings) : Option String → List Path
  | some path => [s.workingDir.join ⟨path⟩]
  | none => s.workingDir.ancestors.map (·.join ⟨Project.configName⟩)

/-- The files that a build may touch. -/
def loadProject (s : Command.Surroundings) (t : FileTree) (c : Project.Config) : IO FileTree := do
  let directories := [c.projectDir, c.inputsDir, c.moduleDir] ++ c.jsonDir.toList ++ c.tsDir.toList
  let t ← loadAll false t directories
  let gateway := Command.gatewayFor c
  loadAll true t ((gateway.candidates s.searchPath).map c.projectDir.join)

/-- The files that a command may touch. -/
def loadFor (s : Command.Surroundings) (command : Command) : IO FileTree :=
  match command with
  | .help _ => return .empty
  | .networks config => loadAll false .empty (configPaths s config)
  | .build config _ => do
    let t ← loadAll false .empty (configPaths s config)
    match Command.loadConfig s t config with
    | .ok c => loadProject s t c
    | .error _ => return t

/-- Write an entry that a command has made. -/
def save (change : Location × Entry) : IO Unit := do
  let file := System.mkFilePath [(FileTree.pathOf change.1).text]
  match change.2 with
  | .directory => IO.FS.createDirAll file
  | .file (.text s) _ => IO.FS.writeFile file s
  | .file (.binary _) _ | .link _ => return

def surroundings : IO Command.Surroundings := do
  let workingDir ← IO.FS.realPath (← IO.currentDir)
  let searchPath := Text.split ':' ((← IO.getEnv "PATH").getD "").toList
  return {
    workingDir := ⟨workingDir.toString⟩
    searchPath := searchPath.map fun directory => ⟨String.ofList directory⟩
    overrides := ⟨← IO.getEnv "STEELSHARDS_INPUTS", ← IO.getEnv "STEELSHARDS_SOLC"⟩ }

/-- Read a stream to its end. -/
partial def readToEnd (stream : IO.FS.Stream) (read : ByteArray) : IO ByteArray := do
  let bytes ← stream.read 65536
  if bytes.isEmpty then return read else readToEnd stream (read ++ bytes)

/-- Have a request answered. -/
def ask (call : Compiler.Invocation) : IO Compiler.ProgramOutput := do
  IO.eprintln call.input
  let answer ← readToEnd (← IO.getStdin) ByteArray.empty
  return ⟨answer.toList, []⟩

end SolidityBuild.Program

open SolidityBuild in
def main (arguments : List String) : IO UInt32 := do
  let s ← Program.surroundings
  let t ← (Command.ofArguments? arguments).elim (pure .empty) (Program.loadFor s)
  let silent : Compiler.ProgramOutput := ⟨[], []⟩
  let output ← (Command.runArguments s (fun _ => silent) t arguments).call.elim
    (pure silent) Program.ask
  let run := Command.runArguments s (fun _ => output) t arguments
  (run.tree.changes t).forM Program.save
  IO.print run.stdout
  IO.eprint run.complaint
  return UInt32.ofNat run.exitCode
