import SolidityBuild.FileTree.Walk
import SolidityBuild.Source.Import
import SolidityBuild.Source.Set

/-!
Resolving imports. Every file below the root, and every file that is reached
from one through imports, enters the source set under a virtual path, with each
of its import statements replaced by one that names the virtual path of its
target. A file below the root is keyed by its path from the root; a relative
specifier, by itself behind the virtual directory of the importing file; the
specifier of a module, by itself behind the module prefix.

`redirect` is the text of a file in the set; it depends on nothing but the text,
the virtual directory and the prefix. `visit` follows the imports of a text
depth first. A virtual path is entered before its own imports are followed, so
that cycles of imports come to an end.
-/

namespace SolidityBuild

/-- Why the sources of a project cannot be resolved. -/
inductive ResolveError where
  /-- A relative import leads to no file. -/
  | missingImport (path : Path) (importer : Path)
  | unreadable (path : Path)
  | brokenWalk (root : Path)
  /-- Imports lead deeper than allowed. -/
  | tooDeep (path : Path)
deriving DecidableEq

namespace ResolveError

def message : ResolveError → String
  | missingImport path _ => "Error while resolving imports: File not found: " ++ path.text
  | unreadable path => "Error reading file " ++ path.text
  | brokenWalk root => "Error walking source directory " ++ root.text
  | tooDeep path => "Error while resolving imports: Nested too deeply: " ++ path.text

end ResolveError

/-- Where module imports are looked up, and where they stand in the set. -/
structure Resolver where
  moduleDir : Path
  modulePrefix : String

/-- A file on disk and its place in the source set. -/
structure Place where
  real : Path
  virtual : String
deriving DecidableEq

namespace Resolver

open Text (replaceAll)

/-- The virtual prefix of module imports, unless another one is given. -/
def defaultPrefix : String := "node_modules"

def ofModuleDir (moduleDir : Path) : Resolver := ⟨moduleDir, defaultPrefix⟩

/-- What stands under a virtual path until the text of its file is known. -/
def pending : String := "// No Source"

/-- The virtual directory of a virtual path: what stands before its last
slash. -/
def virtualParent (virtual : String) : String :=
  String.ofList ((virtual.toList.reverse.dropWhile (· ≠ '/')).drop 1).reverse

/-- A relative specifier behind a virtual directory, in normal form.
Backslashes count as slashes. -/
def joinVirtual (directory specifier : String) : String :=
  let joined := if directory = "" then specifier else directory ++ "/" ++ specifier
  Path.cleanText (String.ofList (joined.toList.map fun c => if c = '\\' then '/' else c))

/-- The virtual path of a file below the root. -/
def virtualOf (names : List String) : String := Path.joinSegments names

/-- Where an import leads, from a file in a directory with a virtual
directory. -/
def locate (r : Resolver) (directory : Path) (virtualDir : String) (i : Import) : Place :=
  match i.kind with
  | .module => ⟨r.moduleDir.join ⟨i.specifier⟩, r.modulePrefix ++ "/" ++ i.specifier⟩
  | .relative =>
    ⟨(directory.join ⟨i.specifier⟩).clean, joinVirtual virtualDir i.specifier⟩

/-- The virtual path that an import is redirected to. -/
def virtualTarget (r : Resolver) (virtualDir : String) (i : Import) : String :=
  (r.locate ⟨""⟩ virtualDir i).virtual

theorem locate_virtual (r : Resolver) (directory : Path) (virtualDir : String) (i : Import) :
    (r.locate directory virtualDir i).virtual = r.virtualTarget virtualDir i := by
  unfold virtualTarget locate
  cases i.kind <;> rfl

/-- The statement that imports a virtual path. -/
def statementFor (virtual : String) : String := "import \"" ++ virtual ++ "\";"

/-- Replace every occurrence of the statement of an import. -/
def redirectImport (r : Resolver) (virtualDir : String) (text : String) (i : Import) : String :=
  String.ofList
    (replaceAll i.statement.toList (statementFor (r.virtualTarget virtualDir i)).toList text.toList)

/-- The text of a source with its imports redirected, one after the other. -/
def redirect (r : Resolver) (virtualDir : String) (text : String) : String :=
  (Import.scan text).foldl (r.redirectImport virtualDir) text

/-- The directory of a file. -/
def directoryOf (file : Path) : Path := file.parent?.getD file

/-- The place that an import leads to, from the place it stands in. -/
def targetOf (r : Resolver) (p : Place) (i : Import) : Place :=
  r.locate (directoryOf p.real) (virtualParent p.virtual) i

/-- What is kept for a place whose file has this text. -/
def contentOf (r : Resolver) (p : Place) (text : String) : String :=
  r.redirect (virtualParent p.virtual) text

/-- Follow an import that stands in `p`. `follow` goes on along the imports of
the place it leads to. -/
def enter (r : Resolver) (t : FileTree)
    (follow : Place → List Import → SourceSet → Except ResolveError SourceSet) (p : Place)
    (sources : SourceSet) (i : Import) : Except ResolveError SourceSet := do
  let q := r.targetOf p i
  if sources.contains q.virtual then return sources
  match t.content? q.real with
  | none =>
    match i.kind with
    | .module => return sources
    | .relative => throw (.missingImport q.real p.real)
  | some (.binary _) => throw (.unreadable q.real)
  | some (.text text) =>
    let sources ← follow q (Import.scan text) (sources.insert q.virtual pending)
    return sources.insert q.virtual (r.contentOf q text)

/-- Follow imports that stand in `p`. At most `depth` files are entered inside
each other. -/
def visit (r : Resolver) (t : FileTree) : (depth : Nat) → (p : Place) → (imports : List Import) →
    SourceSet → Except ResolveError SourceSet
  | 0, p, imports, sources =>
    if imports.isEmpty then .ok sources else .error (.tooDeep p.real)
  | depth + 1, p, imports, sources =>
    imports.foldlM (r.enter t (r.visit t depth) p) sources

/-- The place of a file found below the root. -/
def placeOf (found : FileTree.Found) : Place := ⟨found.path, virtualOf found.names⟩

/-- Add a file found below the root, and what it imports. -/
def addFound (r : Resolver) (t : FileTree) (depth : Nat) (sources : SourceSet)
    (found : FileTree.Found) : Except ResolveError SourceSet := do
  let p := placeOf found
  match t.text? p.real with
  | none => throw (.unreadable p.real)
  | some text =>
    let sources ← r.visit t depth p (Import.scan text) sources
    return sources.insert p.virtual (r.contentOf p text)

/-- Resolve the files of a walk in the order they are found. -/
def resolveWalk (r : Resolver) (t : FileTree) (depth : Nat) (root : Path)
    (walk : FileTree.Walk) : Except ResolveError SourceSet := do
  let sources ← walk.files.foldlM (r.addFound t depth) TextMap.empty
  if walk.complete then return sources else throw (.brokenWalk root)

/-- Resolve everything below a root, with at most `depth` files entered inside
each other. -/
def resolveWithin (r : Resolver) (t : FileTree) (depth : Nat) (root : Path) :
    Except ResolveError SourceSet :=
  r.resolveWalk t depth root (t.walk root)

/-- The import statements in the texts of a tree. -/
def importsOf (t : FileTree) : List Import :=
  t.entries.flatMap fun (_, entry) =>
    match entry with
    | .file (.text text) _ => Import.scan text
    | _ => []

/-- The places of the modules that the texts of a tree import. They do not depend
on the place of the import. -/
def modulePlaces (r : Resolver) (t : FileTree) : List Place :=
  ((importsOf t).filter (·.kind = .module)).map (r.locate ⟨""⟩ "")

/-- The most names on the way to an entry of the tree, or to a place of the walk
or of a module in the set. -/
def extent (r : Resolver) (t : FileTree) (root : Path) : Nat :=
  let starts := (t.walk root).files.map placeOf ++ r.modulePlaces t
  let inTree : List Nat := t.entries.map fun (location, _) => location.length
  let inSet : List Nat := starts.map fun p => p.virtual.length + 1
  (inTree ++ inSet).foldl max 0

/-- A depth that leaves room for every file, under the prefix of the root and
under that of each import, along paths with as many links as are followed; and
from the root and from each module on, for every file at every height that the
directories in the set can have. -/
def depthFor (r : Resolver) (t : FileTree) (root : Path) : Nat :=
  let files := t.entries.length
  let heights := (r.extent t root + 1) * (r.extent t root + 2)
  (files + 1) * ((importsOf t).length + 2) * (FileTree.linkLimit + 1) +
    ((r.modulePlaces t).length + 1) * (files * heights + 1)

/-- Resolve everything below a root. -/
def resolve (r : Resolver) (t : FileTree) (root : Path) : Except ResolveError SourceSet :=
  r.resolveWithin t (r.depthFor t root) root

end Resolver

end SolidityBuild
