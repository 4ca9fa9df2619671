import SolidityBuild.FileTree.Basic

/-!
Walking a directory: its regular files at any depth, the entries of each
directory in the order of their names. Links are followed. A link that leads
nowhere, or back to a directory that is being walked, breaks the walk off, and
so does a path that is too long or passes through too many links; the files
before it have been found by then.
-/

namespace SolidityBuild.FileTree

/-- A file found on a walk: its path, which begins with the path of the root,
and its names below the root. -/
structure Found where
  path : Path
  names : List String
deriving DecidableEq

structure Walk where
  files : List Found
  /-- Whether the walk came to its end. -/
  complete : Bool

namespace Walk

def nothing : Walk := ⟨[], true⟩

def brokenOff : Walk := ⟨[], false⟩

def file (path : Path) (names : List String) : Walk := ⟨[⟨path, names⟩], true⟩

/-- One walk, and the next unless the first broke off. -/
def andThen (first second : Walk) : Walk :=
  if first.complete then ⟨first.files ++ second.files, second.complete⟩ else first

end Walk

/-- The walk of one entry of a directory at a location, inside the directories
`above`. `descend` walks the directories inside it. -/
def childWalk (t : FileTree)
    (descend : List Location → Location → Path → List String → Walk) (above : List Location)
    (here : Location) (path : Path) (names : List String) : String × Entry → Walk :=
  fun (name, entry) =>
    let childPath := path.join ⟨name⟩
    let childNames := names ++ [name]
    match entry with
    | .file _ _ => .file childPath childNames
    | .directory =>
      if isUsable childPath then descend (here :: above) (here ++ [name]) childPath childNames
      else .brokenOff
    | .link _ =>
      match t.locate? childPath with
      | none => .brokenOff
      | some location =>
        if ¬ t.isDirectoryAt location then .file childPath childNames
        else if location ∈ here :: above then .brokenOff
        else descend (here :: above) location childPath childNames

/-- Walk the directory at a location, inside the directories `above`. The fuel
bounds how deep directories lie inside each other. -/
def walkFrom (t : FileTree) : (fuel : Nat) → (above : List Location) → (here : Location) →
    (path : Path) → (names : List String) → Walk
  | 0, _, _, _, _ => .brokenOff
  | fuel + 1, above, here, path, names =>
    (t.children here).entries.foldl
      (fun walk child =>
        walk.andThen (t.childWalk (t.walkFrom fuel) above here path names child))
      .nothing

/-- Walk the directory that a path names. A path that names a file holds
nothing below it, and one that names nothing cannot be walked. Between two
links the walk goes down the tree, and a link never leads to a directory that
is being walked, so the square of the number of entries bounds the depth. -/
def walk (t : FileTree) (root : Path) : Walk :=
  match t.locate? root with
  | none => .brokenOff
  | some location =>
    if t.isDirectoryAt location then
      t.walkFrom ((t.entries.length + 2) * (t.entries.length + 2)) [] location root []
    else .nothing

/-- The regular files below a location, by their names below it, links left
alone. -/
def filesBelow (t : FileTree) (location : Location) : List (List String × Content) :=
  t.entries.filterMap fun (l, entry) =>
    match entry, location.isPrefixOf l with
    | .file content _, true => some (l.drop location.length, content)
    | _, _ => none

end SolidityBuild.FileTree
