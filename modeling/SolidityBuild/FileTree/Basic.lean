import SolidityBuild.Path
import SolidityBuild.Text.Utf8
import SolidityBuild.TextMap

/-!
A file system as a value: files, directories and symbolic links by location. A
location lists the names from the root down and passes through no link. Paths
lead to locations one segment at a time: `..` steps out of the directory that
has been reached, a link is replaced by its target, and every segment but the
last has to be a directory.
-/

namespace SolidityBuild

/-- What a file holds: text, or bytes that are not UTF-8. -/
inductive Content where
  | text (s : String)
  | binary (bytes : List UInt8)
deriving DecidableEq

namespace Content

def ofBytes (bytes : List UInt8) : Content :=
  match Text.Utf8.decode? bytes with
  | some cs => text (String.ofList cs)
  | none => binary bytes

/-- The text, unless the content is binary. -/
def text? : Content → Option String
  | text s => some s
  | binary _ => none

/-- The content as text, with the parts replaced that are none. -/
def shown : Content → String
  | text s => s
  | binary bytes => String.ofList (Text.Utf8.decodeLossy bytes)

end Content

inductive Entry where
  | file (content : Content) (executable : Bool)
  | directory
  | link (target : String)
deriving DecidableEq

/-- The content of a file. -/
def Entry.content? : Entry → Option Content
  | file content _ => some content
  | _ => none

/-- The names from the root down. -/
abbrev Location := List String

structure FileTree where
  entries : List (Location × Entry)

/-- Where a path leads: to an entry, or to a place in a directory where there
is none yet. -/
inductive Target where
  | entry (location : Location)
  | vacant (location : Location)
deriving DecidableEq

/-- The location of the entry, if there is one. -/
def Target.location? : Target → Option Location
  | entry location => some location
  | vacant _ => none

namespace FileTree

def empty : FileTree := ⟨[]⟩

/-- The entry at a location; the root is a directory. -/
def entryAt (t : FileTree) : Location → Option Entry
  | [] => some .directory
  | location => t.entries.lookup location

def isDirectoryAt (t : FileTree) (location : Location) : Bool :=
  t.entryAt location = some .directory

/-- The tree with an entry at a location, whatever stood there before. -/
def insert (t : FileTree) (location : Location) (entry : Entry) : FileTree :=
  ⟨t.entries.filter (·.1 ≠ location) ++ [(location, entry)]⟩

/-- The tree without the entry at a location and all that is below it. -/
def erase (t : FileTree) (location : Location) : FileTree :=
  ⟨t.entries.filter fun (l, _) => ¬ location.isPrefixOf l⟩

/-- The entries of a tree that are new or other than in a tree before it. -/
def changes (t before : FileTree) : List (Location × Entry) :=
  t.entries.filter fun (location, entry) => before.entryAt location ≠ some entry

/-- The entries of a directory, by name. -/
def children (t : FileTree) (location : Location) : TextMap Entry :=
  TextMap.ofList (t.entries.filterMap fun (l, entry) =>
    match l.getLast? with
    | some name => if l.dropLast = location then some (name, entry) else none
    | none => none)

/-- Go from a directory along segments. Where a link is met, `onLink` goes on
from the directory of the link along its target and the segments left. -/
def along (t : FileTree) (onLink : Location → List String → Option Target) :
    Location → List String → Option Target
  | here, [] => some (.entry here)
  | here, segment :: rest =>
    if ¬ t.isDirectoryAt here then none
    else if segment = "" ∨ segment = "." then t.along onLink here rest
    else if segment = ".." then t.along onLink here.dropLast rest
    else
      let next := here ++ [segment]
      match t.entryAt next with
      | none => if rest.isEmpty then some (.vacant next) else none
      | some (.link target) =>
        let start := if Path.isRooted target then [] else here
        if target = "" then none else onLink start (Path.segmentsOf target ++ rest)
      | some _ => t.along onLink next rest

/-- At most this many links are followed on the way to one target. -/
def linkLimit : Nat := 40

/-- Go along segments, following links. -/
def follow (t : FileTree) : (links : Nat) → Location → List String → Option Target
  | 0 => t.along fun _ _ => none
  | links + 1 => t.along (t.follow links)

/-- Where an absolute path of any length leads. -/
def reach? (t : FileTree) (p : Path) : Option Target :=
  if p.isAbsolute then t.follow linkLimit [] (Path.segmentsOf p.text) else none

/-- A path with this many bytes names nothing. -/
def pathLimit : Nat := 4096

/-- Whether a path is of a length to be used. -/
def isUsable (p : Path) : Bool := p.text ≠ "" && p.text.utf8ByteSize < pathLimit

/-- Where an absolute path leads. -/
def target? (t : FileTree) (p : Path) : Option Target :=
  if isUsable p then t.reach? p else none

/-- The location of what a path names. -/
def locate? (t : FileTree) (p : Path) : Option Location :=
  (t.target? p).bind Target.location?

/-- The entry that a path names, links followed. -/
def entry? (t : FileTree) (p : Path) : Option Entry :=
  (t.locate? p).bind t.entryAt

/-- The entry that a path names if it is taken from a directory, whose own path
does not count for the length. -/
def entryFrom? (t : FileTree) (directory p : Path) : Option Entry :=
  if isUsable p then ((t.reach? (directory.join p)).bind Target.location?).bind t.entryAt
  else none

/-- The content of the regular file that a path names. -/
def content? (t : FileTree) (p : Path) : Option Content :=
  (t.entry? p).bind Entry.content?

/-- The text of the regular file that a path names. -/
def text? (t : FileTree) (p : Path) : Option String :=
  (t.content? p).bind Content.text?

/-- The text of the regular file that a path names if it is taken from a
directory. -/
def textFrom? (t : FileTree) (directory p : Path) : Option String :=
  ((t.entryFrom? directory p).bind Entry.content?).bind Content.text?

def isFile (t : FileTree) (p : Path) : Bool := (t.content? p).isSome

def isDirectory (t : FileTree) (p : Path) : Bool := t.entry? p = some .directory

/-- The path of a location. -/
def pathOf (location : Location) : Path := ⟨"/" ++ Path.joinSegments location⟩

/-- The path to the same place that passes through no link, of whatever length. -/
def physical? (t : FileTree) (p : Path) : Option Path :=
  ((t.reach? p).bind Target.location?).map pathOf

/-- The entries whose own paths are of a length to be used. -/
def inReach (t : FileTree) : FileTree :=
  ⟨t.entries.filter fun (location, _) => isUsable (pathOf location)⟩

/-- The path to the same place that passes through no link. It is found one
name after the other: the given path may be of any length, but every place on
the way is looked up by its own path. -/
def canonical? (t : FileTree) (p : Path) : Option Path := t.inReach.physical? p

/-- The tree without the entry that a path ends at. A link there is removed
itself. -/
def remove (t : FileTree) (p : Path) : FileTree :=
  match p.parent?.bind t.locate?, (Path.segmentsOf p.text).getLast? with
  | some directory, some name => t.erase (directory ++ [name])
  | _, _ => t

/-- A name that an entry may be given. -/
def isName (name : String) : Bool :=
  name.utf8ByteSize ≤ 255 && ¬ name.toList.contains '\x00' && ¬ name.toList.contains '/' &&
    name ≠ "" && name ≠ "." && name ≠ ".."

/-- Put an entry into a vacant place, if the name of the place is a name. -/
def occupy? (t : FileTree) (location : Location) (entry : Entry) : Option FileTree :=
  match location.getLast? with
  | some name => if isName name then some (t.insert location entry) else none
  | none => none

/-- Write a text to a file, which is made if it is not there yet. Its directory
has to be there. -/
def write? (t : FileTree) (p : Path) (text : String) : Option FileTree :=
  match t.target? p with
  | some (.entry location) =>
    match t.entryAt location with
    | some (.file _ executable) => some (t.insert location (.file (.text text) executable))
    | _ => none
  | some (.vacant location) => t.occupy? location (.file (.text text) false)
  | none => none

/-- Make directories inside each other, with these names, as far as they are
names. -/
def makeNested (t : FileTree) (here : Location) : List String → FileTree × Bool
  | [] => (t, true)
  | name :: rest =>
    match t.occupy? (here ++ [name]) .directory with
    | some made => made.makeNested (here ++ [name]) rest
    | none => (t, false)

/-- Make the directories on the way along names that are not there yet; `done`
are the names before them, which lead to the directory `here`. A name that is
taken by something else than a directory, or by a link that leads nowhere, is in
the way. The tree after a failure has those that were made before it. -/
def makeAlong (t : FileTree) (here : Location) (done : List String) :
    List String → FileTree × Bool
  | [] => (t, true)
  | name :: rest =>
    match t.locate? (pathOf (done ++ [name])) with
    | some location =>
      if t.isDirectoryAt location then t.makeAlong location (done ++ [name]) rest
      else (t, false)
    | none =>
      if (t.entryAt (here ++ [name])).isSome then (t, false)
      else t.makeNested here (name :: rest)

/-- Make a directory, and those it stands in, unless they are there. The path
has to be absolute and in normal form. -/
def makeDirectories (t : FileTree) (p : Path) : FileTree × Bool :=
  if p.text.toList.contains '\x00' ∨ ¬ isUsable p then (t, false)
  else t.makeAlong [] [] ((Path.segmentsOf p.text).filter (· ≠ ""))

end FileTree

end SolidityBuild
