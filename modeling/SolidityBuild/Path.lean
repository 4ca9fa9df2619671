import SolidityBuild.Text.Pieces

/-!
Paths as texts with slashes. A path keeps the text it was given, since that is
how it is shown; `clean` is the normal form, in which empty and `.` segments
are gone and `..` has taken back the segment before it.
-/

namespace SolidityBuild

structure Path where
  text : String
deriving DecidableEq, Inhabited

namespace Path

open Text (split)

/-- The segments between slashes, empty ones included. -/
def segmentsOf (text : String) : List String :=
  (split '/' text.toList).map String.ofList

/-- Join segments with slashes. -/
def joinSegments (segments : List String) : String :=
  String.intercalate "/" segments

/-- One more segment of a path in normal form, whose segments are in reverse.
In a path from the root `..` has nothing to take back at the start and is
dropped; in another one it stays. -/
def cleanStep (rooted : Bool) (done : List String) (segment : String) : List String :=
  if segment = "" ∨ segment = "." then done
  else if segment = ".." then
    match done with
    | [] => if rooted then [] else [".."]
    | last :: rest => if last = ".." then ".." :: last :: rest else rest
  else segment :: done

/-- The segments of the normal form. -/
def cleanSegments (rooted : Bool) (segments : List String) : List String :=
  (segments.foldl (cleanStep rooted) []).reverse

def isRooted (text : String) : Bool := text.toList.head? = some '/'

/-- The normal form of a text that is read as a path. The empty path is
written `.`. -/
def cleanText (text : String) : String :=
  let segments := cleanSegments (isRooted text) (segmentsOf text)
  if isRooted text then "/" ++ joinSegments segments
  else if segments.isEmpty then "."
  else joinSegments segments

def root : Path := ⟨"/"⟩

def isAbsolute (p : Path) : Bool := isRooted p.text

def clean (p : Path) : Path := ⟨cleanText p.text⟩

/-- A path behind a directory; an absolute path stands for itself. -/
def join (directory : Path) (p : Path) : Path :=
  if p.isAbsolute then p
  else if directory.text = "" ∨ directory.text.toList.getLast? = some '/' then
    ⟨directory.text ++ p.text⟩
  else ⟨directory.text ++ "/" ++ p.text⟩

/-- Drop the segments at the end that name nothing. -/
def dropIdle : List String → List String
  | [] => []
  | segment :: reversed =>
    if (segment = "" ∨ segment = ".") ∧ ¬ reversed.isEmpty then dropIdle reversed
    else segment :: reversed

/-- The directory that a path stands in: its text without its last name. The
root and the empty path have none. -/
def parent? (p : Path) : Option Path :=
  match dropIdle (segmentsOf p.text).reverse with
  | [] => none
  | last :: reversed =>
    if reversed.isEmpty then if last = "" then none else some ⟨""⟩
    else
      let kept := dropIdle reversed
      if kept = [""] then
        if last = "" then none else some root
      else some ⟨joinSegments kept.reverse⟩

/-- A path and the directories it stands in, the innermost first. Each of them
has a shorter text than the one before it, so the fuel can be the length of the
text. -/
def ancestorsWithin : (fuel : Nat) → Path → List Path
  | 0, p => [p]
  | fuel + 1, p =>
    match p.parent? with
    | none => [p]
    | some parent => p :: ancestorsWithin fuel parent

def ancestors (p : Path) : List Path := ancestorsWithin p.text.length p

end Path

end SolidityBuild
