import SolidityBuild.Text.Percent
import SolidityBuild.Text.Pieces
import SolidityBuild.Url.Scheme

/-!
Paths of URLs, segment by segment. In the normal form `.` is gone, `..` has
taken back the segment before it, and what may not stand for itself is in
percent form. A segment that begins with a drive letter is never taken back,
whatever the scheme. In the URL of a file, a path that begins with a drive
letter has a colon behind the letter, and a break behind the colon sets the
letter apart from the rest of its segment.
-/

namespace SolidityBuild.Url

open Text

/-! ## What is encoded in a path -/

def fragmentSet : List Char := [' ', '"', '<', '>', Char.ofNat 0x60]

def pathSet : List Char := '#' :: '?' :: Char.ofNat 0x7B :: Char.ofNat 0x7D :: fragmentSet

/-! ## Segments -/

/-- The pieces between slashes of a path given without its first slash. -/
def segmentsOf (kind : SchemeKind) (cs : List Char) : List (List Char) :=
  split '/' (if kind.isSpecial then cs.map fun c => if c = '\\' then '/' else c else cs)

/-- A segment with the percent form of a dot spelled out. -/
def plainDots : List Char → List Char
  | '%' :: '2' :: 'e' :: cs | '%' :: '2' :: 'E' :: cs => '.' :: plainDots cs
  | c :: cs => c :: plainDots cs
  | [] => []

/-- A letter with a colon or a bar behind it. -/
def isDriveLetter : List Char → Bool
  | [letter, mark] => letter.isAlpha && (mark = ':' || mark = '|')
  | _ => false

/-- Whether a segment is a drive letter, or has one in front of a backslash. -/
def beginsWithDrive : List Char → Bool
  | letter :: mark :: '\\' :: _ => isDriveLetter [letter, mark]
  | segment => isDriveLetter segment

/-- Take back the last segment of a path, whose segments are in reverse. -/
def takeBack : List (List Char) → List (List Char)
  | [] => []
  | last :: done => if beginsWithDrive last then last :: done else done

/-- A drive letter with a colon and a break behind it, and the rest of its
segment, which is not empty. -/
def cutDrive? (segment : List Char) : Option (List Char × List Char) :=
  match visible segment with
  | letter :: ':' :: c :: cs =>
    if letter.isAlpha ∧ (dropVisible 2 segment).head?.any isBreak then
      some ([letter, ':'], c :: cs)
    else none
  | _ => none

/-- A path in normal form. -/
structure Segments where
  toList : List (List Char)
  /-- Whether the first segment was given as a drive letter. -/
  onDrive : Bool

/-- Take segments into a path, whose segments so far are in reverse. If `..` or
`.` is the last one, it leaves an empty segment behind. -/
def normalize (kind : SchemeKind) (onDrive : Bool) (done : List (List Char)) :
    List (List Char) → Segments
  | [] => ⟨done.reverse, onDrive⟩
  | given :: rest =>
    let segment := visible given
    let leave (done : List (List Char)) := if rest.isEmpty then [] :: done else done
    let begins := kind = .file ∧ done.isEmpty
    if plainDots segment = ['.', '.'] then normalize kind onDrive (leave (takeBack done)) rest
    else if plainDots segment = ['.'] then normalize kind onDrive (leave done) rest
    else if begins ∧ isDriveLetter segment then
      normalize kind true [segment.take 1 ++ [':']] rest
    else
      match (cutDrive? given).filter fun _ => begins with
      | some (drive, behind) =>
        normalize kind onDrive [Percent.encode pathSet behind, drive] rest
      | none => normalize kind onDrive (Percent.encode pathSet segment :: done) rest

/-- The segments in normal form of a path given without its first slash. -/
def normalSegments (kind : SchemeKind) (cs : List Char) : Segments :=
  normalize kind false [] (segmentsOf kind cs)

/-- The text of a path. The path of a file does not begin with an empty segment. -/
def pathText (kind : SchemeKind) (path : Segments) : String :=
  let shown := if kind = .file then path.toList.dropWhile (·.isEmpty) else path.toList
  "/" ++ String.intercalate "/" (shown.map String.ofList)

end SolidityBuild.Url
