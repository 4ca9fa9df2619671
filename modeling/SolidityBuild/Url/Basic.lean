import SolidityBuild.Url.Authority

/-!
URLs in normal form. A URL of a special scheme has a host and a path. A URL of
another scheme has an authority behind two slashes, a path behind one, and
otherwise an opaque path.
-/

namespace SolidityBuild

/-- The parts of a URL, each as it is written. -/
structure Url where
  scheme : String
  /-- User name, password and the sign behind them, host and port; `none` if
  the URL has no authority. -/
  authority : Option String
  /-- The port, unless it is the one of the scheme. -/
  port : Option Nat
  path : String
  query : Option String
  fragment : Option String
deriving DecidableEq

namespace Url

open Text

/-- The text of a URL. -/
def text (u : Url) : String :=
  u.scheme ++ ":" ++ (u.authority.map ("//" ++ ·)).getD "" ++ u.path ++
    (u.query.map ("?" ++ ·)).getD "" ++ (u.fragment.map ("#" ++ ·)).getD ""

/-! ## Behind the path -/

def querySet : List Char := [' ', '"', '#', '<', '>']

def specialQuerySet : List Char := '\'' :: querySet

/-- Cut off the fragment, and then the query. -/
def cutTail (cs : List Char) : List Char × Option (List Char) × Option (List Char) :=
  let (front, fragment) :=
    match cs.dropWhile (· ≠ '#') with
    | '#' :: fragment => (cs.takeWhile (· ≠ '#'), some fragment)
    | _ => (cs, none)
  match front.dropWhile (· ≠ '?') with
  | '?' :: query => (front.takeWhile (· ≠ '?'), some query, fragment)
  | _ => (front, none, fragment)

/-! ## Between the scheme and the query -/

/-- What stands between the scheme and the query. -/
structure Hierarchy where
  authority : Option Authority
  path : String

def isSlash (c : Char) : Bool := c = '/' || c = '\\'

/-- The path behind an authority. Only a special URL has one if there is
nothing to read. -/
def pathBehind (kind : SchemeKind) (cs : List Char) : String :=
  if cs.isEmpty ∧ ¬ kind.isSpecial then ""
  else
    let isFirst (c : Char) : Bool := c = '/' || (kind.isSpecial && c = '\\')
    pathText kind (normalSegments kind (if cs.head?.any isFirst then cs.drop 1 else cs))

/-- Read an authority and the path behind it. `bare` says that nothing stands
behind them. -/
def authorityAndPath? (scheme : String) (bare : Bool) (cs : List Char) : Option Hierarchy := do
  let kind := kindOf scheme
  let name := cs.takeWhile fun c => ¬ endsAuthority kind c
  let rest := cs.dropWhile fun c => ¬ endsAuthority kind c
  let (authority, left) ← authority? scheme (bare ∧ rest.isEmpty) name
  return ⟨some authority, pathBehind kind (left ++ rest)⟩

/-- A file on a host; a path that begins with a drive letter has none. -/
def onHost (host : String) (path : List Char) : Hierarchy :=
  let segments := normalSegments .file path
  let shown := if segments.onDrive then "" else host
  ⟨some ⟨shown, none⟩, pathText .file segments⟩

/-- Read the host and the path of a file. Behind two slashes stands a host,
which may be empty or the local one; a drive letter there begins the path. -/
def file? (cs : List Char) : Option Hierarchy :=
  let isSlashAt (i : Nat) : Bool := (visible cs)[i]?.any isSlash
  if isSlashAt 0 ∧ isSlashAt 1 then
    let behind := dropVisible 2 cs
    let name := visible (behind.takeWhile fun c => ¬ endsAuthority .file c)
    let rest := behind.dropWhile fun c => ¬ endsAuthority .file c
    if name.isEmpty ∨ isDriveLetter name then some (onHost "" behind)
    else (Host.domain? name).map fun host =>
      if host = "localhost" then onHost "" rest else onHost host (rest.drop 1)
  else some (onHost "" (if isSlashAt 0 then dropVisible 1 cs else cs))

/-- Read what stands between the scheme and the query. `bare` says that nothing
stands behind it. -/
def hierarchy? (scheme : String) (bare : Bool) (cs : List Char) : Option Hierarchy :=
  match kindOf scheme, visible cs with
  | .web, seen => authorityAndPath? scheme bare (seen.dropWhile isSlash)
  | .file, _ => file? cs
  | .other, '/' :: '/' :: seen => authorityAndPath? scheme bare seen
  | .other, '/' :: seen =>
    let path := pathText .other (normalSegments .other seen)
    some ⟨none, if "//".toList.isPrefixOf path.toList then "/." ++ path else path⟩
  | .other, seen => some ⟨none, String.ofList (Percent.encode [] seen)⟩

/-! ## Reading -/

/-- Read a URL. -/
def ofText? (input : String) : Option Url := do
  let (scheme, rest) ← scheme? (trimSpaces input.toList)
  let (front, query, fragment) := cutTail rest
  let ⟨authority, path⟩ ← hierarchy? scheme (query.isNone ∧ fragment.isNone) front
  let querySet := if (kindOf scheme).isSpecial then specialQuerySet else querySet
  let written (set : List Char) (cs : List Char) := String.ofList (Percent.encode set (visible cs))
  return {
    scheme
    authority := authority.map (·.text)
    port := authority.bind (·.port)
    path
    query := query.map (written querySet)
    fragment := fragment.map (written fragmentSet) }

end Url

end SolidityBuild
