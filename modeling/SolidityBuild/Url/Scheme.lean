import SolidityBuild.Url.Breaks

/-!
Schemes of URLs. The special schemes are those whose URLs have a host and never
an empty path; in them a backslash counts as a slash.
-/

namespace SolidityBuild.Url

inductive SchemeKind where
  | web
  | file
  | other
deriving DecidableEq

def kindOf (scheme : String) : SchemeKind :=
  if scheme ∈ ["http", "https", "ws", "wss", "ftp"] then .web
  else if scheme = "file" then .file
  else .other

def SchemeKind.isSpecial (kind : SchemeKind) : Bool := kind ≠ .other

/-- The port that a scheme has by itself. -/
def defaultPort? (scheme : String) : Option Nat :=
  [("http", 80), ("ws", 80), ("https", 443), ("wss", 443), ("ftp", 21)].lookup scheme

/-- The scheme in lower case, and what stands behind its colon. -/
def scheme? (cs : List Char) : Option (String × List Char) :=
  let isSchemeChar (c : Char) : Bool := c.isAlphanum || c = '+' || c = '-' || c = '.'
  let name := visible (cs.takeWhile (· ≠ ':'))
  match cs.dropWhile (· ≠ ':') with
  | _ :: rest =>
    if name.head?.any Char.isAlpha ∧ name.all isSchemeChar then
      some (String.ofList (name.map Char.toLower), rest)
    else none
  | [] => none

end SolidityBuild.Url
