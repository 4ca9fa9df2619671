import SolidityBuild.Text.Pieces
import SolidityBuild.Url.LabelDirection

/-!
Domains: labels with dots between them. A domain is read in lower case and in
composed normal form, compatibility forms and what cannot be seen replaced, and
is written in ASCII.
-/

namespace SolidityBuild.Url.Domain

open Text Unicode

/-- ASCII characters that no domain has, controls aside. -/
def forbidden : List Char :=
  [' ', '#', '%', '/', ':', '<', '>', '?', '@', '[', '\\', ']', '^', '|']

def isForbidden (c : Char) : Bool := c.toNat < 0x20 || c.toNat = 0x7F || forbidden.contains c

/-- Labels that can stand in one domain: if one of them has characters that are
written from right to left, all of them have a direction. -/
def together? (labels : List Label) : Option (List Label) :=
  if labels.any Label.hasRightToLeft then
    if labels.all Label.hasDirection then some labels else none
  else some labels

/-- The labels of a domain. -/
def labels? (cs : List Char) : Option (List Label) :=
  let text := normalForm (cs.flatMap Label.mapped)
  if text.isEmpty ∨ text.any isForbidden then none
  else ((split '.' text).mapM Label.ofText?).bind together?

/-- A domain in ASCII. -/
def ascii? (cs : List Char) : Option (List Char) :=
  (labels? cs).map fun labels => ['.'].intercalate (labels.map (·.ascii))

end SolidityBuild.Url.Domain
