import SolidityBuild.Text.Punycode
import SolidityBuild.Unicode.Joining
import SolidityBuild.Unicode.NormalForm
import SolidityBuild.Url.LabelChars

/-!
Labels of domains. A label with characters beyond ASCII is written in Punycode
behind `xn--`, and what stands behind that mark has to be the Punycode of such a
label. The label itself is in composed normal form and does not begin with a
mark. Joiners, which cannot be seen, stand only where they make a difference:
behind a virama, or where a character that is joined would be kept from it.
-/

namespace SolidityBuild.Url

open Text Unicode

structure Label where
  /-- What stands in the domain. -/
  ascii : List Char
  /-- What it says. -/
  text : List Char

namespace Label

/-! ## Joiners -/

def nonJoiner : Char := Char.ofNat 0x200C

def joiner : Char := Char.ofNat 0x200D

/-- Whether the first character that is not transparent is joined in one of some
ways. -/
def beginsJoined (ways : List Joining) (cs : List Char) : Bool :=
  ((cs.map fun c => joining c.toNat).find? (· ≠ .transparent)).any ways.contains

/-- Whether a joiner or non-joiner may stand between two texts, the first of them
in reverse. -/
def mayStandBetween (front : List Char) (c : Char) (behind : List Char) : Bool :=
  front.head?.any (isVirama ·.toNat) ||
    (c = nonJoiner && beginsJoined [.both, .behind] front && beginsJoined [.both, .front] behind)

/-- Whether the joiners of a text are in place behind another one, which is in
reverse. -/
def joinersFit (front : List Char) : List Char → Bool
  | [] => true
  | c :: cs =>
    ((c ≠ joiner && c ≠ nonJoiner) || mayStandBetween front c cs) && joinersFit (c :: front) cs

/-! ## International labels -/

/-- An international label has at most this many characters. -/
def lengthLimit : Nat := 1000

/-- What stands behind `xn--` has at most this many characters. -/
def codeLimit : Nat := 2000

/-- Whether a text is a label with characters beyond ASCII. -/
def isInternational (text : List Char) : Bool :=
  ¬ text.all Punycode.isAscii && text.length ≤ lengthLimit &&
    text.all (fun c => Punycode.isAscii c || isAllowed c) && normalForm text = text &&
    ¬ text.head?.any (isMark ·.toNat) && joinersFit [] text

/-- Read a label, given in lower case. -/
def ofText? (given : List Char) : Option Label :=
  match "xn--".toList.isPrefixOf? given with
  | some code =>
    if codeLimit < code.length then none
    else ((Punycode.decode? code).filter isInternational).map fun text => ⟨given, text⟩
  | none =>
    if given.all Punycode.isAscii then some ⟨given, given⟩
    else if isInternational given then some ⟨"xn--".toList ++ Punycode.encode given, given⟩
    else none

end Label

end SolidityBuild.Url
