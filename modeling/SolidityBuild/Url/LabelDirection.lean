import SolidityBuild.Unicode.Direction
import SolidityBuild.Url.Label

/-!
The direction of labels. In a domain with characters that are written from right
to left, each label has to have a direction, so that its characters do not mix
with those of its neighbours when it is shown: it begins with a letter, and ends
with a letter of the same direction or a number, marks behind it aside.
-/

namespace SolidityBuild.Url.Label

open Unicode

/-- Whether a label has a character that is written from right to left. -/
def hasRightToLeft (label : Label) : Bool := label.text.any (isRightToLeft ·.toNat)

/-- Whether a label that begins in some direction may end in another one. -/
def mayEnd (first last : Direction) : Bool :=
  last = first || last = .europeanNumber || (first = .rightToLeft && last = .arabicNumber)

/-- Whether a label has a direction. Numbers of two kinds do not stand in one
label. -/
def hasDirection (label : Label) : Bool :=
  match label.text.map fun c => direction c.toNat with
  | [] => true
  | first :: rest =>
    let reversed := rest.reverse.dropWhile (· = .mark)
    (first = .leftToRight || first = .rightToLeft) && reversed.head?.all (mayEnd first) &&
      reversed.all (fun d => mayEnd first d || d = .neutral || d = .mark) &&
      ¬ (reversed.contains .arabicNumber && reversed.contains .europeanNumber)

end SolidityBuild.Url.Label
