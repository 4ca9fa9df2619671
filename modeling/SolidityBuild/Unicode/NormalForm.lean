import SolidityBuild.Unicode.CombiningClass
import SolidityBuild.Unicode.Composition

/-!
The composed normal form of texts. A text is taken apart, the marks behind a
character are sorted by their classes, and then each character is joined with
the marks behind it as far as there is a composed character. A mark is not
joined over another one of its own class or a higher one. Characters that only
stand for others are not changed.
-/

namespace SolidityBuild.Unicode

/-- Put a mark in its place among those in front of it, the last one first.
Marks of one class stay in their order. -/
def putMark (n : Nat) : List Nat → List Nat
  | [] => [n]
  | last :: front =>
    if combiningClass n ≠ 0 ∧ combiningClass n < combiningClass last then
      last :: putMark n front
    else n :: last :: front

/-- Sort the marks behind each character. -/
def sortMarks (text : List Nat) : List Nat :=
  (text.foldl (fun front n => putMark n front) []).reverse

/-- Join a character of class zero with what stands behind it. `marks` stand
between them and are not joined, the last one first. -/
def composeFrom (start : Nat) (marks : List Nat) : List Nat → List Nat
  | [] => start :: marks.reverse
  | n :: text =>
    let isBlocked := marks.head?.any fun last => combiningClass n ≤ combiningClass last
    match if isBlocked then none else whole? start n with
    | some whole => composeFrom whole marks text
    | none =>
      if combiningClass n = 0 then start :: (marks.reverse ++ composeFrom n [] text)
      else composeFrom start (n :: marks) text

/-- Join characters with the marks behind them. -/
def compose : List Nat → List Nat
  | [] => []
  | n :: text => if combiningClass n = 0 then composeFrom n [] text else n :: compose text

/-- The composed normal form. ASCII text is in normal form. -/
def normalForm (text : List Char) : List Char :=
  if text.all (·.toNat < 0x80) then text
  else (compose (sortMarks (text.flatMap fun c => parts c.toNat))).map Char.ofNat

end SolidityBuild.Unicode
