import SolidityBuild.Text.Pieces
import SolidityBuild.Text.Radix

/-!
Properties of characters, given by tables of code points. A table is kept as a
text of words with blanks between them, its numbers in hexadecimal. The word
`E0-F6` stands for the code points from the first to the last, and `101-12F/2`
for every second one of them. In a table of images, `C0-D6:E0` says that each
code point of the span has the one as far behind `E0` as its own is behind `C0`;
and `B8:20+327,31` gives the images of `B8` and of the code point behind it one
by one.
-/

namespace SolidityBuild.Unicode

open Text

/-- The words of a text. -/
def words (text : String) : List (List Char) :=
  (split ' ' (text.toList.map fun c => if isBlank c then ' ' else c)).filter (¬ ·.isEmpty)

/-- A code point. -/
def codePoint? (cs : List Char) : Option Nat :=
  if cs.isEmpty then none else Radix.read? 16 cs

/-! ## Spans -/

/-- Every `step`-th code point from the first to the last. -/
structure Span where
  first : Nat
  last : Nat
  step : Nat

def Span.covers (s : Span) (n : Nat) : Bool :=
  s.first ≤ n && n ≤ s.last && (n - s.first) % s.step = 0

def Span.ofWord? (word : List Char) : Option Span := do
  match split '-' word with
  | [first] =>
    let first ← codePoint? first
    return ⟨first, first, 1⟩
  | [first, last] =>
    match split '/' last with
    | [last] => return ⟨← codePoint? first, ← codePoint? last, 1⟩
    | [last, step] => return ⟨← codePoint? first, ← codePoint? last, ← codePoint? step⟩
    | _ => none
  | _ => none

/-- The spans that a text lists. -/
def spans (text : String) : List Span := (words text).filterMap Span.ofWord?

/-- Whether one of the spans has a code point. -/
def isIn (table : List Span) (n : Nat) : Bool := table.any (·.covers n)

/-! ## Images -/

/-- The images of some code points. -/
inductive Images where
  /-- The code points of a span move to those from `target` on. -/
  | moved (span : Span) (target : Nat)
  /-- The code points from the first on have these images. -/
  | listed (first : Nat) (images : List (List Nat))

def Images.ofWord? (word : List Char) : Option Images := do
  match split ':' word with
  | [front, back] =>
    let span ← Span.ofWord? front
    let images ← (split ',' back).mapM fun image => (split '+' image).mapM codePoint?
    match images with
    | [[target]] => return .moved span target
    | _ => return .listed span.first images
  | _ => none

def Images.image? : Images → Nat → Option (List Nat)
  | .moved span target, n =>
    if span.covers n then some [target + (n - span.first)] else none
  | .listed first images, n => if first ≤ n then images[n - first]? else none

/-- The images that a text lists. -/
def images (text : String) : List Images := (words text).filterMap Images.ofWord?

/-- The image of a code point, if it has one. -/
def image? (table : List Images) (n : Nat) : Option (List Nat) :=
  table.findSome? (·.image? n)

end SolidityBuild.Unicode
