import SolidityBuild.Text.Blank

/-!
Cutting texts into pieces and putting them together again: splitting at a
separator, lines, affixes, and replacing every occurrence of a phrase.
Each function is a structural recursion over the characters.
-/

namespace SolidityBuild.Text

/-- The pieces between the occurrences of `separator`; there is always at
least one piece. -/
def split (separator : Char) : List Char → List (List Char)
  | [] => [[]]
  | c :: cs =>
    if c = separator then [] :: split separator cs
    else
      match split separator cs with
      | [] => [[c]]
      | piece :: pieces => (c :: piece) :: pieces

theorem split_ne_nil (separator : Char) (cs : List Char) : split separator cs ≠ [] := by
  cases cs with
  | nil => simp [split]
  | cons c cs =>
    simp only [split]
    split
    · simp
    · split <;> simp

/-- Splitting is undone by joining with the separator. -/
theorem intercalate_split (separator : Char) (cs : List Char) :
    [separator].intercalate (split separator cs) = cs := by
  induction cs with
  | nil => simp [split, List.intercalate]
  | cons c cs ih =>
    simp only [split]
    have hne := split_ne_nil separator cs
    split
    next h =>
      cases hs : split separator cs with
      | nil => exact absurd hs hne
      | cons piece pieces =>
        rw [hs] at ih
        simp [List.intercalate] at ih ⊢
        exact ⟨h.symm, ih⟩
    next h =>
      cases hs : split separator cs with
      | nil => exact absurd hs hne
      | cons piece pieces =>
        rw [hs] at ih
        cases pieces with
        | nil => simpa [List.intercalate] using ih
        | cons next pieces => simpa [List.intercalate] using ih

theorem isPrefixOf?_eq_some_iff {start cs rest : List Char} :
    start.isPrefixOf? cs = some rest ↔ cs = start ++ rest := by
  induction start generalizing cs with
  | nil =>
    have hall : ([] : List Char).isPrefixOf? cs = some cs := rfl
    rw [hall, Option.some.injEq, List.nil_append]
  | cons p ps ih =>
    cases cs with
    | nil =>
      have hnone : (p :: ps).isPrefixOf? [] = none := rfl
      simp [hnone]
    | cons c cs =>
      have hstep : (p :: ps).isPrefixOf? (c :: cs) =
          if p == c then ps.isPrefixOf? cs else none := rfl
      rw [hstep]
      by_cases h : p = c
      · subst h; simp [ih]
      · simp [h]; intro hc; exact absurd hc.symm h

/-- What is left of a text before its last character, if that is `last`. -/
def stripEnd? (last : Char) (cs : List Char) : Option (List Char) :=
  if cs.getLast? = some last then some cs.dropLast else none

theorem stripEnd?_eq_some_iff {last : Char} {cs rest : List Char} :
    stripEnd? last cs = some rest ↔ cs = rest ++ [last] := by
  unfold stripEnd?
  constructor
  · intro h
    split at h
    next hlast =>
      obtain ⟨front, rfl⟩ := List.getLast?_eq_some_iff.1 hlast
      simp at h; rw [h]
    next => simp at h
  · rintro rfl; simp

/-- A line without the carriage return in front of its newline. -/
def dropReturn (line : List Char) : List Char :=
  (stripEnd? '\r' line).getD line

/-- Drop the carriage returns in front of newlines, and the empty piece after
a newline that ends the text. -/
def closeLines : List (List Char) → List (List Char)
  | [] => []
  | [last] => if last.isEmpty then [] else [last]
  | line :: next :: rest => dropReturn line :: closeLines (next :: rest)

/-- The lines of a text, ended by a newline or by a carriage return and a
newline; the last line may lack its end. -/
def lines (cs : List Char) : List (List Char) :=
  closeLines (split '\n' cs)

/-- Replacing with `skip` characters still to be dropped, the rest of an
occurrence that was replaced before them. -/
def replaceFrom (phrase replacement : List Char) : Nat → List Char → List Char
  | _, [] => []
  | skip + 1, _ :: cs => replaceFrom phrase replacement skip cs
  | 0, c :: cs =>
    if phrase.isPrefixOf (c :: cs) then
      replacement ++ replaceFrom phrase replacement (phrase.length - 1) cs
    else c :: replaceFrom phrase replacement 0 cs

/-- Replace the occurrences of a non-empty phrase, from the left and without
overlap. -/
def replaceAll (phrase replacement cs : List Char) : List Char :=
  replaceFrom phrase replacement 0 cs

end SolidityBuild.Text
