import SolidityBuild.Text.Pieces

/-!
Import statements. A statement takes a whole line, blanks around it aside: the
word `import`, one space, a specifier in quotation marks of either kind, and a
semicolon. Imports of single names are no such statements.
-/

namespace SolidityBuild

/-- What an import is looked up in: the directory of the importing file, or the
module directory. -/
inductive ImportKind where
  | relative
  | module
deriving DecidableEq

/-- An import statement of a source text. -/
structure Import where
  /-- The statement, as it stands on its line. -/
  statement : String
  /-- The text between the quotation marks. -/
  specifier : String
deriving DecidableEq

namespace Import

open Text

/-- An import is relative if its specifier begins with a dot. -/
def kind (i : Import) : ImportKind :=
  if i.specifier.toList.head? = some '.' then .relative else .module

def keyword : List Char := ['i', 'm', 'p', 'o', 'r', 't', ' ']

def isQuote (c : Char) : Bool := c = '"' || c = '\''

/-- The specifier of a line without blanks around it, if the line is an import
statement. -/
def specifier? (line : List Char) : Option (List Char) :=
  match keyword.isPrefixOf? line with
  | some (quote :: rest) =>
    if isQuote quote then do
      let quoted ← stripEnd? ';' rest
      let specifier ← stripEnd? quote quoted
      if specifier.isEmpty ∨ quote ∈ specifier then none else some specifier
    else none
  | _ => none

/-- The import statement of a line, if it is one. -/
def ofLine? (line : List Char) : Option Import :=
  (specifier? (trim line)).map fun specifier =>
    ⟨String.ofList (trim line), String.ofList specifier⟩

/-- The import statements of a text, from the first line on. -/
def scan (text : String) : List Import :=
  (lines text.toList).filterMap ofLine?

end Import

end SolidityBuild
