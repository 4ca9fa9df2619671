import SolidityBuild.Text.Utf8

/-!
Bytecode as a chain of string literals. A long text is cut into segments of 256
bytes; a character that is cut in two leaves flaws in both segments.
-/

namespace SolidityBuild.TypeScript.Bytecode

open Text

def segmentLength : Nat := 256

/-- Cut bytes into segments; all but the last have the full length. -/
def segments : List UInt8 → List (List UInt8)
  | [] => []
  | b :: bs => (b :: bs).take segmentLength :: segments ((b :: bs).drop segmentLength)
termination_by bytes => bytes.length
decreasing_by simp only [segmentLength, List.length_drop, List.length_cons]; omega

/-- A segment in quotation marks. -/
def literalOf (segment : List UInt8) : String :=
  "\"" ++ String.ofList (Utf8.decodeLossy segment) ++ "\""

/-- The sum of the literals of all segments; an empty text is an empty
literal. -/
def literal (hex : String) : String :=
  if hex = "" then "\"\""
  else String.intercalate "+\n    " ((segments (Utf8.encode hex)).map literalOf)

end SolidityBuild.TypeScript.Bytecode
