import SolidityBuild.Json.Record

/-!
Source sets: the texts that are handed to the compiler, by virtual path.
-/

namespace SolidityBuild

open Json

/-- Source texts by virtual path, in path order. -/
abbrev SourceSet := TextMap String

namespace SourceSet

/-- A source is written as an object with its text. -/
def writeSource (content : String) : Value := .obj [("content", .str content)]

def write (sources : SourceSet) : Value := .ofMap writeSource sources

def readSource {ε : Type} : Decoder ε String :=
  Record.decode ["content"] .skip fun r => r.required "content" .text

def read {ε : Type} : Decoder ε SourceSet := .map readSource

end SourceSet

end SolidityBuild
