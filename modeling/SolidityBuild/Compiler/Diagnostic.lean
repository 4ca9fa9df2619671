import SolidityBuild.Json.Printer
import SolidityBuild.Source.Set
import SolidityBuild.Text.Pieces

/-!
What the compiler has to say about the sources. A diagnostic may point at a
range of bytes in a source; a report is a diagnostic together with the lines
that the range covers.
-/

namespace SolidityBuild.Compiler

open Json

inductive Severity where
  | info
  | warning
  | error
deriving DecidableEq

namespace Severity

def text : Severity → String
  | info => "info"
  | warning => "warning"
  | error => "error"

def all : List Severity := [info, warning, error]

end Severity

/-- A range of bytes in a source; bounds that are not known are negative. -/
structure SourceLocation where
  file : String
  start : Int
  stop : Int
deriving DecidableEq

structure Diagnostic where
  severity : Severity
  message : String
  formattedMessage : Option String
  kind : Option String
  component : Option String
  errorCode : Option String
  sourceLocation : Option SourceLocation
deriving DecidableEq

/-! ## Lines -/

/-- The lines of a text, cut at newlines only. -/
def sourceLinesOf (content : String) : List String :=
  (Text.split '\n' content.toList).map String.ofList

/-- Count the lines that end before an offset. A newline belongs to the line it
ends, and an offset behind the text belongs to the last line. -/
def lineIn : List String → (offset : Nat) → Nat
  | [], _ => 0
  | [_], _ => 0
  | line :: next :: rest, offset =>
    if line.utf8ByteSize < offset then
      lineIn (next :: rest) (offset - (line.utf8ByteSize + 1)) + 1
    else 0

/-- The line of a byte offset, counted from zero. -/
def lineOfOffset (content : String) (offset : Nat) : Nat :=
  lineIn (sourceLinesOf content) offset

def trimmed (line : String) : String := String.ofList (Text.trim line.toList)

/-- The lines from the one of `start` to the one of `stop`, numbered from one
and trimmed; none if the range is not known or reversed. -/
def sourceLines (content : String) (start stop : Int) : List (Nat × String) :=
  if start < 0 ∨ stop < start then []
  else
    let first := lineOfOffset content start.toNat
    let last := lineOfOffset content stop.toNat
    let numbered := (sourceLinesOf content).mapIdx fun i line => (i + 1, trimmed line)
    (numbered.drop first).take (last - first + 1)

/-! ## Reports -/

namespace Diagnostic

/-- Longer messages are cut off in summaries. -/
def summaryLength : Nat := 250

def summary (d : Diagnostic) : String :=
  let message := d.message.toList
  if summaryLength < message.length then
    String.ofList (message.take summaryLength) ++ "..."
  else d.message

/-- What a diagnostic without a location refers to. -/
def nowhere : String := "contract"

/-- The file that the diagnostic refers to. -/
def file (d : Diagnostic) : String :=
  (d.sourceLocation.map (·.file)).getD nowhere

/-- The lines that the diagnostic points at; none if the file is no source. -/
def excerpt (d : Diagnostic) (sources : SourceSet) : List (Nat × String) :=
  match d.sourceLocation with
  | none => []
  | some location =>
    match sources.get? location.file with
    | none => []
    | some content => sourceLines content location.start location.stop

end Diagnostic

structure Report where
  diagnostic : Diagnostic
  /-- Numbered lines. -/
  lines : List (Nat × String)
deriving DecidableEq

namespace Report

def of (d : Diagnostic) (sources : SourceSet) : Report := ⟨d, d.excerpt sources⟩

def severity (r : Report) : Severity := r.diagnostic.severity

def isError (r : Report) : Bool := r.severity = .error

/-- The numbers of the first and the last line. -/
def lineRange? (r : Report) : Option (Nat × Nat) := do
  let first ← r.lines.head?
  let last ← r.lines.getLast?
  return (first.1, last.1)

/-- The report on one line. -/
def text (r : Report) : String :=
  r.diagnostic.file ++ ": " ++ r.diagnostic.summary ++
    match r.lineRange? with
    | none => ""
    | some (first, last) =>
      if first = last then " (line " ++ toString first ++ ")"
      else " (lines " ++ toString first ++ "-" ++ toString last ++ ")"

end Report

/-! ## Reading and writing -/

namespace Severity

def read {ε : Type} : Decoder ε Severity :=
  .oneOf Document.isNull (all.map fun s => (s.text, s))

def write (s : Severity) : Value := .str s.text

end Severity

namespace SourceLocation

/-- An offset is a signed word. -/
def readOffset {ε : Type} : Decoder ε Int := .intIn Int64.minValue.toInt Int64.maxValue.toInt

def read {ε : Type} : Decoder ε SourceLocation :=
  Record.decode ["file", "start", "end"] .skip fun r =>
    SourceLocation.mk <$>
      r.required "file" .text <*>
      r.required "start" readOffset <*>
      r.required "end" readOffset

def write (l : SourceLocation) : Value :=
  .obj [("file", .str l.file), ("start", .int l.start), ("end", .int l.stop)]

end SourceLocation

namespace Diagnostic

def fieldNames : List String :=
  ["severity", "message", "formattedMessage", "type", "component", "errorCode", "sourceLocation"]

def read {ε : Type} : Decoder ε Diagnostic :=
  Record.decode fieldNames .skip fun r =>
    Diagnostic.mk <$>
      r.required "severity" Severity.read <*>
      r.required "message" .text <*>
      r.optional "formattedMessage" .text <*>
      r.optional "type" .text <*>
      r.optional "component" .text <*>
      r.optional "errorCode" .text <*>
      r.optional "sourceLocation" SourceLocation.read

def write (d : Diagnostic) : Value :=
  .obj ([("severity", d.severity.write), ("message", .str d.message)] ++
    Value.field? "formattedMessage" .str d.formattedMessage ++
    Value.field? "type" .str d.kind ++
    Value.field? "component" .str d.component ++
    Value.field? "errorCode" .str d.errorCode ++
    Value.field? "sourceLocation" SourceLocation.write d.sourceLocation)

end Diagnostic

end SolidityBuild.Compiler
