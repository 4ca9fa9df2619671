import SolidityBuild.Json.Value

/-!
Writing JSON. Only the quotation mark, the backslash and the characters below
U+0020 are escaped; every other character stands for itself. The compact form
has no blanks. The indented form has two spaces a level, a space behind each
colon, and empty arrays and objects without a line break.
-/

namespace SolidityBuild.Json

/-- A digit of a lower-case hexadecimal number. -/
def hexDigit (n : Nat) : Char :=
  if n < 10 then Char.ofNat ('0'.toNat + n) else Char.ofNat ('a'.toNat + (n - 10))

/-- The characters that spell one character inside quotation marks. -/
def escape (c : Char) : List Char :=
  if c = '"' then ['\\', '"']
  else if c = '\\' then ['\\', '\\']
  else if 0x20 ≤ c.toNat then [c]
  else if c = '\n' then ['\\', 'n']
  else if c = '\r' then ['\\', 'r']
  else if c = '\t' then ['\\', 't']
  else if c.toNat = 8 then ['\\', 'b']
  else if c.toNat = 12 then ['\\', 'f']
  else ['\\', 'u', '0', '0', hexDigit (c.toNat / 16), hexDigit (c.toNat % 16)]

/-- A text in quotation marks. -/
def quote (s : String) : String :=
  "\"" ++ String.ofList (s.toList.flatMap escape) ++ "\""

namespace Value

mutual

/-- The compact text of a value. -/
def compact : Value → String
  | null => "null"
  | bool true => "true"
  | bool false => "false"
  | int n => toString n
  | float x => x.print
  | str s => quote s
  | arr items => "[" ++ compactItems items ++ "]"
  | obj fields => "\x7b" ++ compactFields fields ++ "\x7d"

def compactItems : List Value → String
  | [] => ""
  | [v] => v.compact
  | v :: w :: vs => v.compact ++ "," ++ compactItems (w :: vs)

def compactFields : List (String × Value) → String
  | [] => ""
  | [(k, v)] => quote k ++ ":" ++ v.compact
  | (k, v) :: f :: fs => quote k ++ ":" ++ v.compact ++ "," ++ compactFields (f :: fs)

end

/-- A line break and the indentation of a level. -/
def newline (level : Nat) : String :=
  "\n" ++ String.ofList (List.replicate (2 * level) ' ')

mutual

/-- The indented text of a value that stands at a level. -/
def indentedAt (level : Nat) : Value → String
  | arr [] => "[]"
  | arr (v :: vs) => "[" ++ indentedItems (level + 1) (v :: vs) ++ newline level ++ "]"
  | obj [] => "\x7b\x7d"
  | obj (f :: fs) => "\x7b" ++ indentedFields (level + 1) (f :: fs) ++ newline level ++ "\x7d"
  | null => "null"
  | bool true => "true"
  | bool false => "false"
  | int n => toString n
  | float x => x.print
  | str s => quote s

def indentedItems (level : Nat) : List Value → String
  | [] => ""
  | [v] => newline level ++ v.indentedAt level
  | v :: w :: vs => newline level ++ v.indentedAt level ++ "," ++ indentedItems level (w :: vs)

def indentedFields (level : Nat) : List (String × Value) → String
  | [] => ""
  | [(k, v)] => newline level ++ quote k ++ ": " ++ v.indentedAt level
  | (k, v) :: f :: fs =>
    newline level ++ quote k ++ ": " ++ v.indentedAt level ++ "," ++ indentedFields level (f :: fs)

end

/-- The indented text of a value. -/
def indented (v : Value) : String := v.indentedAt 0

end Value

end SolidityBuild.Json
