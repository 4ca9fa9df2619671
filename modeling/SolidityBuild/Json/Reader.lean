import SolidityBuild.Json.Document
import SolidityBuild.Text.Utf8

/-!
Reading JSON. The reader is strict about the grammar and never fails: it
returns the document that the text spells, broken off at the first place where
the grammar is violated. Parts that are well formed and denote nothing are
unreadable: texts with half a surrogate pair or bytes that are not UTF-8,
numbers beyond the largest double, and arrays and objects inside more than 127
others.
-/

namespace SolidityBuild.Json

open SolidityBuild.Text (Utf8.Item Utf8.items)

/-- The text behind a part; `none` if it broke off. -/
abbrev Rest := Option (List Utf8.Item)

/-- Arrays and objects are read inside at most this many others, less one. -/
def nestingLimit : Nat := 127

/-- The largest integer that is held as one; so is every integer from
`leastInteger` on. -/
def largestInteger : Nat := UInt64.size - 1

def leastInteger : Int := Int64.minValue.toInt

def isJsonBlank (c : Char) : Bool :=
  c = ' ' || c = '\t' || c = '\n' || c = '\r'

/-- Drop the blanks in front. -/
def skipBlanks : List Utf8.Item → List Utf8.Item
  | some c :: cs => if isJsonBlank c then skipBlanks cs else some c :: cs
  | cs => cs

/-- Read the rest of a word. -/
def word (d : Document) : List Char → List Utf8.Item → Document × Rest
  | [], cs => (d, some cs)
  | w :: ws, some c :: cs => if w = c then word d ws cs else (.broken, none)
  | _ :: _, _ => (.broken, none)

/-! ## Texts -/

def hexValue? (c : Char) : Option Nat :=
  if c.isDigit then some (c.toNat - '0'.toNat)
  else if 'a' ≤ c ∧ c ≤ 'f' then some (c.toNat - 'a'.toNat + 10)
  else if 'A' ≤ c ∧ c ≤ 'F' then some (c.toNat - 'A'.toNat + 10)
  else none

/-- The number that four hexadecimal digits denote. -/
def fourHex? (a b c d : Char) : Option Nat := do
  let a ← hexValue? a
  let b ← hexValue? b
  let c ← hexValue? c
  let d ← hexValue? d
  return ((a * 16 + b) * 16 + c) * 16 + d

/-- The character that a backslash and one more character denote. -/
def shortEscape? (c : Char) : Option Char :=
  match c with
  | '"' => some '"'
  | '\\' => some '\\'
  | '/' => some '/'
  | 'b' => some (Char.ofNat 8)
  | 'f' => some (Char.ofNat 12)
  | 'n' => some '\n'
  | 'r' => some '\r'
  | 't' => some '\t'
  | _ => none

/-- What has been read of a text: its characters in reverse, or `none` once
some part of it denotes nothing. -/
abbrev Spelled := Option (List Char)

/-- Add a character; half a surrogate pair before it denotes nothing. -/
def Spelled.push (text : Spelled) (half : Option Nat) (c : Char) : Spelled :=
  if half.isSome then none else text.map (c :: ·)

/-- Add a code unit written in hexadecimal. The first half of a surrogate pair
waits for the second. -/
def Spelled.pushUnit (text : Spelled) (half : Option Nat) (unit : Nat) :
    Spelled × Option Nat :=
  if 0xDC00 ≤ unit ∧ unit ≤ 0xDFFF then
    match half with
    | some first =>
      let code := 0x10000 + (first - 0xD800) * 0x400 + (unit - 0xDC00)
      (text.map (Char.ofNat code :: ·), none)
    | none => (none, none)
  else if 0xD800 ≤ unit ∧ unit ≤ 0xDBFF then
    (if half.isSome then none else text, some unit)
  else (text.push half (Char.ofNat unit), none)

/-- Read a text behind its opening quotation mark. The first component of the
result is `none` if the text denotes nothing, the second if it broke off. -/
def readText (text : Spelled) (half : Option Nat) : List Utf8.Item → Option String × Rest
  | some '"' :: cs =>
    ((if half.isSome then none else text).map (fun t => String.ofList t.reverse), some cs)
  | some '\\' :: some 'u' :: some a :: some b :: some c :: some d :: cs =>
    match fourHex? a b c d with
    | some unit =>
      let (text, half) := text.pushUnit half unit
      readText text half cs
    | none => (none, none)
  | some '\\' :: some c :: cs =>
    match shortEscape? c with
    | some c => readText (text.push half c) none cs
    | none => (none, none)
  | some c :: cs =>
    if c.toNat < 0x20 ∨ c = '\\' then (none, none)
    else readText (text.push half c) none cs
  | none :: cs => readText none none cs
  | [] => (none, none)

/-! ## Numbers -/

/-- Read digits, and say how many there were. The significand takes them as
long as it fits into a word; behind that they are only counted. -/
structure Digits where
  significand : Nat
  /-- Digits that the significand took. -/
  taken : Nat
  /-- Digits behind the first one that did not fit, that one included. -/
  dropped : Nat
  rest : List Utf8.Item

def readDigits (significand taken dropped : Nat) : List Utf8.Item → Digits
  | some c :: cs =>
    if c.isDigit then
      let next := significand * 10 + (c.toNat - '0'.toNat)
      if dropped = 0 ∧ next ≤ largestInteger then readDigits next (taken + 1) 0 cs
      else readDigits significand taken (dropped + 1) cs
    else ⟨significand, taken, dropped, some c :: cs⟩
  | cs => ⟨significand, taken, dropped, cs⟩

/-- Read an exponent without its sign; `none` if it has no digits. -/
def readExponent (soFar : Nat) : List Utf8.Item → Nat × List Utf8.Item
  | some c :: cs =>
    if c.isDigit then readExponent (soFar * 10 + (c.toNat - '0'.toNat)) cs
    else (soFar, some c :: cs)
  | cs => (soFar, cs)

def beginsWithDigit : List Utf8.Item → Bool
  | some c :: _ => c.isDigit
  | _ => false

/-- The document of a number in scientific form. -/
def floatDocument (negative : Bool) (significand : Nat) (exponent : Int) : Document :=
  match Binary64.Magnitude.ofDecimal? significand exponent with
  | some x => .float (.ofMagnitude negative x)
  | none => .unreadable

/-- Read what may stand behind the digits of a number: an exponent. -/
def readScale (negative : Bool) (significand : Nat) (exponent : Int) (cs : List Utf8.Item) :
    Document × Rest :=
  let scale (down : Bool) (cs : List Utf8.Item) : Document × Rest :=
    if beginsWithDigit cs then
      let (e, rest) := readExponent 0 cs
      let exponent := if down then exponent - e else exponent + e
      (floatDocument negative significand exponent, some rest)
    else (.broken, none)
  match cs with
  | some 'e' :: some '+' :: cs | some 'E' :: some '+' :: cs => scale false cs
  | some 'e' :: some '-' :: cs | some 'E' :: some '-' :: cs => scale true cs
  | some 'e' :: cs | some 'E' :: cs => scale false cs
  | cs => (floatDocument negative significand exponent, some cs)

/-- The document of a number without point and exponent. -/
def integerDocument (negative : Bool) (significand : Nat) : Document :=
  if negative then
    if significand = 0 ∨ -(significand : Int) < leastInteger then
      floatDocument true significand 0
    else .int (-significand)
  else .int significand

/-- Read a number behind its sign. A number that begins with zero has no other
digit before its point. -/
def readNumber (negative : Bool) (cs : List Utf8.Item) : Document × Rest :=
  if ¬ beginsWithDigit cs then (.broken, none)
  else
    let whole := readDigits 0 0 0 cs
    if cs.head? = some (some '0') ∧ 1 < whole.taken + whole.dropped then (.broken, none)
    else
      match whole.rest with
      | some '.' :: cs =>
        if beginsWithDigit cs then
          let part := readDigits whole.significand 0 0 cs
          readScale negative part.significand (whole.dropped - part.taken) part.rest
        else (.broken, none)
      | some 'e' :: _ | some 'E' :: _ =>
        readScale negative whole.significand whole.dropped whole.rest
      | rest =>
        if whole.dropped = 0 then (integerDocument negative whole.significand, some rest)
        else (floatDocument negative whole.significand whole.dropped, some rest)

/-! ## Arrays and objects -/

/-- What stands for an array or an object inside `depth` others. -/
def nested (depth : Nat) (read : Document × Rest) : Document × Rest :=
  if depth < nestingLimit then read
  else
    match read with
    | (_, some rest) => (.unreadable, some rest)
    | (_, none) => (.broken, none)

mutual

/-- Read a value inside `depth` arrays and objects. -/
def readValue : (fuel depth : Nat) → List Utf8.Item → Document × Rest
  | 0, _, _ => (.broken, none)
  | fuel + 1, depth, cs =>
    match skipBlanks cs with
    | some 'n' :: cs => word .null ['u', 'l', 'l'] cs
    | some 't' :: cs => word (.bool true) ['r', 'u', 'e'] cs
    | some 'f' :: cs => word (.bool false) ['a', 'l', 's', 'e'] cs
    | some '"' :: cs =>
      match readText (some []) none cs with
      | (some s, some rest) => (.str s, some rest)
      | (none, some rest) => (.unreadable, some rest)
      | (_, none) => (.broken, none)
    | some '[' :: cs =>
      match skipBlanks cs with
      | some ']' :: rest => nested depth (.arr [], some rest)
      | cs =>
        let (items, rest) := readItems fuel (depth + 1) cs
        nested depth (.arr items, rest)
    | some '\x7b' :: cs =>
      match skipBlanks cs with
      | some '\x7d' :: rest => nested depth (.obj [], some rest)
      | cs =>
        let (fields, rest) := readFields fuel (depth + 1) cs
        nested depth (.obj fields, rest)
    | some '-' :: cs => readNumber true cs
    | cs => readNumber false cs

/-- Read the items of an array, its closing bracket included. -/
def readItems : (fuel depth : Nat) → List Utf8.Item → List Document × Rest
  | 0, _, _ => ([.broken], none)
  | fuel + 1, depth, cs =>
    match readValue fuel depth cs with
    | (d, none) => ([d], none)
    | (d, some cs) =>
      match skipBlanks cs with
      | some ',' :: cs =>
        let (ds, rest) := readItems fuel depth cs
        (d :: ds, rest)
      | some ']' :: rest => ([d], some rest)
      | _ => ([d, .broken], none)

/-- Read the fields of an object, its closing brace included. -/
def readFields : (fuel depth : Nat) → List Utf8.Item → List (Option String × Document) × Rest
  | 0, _, _ => ([(none, .broken)], none)
  | fuel + 1, depth, cs =>
    match skipBlanks cs with
    | some '"' :: cs =>
      match readText (some []) none cs with
      | (_, none) => ([(none, .broken)], none)
      | (key, some cs) =>
        match skipBlanks cs with
        | some ':' :: cs =>
          match readValue fuel depth cs with
          | (d, none) => ([(key, d)], none)
          | (d, some cs) =>
            match skipBlanks cs with
            | some ',' :: cs =>
              let (fs, rest) := readFields fuel depth cs
              ((key, d) :: fs, rest)
            | some '\x7d' :: rest => ([(key, d)], some rest)
            | _ => ([(key, d), (none, .broken)], none)
        | _ => ([(key, .broken)], none)
    | _ => ([(none, .broken)], none)

end

/-- A text that has been read to its end or to where it breaks off. -/
structure Reading where
  document : Document
  /-- Whether nothing but blanks follows the document. -/
  ends : Bool

/-- Read a sequence of characters and flaws. Each step of the reader consumes
at least one of them. -/
def readAll (cs : List Utf8.Item) : Reading :=
  match readValue (2 * cs.length + 2) 0 cs with
  | (d, some rest) => ⟨d, (skipBlanks rest).isEmpty⟩
  | (d, none) => ⟨d, true⟩

/-- Read a text. -/
def read (text : String) : Reading :=
  readAll (text.toList.map some)

/-- Read bytes. -/
def readBytes (bytes : List UInt8) : Reading :=
  readAll (Utf8.items bytes)

end SolidityBuild.Json
