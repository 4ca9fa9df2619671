import SolidityBuild.Text.Percent
import SolidityBuild.Text.Pieces
import SolidityBuild.Text.Radix
import SolidityBuild.Url.Domain

/-!
Hosts of URLs in normal form: domains in lower case, IPv4 addresses as four
decimal numbers, IPv6 addresses with their longest run of zeros left out, and
opaque hosts, which are only percent-encoded.
-/

namespace SolidityBuild.Url.Host

open Text

/-! ## IPv4 -/

/-- A part of an IPv4 address: decimal, octal behind a zero, or hexadecimal
behind `0x`. -/
def ipv4Number? : List Char → Option Nat
  | [] => none
  | '0' :: 'x' :: cs | '0' :: 'X' :: cs => Radix.read? 16 cs
  | '0' :: c :: cs => Radix.read? 8 (c :: cs)
  | cs => Radix.read? 10 cs

/-- The dot-separated parts, without an empty one at the end. -/
def dotParts (domain : List Char) : List (List Char) :=
  let parts := split '.' domain
  if 1 < parts.length ∧ parts.getLast? = some [] then parts.dropLast else parts

/-- Whether a domain has to be an IPv4 address, since its last part is a
number. -/
def endsInNumber (domain : List Char) : Bool :=
  match (dotParts domain).getLast? with
  | none => false
  | some last => ¬ last.isEmpty && (last.all Char.isDigit || (ipv4Number? last).isSome)

/-- The address of up to four numbers; the last one fills the bytes that are
left. -/
def ipv4? (domain : List Char) : Option String := do
  let parts := dotParts domain
  let numbers ← parts.mapM ipv4Number?
  let last ← numbers.getLast?
  let front := numbers.dropLast
  if 4 < parts.length ∨ front.any (255 < ·) ∨ Nat.pow 256 (4 - front.length) ≤ last then none
  else
    let rest := (List.range (4 - front.length)).reverse.map fun i => last / Nat.pow 256 i % 256
    some (String.intercalate "." ((front ++ rest).map toString))

/-! ## IPv6 -/

/-- One to four hexadecimal digits. -/
def piece? (cs : List Char) : Option Nat :=
  if cs.isEmpty ∨ 4 < cs.length then none else Radix.read? 16 cs

/-- A decimal number of one byte without leading zeros. -/
def byte? : List Char → Option Nat
  | ['0'] => some 0
  | '0' :: _ => none
  | cs => if cs.isEmpty then none else (Radix.read? 10 cs).filter (· ≤ 255)

/-- The two pieces of four decimal numbers at the end of an address. -/
def dottedPieces? (cs : List Char) : Option (List Nat) :=
  match (split '.' cs).mapM byte? with
  | some [a, b, c, d] => some [a * 256 + b, c * 256 + d]
  | _ => none

/-- The pieces between colons. The last of them may be dotted. -/
def pieces? : List (List Char) → Option (List Nat)
  | [] => some []
  | [last] =>
    if last.contains '.' then dottedPieces? last else (piece? last).map ([·])
  | cs :: next :: rest => do
    let n ← piece? cs
    let ns ← pieces? (next :: rest)
    return n :: ns

/-- Cut a text at its first double colon. -/
def cutAtGap : List Char → Option (List Char × List Char)
  | ':' :: ':' :: cs => some ([], cs)
  | c :: cs => (cutAtGap cs).map fun (front, back) => (c :: front, back)
  | [] => none

/-- The pieces of one side of a gap, which may be empty. -/
def side? (dotted : Bool) (cs : List Char) : Option (List Nat) :=
  if cs.isEmpty then some []
  else if ¬ dotted ∧ cs.contains '.' then none
  else pieces? (split ':' cs)

/-- The eight pieces of an address. -/
def ipv6Pieces? (cs : List Char) : Option (List Nat) :=
  match cutAtGap cs with
  | none => (pieces? (split ':' cs)).filter (·.length = 8)
  | some (front, back) => do
    let front ← side? false front
    let back ← side? true back
    if 8 ≤ front.length + back.length then none
    else some (front ++ List.replicate (8 - front.length - back.length) 0 ++ back)

/-- The first of the longest runs of zeros: where it begins and how long it
is. -/
def longestZeros (start : Nat) (run : Nat × Nat) (best : Nat × Nat) : List Nat → Nat × Nat
  | [] => if best.2 < run.2 then run else best
  | n :: ns =>
    if n = 0 then
      longestZeros (start + 1) (if run.2 = 0 then (start, 1) else (run.1, run.2 + 1)) best ns
    else longestZeros (start + 1) (0, 0) (if best.2 < run.2 then run else best) ns

def hexText (n : Nat) : String := String.ofList (Nat.toDigits 16 n)

def ipv6Text (pieces : List Nat) : String :=
  let (start, length) := longestZeros 0 (0, 0) (0, 0) pieces
  if 2 ≤ length then
    String.intercalate ":" ((pieces.take start).map hexText) ++ "::" ++
      String.intercalate ":" ((pieces.drop (start + length)).map hexText)
  else String.intercalate ":" (pieces.map hexText)

/-- A host in brackets. -/
def bracketed? (cs : List Char) : Option String := do
  let address ← stripEnd? ']' cs
  let pieces ← ipv6Pieces? address
  return "[" ++ ipv6Text pieces ++ "]"

/-! ## Domains -/

/-- A host of a special URL. -/
def domain? (cs : List Char) : Option String :=
  match cs with
  | '[' :: cs => bracketed? cs
  | _ => do
    let decoded := Utf8.decodeLossy (Percent.decode (Utf8.encode (String.ofList cs)))
    let domain ← Domain.ascii? decoded
    if endsInNumber domain then ipv4? domain else return String.ofList domain

/-- Characters that no opaque host has. -/
def isForbidden (c : Char) : Bool :=
  c.toNat = 0 || (c ≠ '%' && Domain.forbidden.contains c)

/-- A host of another URL, which may be empty. -/
def opaque? (cs : List Char) : Option String :=
  match cs with
  | '[' :: cs => bracketed? cs
  | _ => if cs.any isForbidden then none else some (String.ofList (Percent.encode [] cs))

end SolidityBuild.Url.Host
