import SolidityBuild.Text.Decimal
import SolidityBuild.Url.Host
import SolidityBuild.Url.Segments

/-!
Authorities of URLs: who uses the resource, the host that has it, and the port.
The part in front of the last `@` names the user. A user or a port needs a host
that is not empty.
-/

namespace SolidityBuild.Url

open Text

/-- An authority in normal form. -/
structure Authority where
  /-- User name, password and the sign behind them, host and port. -/
  text : String
  /-- The port, unless it is the one of the scheme. -/
  port : Option Nat

/-- Whether a character ends the authority. -/
def endsAuthority (kind : SchemeKind) (c : Char) : Bool :=
  c = '/' || c = '?' || c = '#' || (kind.isSpecial && c = '\\')

def userSet : List Char := "/:;=@[\\]^|".toList ++ pathSet

/-- The user name and password in normal form, with the sign behind them; a
password that is empty is left out. -/
def userText (user : List Char) : String :=
  let name := user.takeWhile (· ≠ ':')
  let password := (user.dropWhile (· ≠ ':')).drop 1
  if name.isEmpty ∧ password.isEmpty then ""
  else
    String.ofList (Percent.encode userSet name) ++
      (if password.isEmpty then "" else ":" ++ String.ofList (Percent.encode userSet password)) ++
      "@"

/-- The host, up to a colon outside brackets, and what stands behind it. -/
def cutHost (inBrackets : Bool) : List Char → List Char × List Char
  | [] => ([], [])
  | c :: cs =>
    if c = ':' ∧ ¬ inBrackets then ([], c :: cs)
    else
      let inside := if c = '[' then true else if c = ']' then false else inBrackets
      let (host, rest) := cutHost inside cs
      (c :: host, rest)

/-- The port behind the host: a colon and a number, which may be missing. A
backslash ends it in every scheme; it and what stands behind it are left. -/
def port? (scheme : String) : List Char → Option (Option Nat × List Char)
  | ':' :: cs => do
    let digits := cs.takeWhile Char.isDigit
    let left := cs.dropWhile Char.isDigit
    if left.head?.any (· ≠ '\\') then none
    else if digits.isEmpty then return (none, left)
    else
      let port ← (Decimal.readNat? digits).filter (· ≤ 65535)
      return (if defaultPort? scheme = some port then none else some port, left)
  | _ => some (none, [])

/-- Read an authority. What is left behind its port belongs to the path. `bare`
says that nothing stands behind the authority: only then may it be an `@` and
nothing else. -/
def authority? (scheme : String) (bare : Bool) (cs : List Char) :
    Option (Authority × List Char) := do
  let kind := kindOf scheme
  let reversed := cs.reverse
  let user := if cs.contains '@' then ((reversed.dropWhile (· ≠ '@')).drop 1).reverse else []
  let (hostText, portText) := cutHost false (reversed.takeWhile (· ≠ '@')).reverse
  let host ← if kind.isSpecial then Host.domain? hostText else Host.opaque? hostText
  if host = "" ∧ (userText user ≠ "" ∨ ¬ portText.isEmpty) ∨ cs = ['@'] ∧ ¬ bare then none
  let (port, left) ← port? scheme portText
  return (⟨userText user ++ host ++ (port.map fun n => ":" ++ Decimal.print n).getD "", port⟩,
    left)

end SolidityBuild.Url
