import SolidityBuild.Json.Reader

/-!
Reading records out of documents. A record is written as an object, its fields
by name, or as an array, its fields by position; missing fields take their
defaults. Faults are reported in the order of the text: of two faulty parts the
earlier one decides. `Fields` keeps the place of a fault for that purpose.
-/

namespace SolidityBuild.Json

/-- Why a document is not read as what was asked for: it has another shape, or
a part of the right shape is refused for a reason of its own. -/
inductive Fault (ε : Type) where
  | misfit
  | refused (reason : ε)
deriving DecidableEq

/-- Reads a document as a value of a type. -/
abbrev Decoder (ε α : Type) := Document → Except (Fault ε) α

namespace Decoder

variable {ε α β : Type}

def ofOption (read : Document → Option α) : Decoder ε α := fun d =>
  match read d with
  | some a => .ok a
  | none => .error .misfit

def text : Decoder ε String := ofOption fun
  | .str s => some s
  | _ => none

def bool : Decoder ε Bool := ofOption fun
  | .bool b => some b
  | _ => none

/-- An integer between two bounds; a fractional number is none, whatever its
value. -/
def intIn (least greatest : Int) : Decoder ε Int := ofOption fun
  | .int n => if least ≤ n ∧ n ≤ greatest then some n else none
  | _ => none

def uint64 : Decoder ε UInt64 := fun d =>
  (intIn 0 (UInt64.size - 1) d).map fun n => UInt64.ofNat n.toNat

def uint32 : Decoder ε UInt32 := fun d =>
  (intIn 0 (UInt32.size - 1) d).map fun n => UInt32.ofNat n.toNat

/-- A value kept as it is. -/
def value : Decoder ε Value := ofOption Document.value?

/-- A part that may be written as `null`. -/
def optional (read : Decoder ε α) : Decoder ε (Option α)
  | .null => .ok none
  | d => (read d).map some

/-- An array of parts, read from the first on. -/
def list (read : Decoder ε α) : Decoder ε (List α)
  | .arr items => items.mapM read
  | _ => .error .misfit

/-- The entries of an object, read from the first on. -/
def entries (read : Decoder ε α) :
    List (Option String × Document) → Except (Fault ε) (List (String × α))
  | [] => .ok []
  | (none, _) :: _ => .error .misfit
  | (some key, d) :: fields => do
      let a ← read d
      let rest ← entries read fields
      return (key, a) :: rest

/-- An object with any keys; of two entries with one key the later stays. -/
def map (read : Decoder ε α) : Decoder ε (TextMap α)
  | .obj fields => (entries read fields).map TextMap.ofList
  | _ => .error .misfit

/-- One of a few names, written alone or as the only key of an object whose
value is empty. -/
def oneOf (isEmpty : Document → Bool) (names : List (String × α)) : Decoder ε α :=
  ofOption fun
  | .str s => names.lookup s
  | .obj [(some key, d)] => if isEmpty d then names.lookup key else none
  | _ => none

end Decoder

/-- What stands for nothing in a document that is read directly. -/
def Document.isNull : Document → Bool
  | .null => true
  | _ => false

/-- What stands for nothing in a document that was set aside before it was
read. -/
def Document.isVoid : Document → Bool
  | .null => true
  | .obj [] => true
  | _ => false

/-- The outcome of reading some fields of a record: what they hold, or the
fault that comes first in the text, with its place among the fields. -/
inductive Fields (ε α : Type) where
  | good (value : α)
  | bad (place : Nat) (fault : Fault ε)

namespace Fields

variable {ε α β : Type}

/-- Two outcomes together; of two faults the earlier one stays. -/
def apply : Fields ε (α → β) → Fields ε α → Fields ε β
  | good f, good a => good (f a)
  | good _, bad p e => bad p e
  | bad p e, good _ => bad p e
  | bad p e, bad q e' => if p ≤ q then bad p e else bad q e'

instance : Applicative (Fields ε) where
  pure := good
  seq f a := apply f (a ())

/-- The outcome of a field at a place. -/
def ofExcept (place : Nat) : Except (Fault ε) α → Fields ε α
  | .ok a => good a
  | .error e => bad place e

end Fields

/-- The fields of a record, each with its place, up to the first place where
the record itself is at fault. -/
structure Record where
  known : List (String × Nat × Document)
  unknown : List (String × Nat × Document)
  flaw : Option Nat
  /-- The place behind the last field. -/
  stop : Nat

/-- What a record does with fields that it does not declare. -/
inductive Undeclared where
  | skip
  | reject
  | keep
deriving DecidableEq

namespace Record

variable {ε α β : Type}

/-- Sort fields into declared and other ones. A declared field that is given
twice is a flaw; so are a key that denotes nothing, a rejected field, and a
field that cannot be skipped. -/
def collect (names : List String) (undeclared : Undeclared) (place : Nat)
    (known unknown : List (String × Nat × Document)) :
    List (Option String × Document) → Record
  | [] => ⟨known, unknown, none, place⟩
  | (none, _) :: _ => ⟨known, unknown, some place, place⟩
  | (some key, d) :: fields =>
    if key ∈ names then
      if (known.lookup key).isSome then ⟨known, unknown, some place, place⟩
      else collect names undeclared (place + 1) (known ++ [(key, place, d)]) unknown fields
    else
      match undeclared with
      | .reject => ⟨known, unknown, some place, place⟩
      | .skip =>
        if d.intact then collect names undeclared (place + 1) known unknown fields
        else ⟨known, unknown, some place, place⟩
      | .keep =>
        collect names undeclared (place + 1) known (unknown ++ [(key, place, d)]) fields

/-- A field that has to be there. -/
def required (r : Record) (name : String) (read : Decoder ε α) : Fields ε α :=
  match r.known.lookup name with
  | some (place, d) => .ofExcept place (read d)
  | none => .bad r.stop .misfit

/-- A field with a default. -/
def optionalWith (r : Record) (name : String) (default : α) (read : Decoder ε α) :
    Fields ε α :=
  match r.known.lookup name with
  | some (place, d) => .ofExcept place (read d)
  | none => .good default

/-- A field that may be absent or `null`. -/
def optional (r : Record) (name : String) (read : Decoder ε α) : Fields ε (Option α) :=
  r.optionalWith name none read.optional

/-- The fields that the record does not declare, as values by key. -/
def others (r : Record) : Fields ε (TextMap Value) :=
  let read := r.unknown.foldr
    (fun (key, place, d) rest =>
      (fun v vs => (key, v) :: vs) <$> Fields.ofExcept place (Decoder.value d) <*> rest)
    (pure [])
  TextMap.ofList <$> read

/-- Take the outcome of the fields, unless the record has a flaw before it. -/
def finish (r : Record) (outcome : Fields ε α) : Except (Fault ε) α :=
  match outcome, r.flaw with
  | .good a, none => .ok a
  | .bad _ e, none => .error e
  | .good _, some _ => .error .misfit
  | .bad place e, some flaw => .error (if place < flaw then e else .misfit)

/-- The fields that an array holds by position. More items than there are
fields are a fault behind the last field. -/
def byPosition : List String → List Document → List (Option String × Document)
  | _, [] => []
  | [], _ :: _ => [(none, .broken)]
  | name :: names, d :: ds => (some name, d) :: byPosition names ds

/-- Read a record from its named fields. -/
def ofFields (names : List String) (undeclared : Undeclared)
    (read : Record → Fields ε α) (fields : List (Option String × Document)) :
    Except (Fault ε) α :=
  let r := collect names undeclared 0 [] [] fields
  r.finish (read r)

/-- Read a record from an object or an array. -/
def decode (names : List String) (undeclared : Undeclared) (read : Record → Fields ε α) :
    Decoder ε α
  | .obj fields => ofFields names undeclared read fields
  | .arr items => ofFields names undeclared read (byPosition names items)
  | _ => .error .misfit

/-- Read a record that keeps its other fields from an object. -/
def decodeOpen (names : List String) (read : Record → Fields ε α) : Decoder ε α
  | .obj fields => ofFields names .keep read fields
  | _ => .error .misfit

end Record

/-- Decode a text that holds one document and nothing else. -/
def Reading.decode {ε α : Type} (reading : Reading) (read : Decoder ε α) :
    Except (Fault ε) α := do
  let a ← read reading.document
  if reading.ends then return a else .error .misfit

end SolidityBuild.Json
