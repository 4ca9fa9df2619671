import SolidityBuild.Json.Printer
import SolidityBuild.Json.Record
import SolidityBuild.Url.Basic

/-!
Networks: named endpoints, each with the wallet that signs on it. Key material
is read and held, but a marker is written in its place.
-/

namespace SolidityBuild.Project

open Json

/-- Key material. -/
structure Secret where
  exposed : String
deriving DecidableEq

structure Wallet where
  displayName : Option String
  privateKey : Option Secret
  seedPhrase : Option Secret
deriving DecidableEq

structure Network where
  name : String
  rpc : Url
  id : UInt64
  wallet : Option Wallet
deriving DecidableEq

namespace Secret

/-- What is written in place of a secret. -/
def marker : String := "***STEELSHARDS REDACTED SECRET***"

def read {ε : Type} : Decoder ε Secret := fun d => (Decoder.text d).map Secret.mk

def write (_ : Secret) : Value := .str marker

end Secret

namespace Wallet

/-- The name under which the wallet is listed. -/
def label (w : Wallet) : String := w.displayName.getD "wallet"

def read {ε : Type} : Decoder ε Wallet :=
  Record.decode ["displayName", "privateKey", "seedPhrase"] .reject fun r =>
    Wallet.mk <$>
      r.optional "displayName" .text <*>
      r.optional "privateKey" Secret.read <*>
      r.optional "seedPhrase" Secret.read

def write (w : Wallet) : Value :=
  .obj (Value.field? "displayName" .str w.displayName ++
    Value.field? "privateKey" Secret.write w.privateKey ++
    Value.field? "seedPhrase" Secret.write w.seedPhrase)

end Wallet

namespace Network

/-- A URL, brought into normal form. -/
def readUrl {ε : Type} : Decoder ε Url := .ofOption fun
  | .str s => Url.ofText? s
  | _ => none

def read {ε : Type} : Decoder ε Network :=
  Record.decode ["name", "rpc", "networkID", "wallet"] .reject fun r =>
    Network.mk <$>
      r.required "name" .text <*>
      r.required "rpc" readUrl <*>
      r.required "networkID" .uint64 <*>
      r.optional "wallet" Wallet.read

def write (n : Network) : Value :=
  .obj ([("name", .str n.name), ("rpc", .str n.rpc.text), ("networkID", .int n.id.toNat)] ++
    Value.field? "wallet" Wallet.write n.wallet)

end Network

end SolidityBuild.Project
