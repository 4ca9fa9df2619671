import SolidityBuild.Project.Build

/-!
Sessions: a configuration, the last build, and the network and wallet that are
in use. The wallet is that of the network.
-/

namespace SolidityBuild.Project

open Compiler (Artifact Backend)

structure Session where
  config : Config
  lastBuild : Option Build
  network : Option Network
  signer : Option Wallet

inductive SessionError where
  | noBuild
  | unknownContract (name : String)
  | config (e : ConfigError)
deriving DecidableEq

namespace SessionError

def message : SessionError → String
  | noBuild => "No build available. Please build the project first"
  | unknownContract name => "Contract not found: " ++ name
  | config e => e.message

end SessionError

namespace Session

/-- The session with another network in use, and its wallet. -/
def useNetwork (s : Session) (network : Option Network) : Session :=
  { s with network, signer := network.bind (·.wallet) }

/-- Start on the first network. -/
def start (c : Config) : Session :=
  useNetwork ⟨c, none, none, none⟩ c.defaultNetwork?

/-- Take over another configuration. The network in use is kept if there still
is one of its name; otherwise it is the first one. -/
def reload (s : Session) (c : Config) : Session :=
  let kept := s.network.bind fun n => (c.network n.name).toOption
  { s with config := c }.useNetwork (kept <|> c.defaultNetwork?)

/-- Use the network with a name. -/
def select (s : Session) (name : String) : Except SessionError Session :=
  match s.config.network name with
  | .ok network => .ok (s.useNetwork (some network))
  | .error e => .error (.config e)

/-- Build the project and remember the build; a build that fails leaves none to
remember. -/
def build (s : Session) (backend : Backend) (noEmit : Bool) (t : FileTree) :
    Session × BuildRun :=
  let run := Project.build s.config backend noEmit t
  ({ s with lastBuild := run.outcome.toOption }, run)

/-- The artifact of a contract of the last build. -/
def artifact (s : Session) (name : String) : Except SessionError Artifact :=
  match s.lastBuild with
  | none => .error .noBuild
  | some b =>
    match b.contract? name with
    | some artifact => .ok artifact
    | none => .error (.unknownContract name)

end Session

end SolidityBuild.Project
