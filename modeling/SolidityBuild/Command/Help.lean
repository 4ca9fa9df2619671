/-!
What the command line says about itself. The terms of a list are set in a
column as wide as the widest of them.
-/

namespace SolidityBuild.Command

/-- What an explanation is about. -/
inductive Topic where
  | program
  | build
  | networks
  | help
deriving DecidableEq

namespace Topic

/-- The commands, in the order in which they are listed. -/
def commands : List Topic := [build, networks, help]

def name : Topic → String
  | program => "steelshards"
  | build => "build"
  | networks => "networks"
  | help => "help"

/-- The command with a name. -/
def ofName? (name : String) : Option Topic := commands.find? (·.name = name)

def summary : Topic → String
  | program => "Build Solidity projects and generate typed TypeScript clients"
  | build => "Resolve, compile and generate TypeScript for all contracts"
  | networks => "List configured networks"
  | help => "Print this message or the help of the given subcommand(s)"

/-- How the command line is written. -/
def usage : Topic → String
  | program => program.name ++ " <COMMAND>"
  | build => program.name ++ " " ++ build.name ++ " [OPTIONS]"
  | networks => program.name ++ " " ++ networks.name ++ " [OPTIONS]"
  | help => program.name ++ " " ++ help.name ++ " [COMMAND]..."

def configTerm : String × String := ("-c, --config <CONFIG>", "Explicit config file")

def noEmitTerm : String × String :=
  ("    --no-emit", "Compile only; do not write JSON or TypeScript files")

def helpTerm : String × String := ("-h, --help", "Print help")

/-- The lists that explain the words of a command line, with their titles. -/
def sections : Topic → List (String × List (String × String))
  | program =>
    [("Commands", commands.map fun t => (t.name, t.summary)), ("Options", [helpTerm])]
  | build => [("Options", [configTerm, noEmitTerm, helpTerm])]
  | networks => [("Options", [configTerm, helpTerm])]
  | help => [("Arguments", [("[COMMAND]...", "Print help for the subcommand(s)")])]

/-- The lines of a list, each term in a column of one width. -/
def termLines (terms : List (String × String)) : List String :=
  let width := (terms.map fun (term, _) => term.length).foldl max 0
  terms.map fun (term, meaning) =>
    "  " ++ term ++ String.ofList (List.replicate (width - term.length) ' ') ++ "  " ++ meaning

/-- The lines of an explanation. -/
def lines (t : Topic) : List String :=
  [t.summary, "", "Usage: " ++ t.usage] ++
    t.sections.flatMap fun (title, terms) => "" :: (title ++ ":") :: termLines terms

end Topic

end SolidityBuild.Command
