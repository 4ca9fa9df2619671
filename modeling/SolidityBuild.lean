import SolidityBuild.Main
import SolidityBuild.Proofs.FileTree
import SolidityBuild.Proofs.Path
import SolidityBuild.Proofs.Path.Stack
import SolidityBuild.Proofs.Source.Ascent
import SolidityBuild.Proofs.Source.Closure
import SolidityBuild.Proofs.Source.Contents
import SolidityBuild.Proofs.Source.Depth
import SolidityBuild.Proofs.Source.Directory
import SolidityBuild.Proofs.Source.Raising
import SolidityBuild.Proofs.Source.Lines
import SolidityBuild.Proofs.Source.Redirect
import SolidityBuild.Proofs.Source.Run
import SolidityBuild.Proofs.Source.Statement
import SolidityBuild.Proofs.Source.Termination
import SolidityBuild.Proofs.Text.Replace
import SolidityBuild.Proofs.TextMap
import SolidityBuild.Proofs.FileTree.Change
import SolidityBuild.Proofs.FileTree.Directories
import SolidityBuild.Proofs.Project.Output
import SolidityBuild.Proofs.Project.Build
import SolidityBuild.Proofs.Project.Emission
import SolidityBuild.Proofs.FileTree.Walk
import SolidityBuild.Proofs.Source.Origin
import SolidityBuild.Proofs.Source.Owner
import SolidityBuild.Proofs.Source.Sharing
import SolidityBuild.Proofs.Source.RootPaths
import SolidityBuild.Proofs.Source.Keys
import SolidityBuild.Proofs.Project.Session
import SolidityBuild.Proofs.Text.Decimal
import SolidityBuild.Proofs.TypeScript.Naming
import SolidityBuild.Proofs.Abi.Codec
import SolidityBuild.Proofs.Abi.Signature
import SolidityBuild.Proofs.TypeScript.Dispatch
import SolidityBuild.Proofs.TypeScript.Scope
import SolidityBuild.Proofs.FileTree.Canonical
import SolidityBuild.Proofs.Project.Redaction
import SolidityBuild.Proofs.Project.Saving
import SolidityBuild.Proofs.Project.Secrecy
import SolidityBuild.Proofs.Compiler.Request
import SolidityBuild.Proofs.Compiler.Result
import SolidityBuild.Proofs.Project.Rebuild
import SolidityBuild.Proofs.Source.Grammar
import SolidityBuild.Proofs.Source.Modules
import SolidityBuild.Proofs.TypeScript.Parameters
import SolidityBuild.Proofs.TypeScript.Aliases
import SolidityBuild.Proofs.TypeScript.ReturnType
import SolidityBuild.Proofs.TypeScript.Arrays
import SolidityBuild.Proofs.Compiler.Excerpt
import SolidityBuild.Proofs.Abi.Grammar
import SolidityBuild.Proofs.TypeScript.Bytecode
import SolidityBuild.Proofs.TypeScript.Normalized
import SolidityBuild.Proofs.TypeScript.Arguments
import SolidityBuild.Proofs.Project.Nearest
import SolidityBuild.Proofs.Project.Networks
import SolidityBuild.Proofs.TypeScript.Spellings
