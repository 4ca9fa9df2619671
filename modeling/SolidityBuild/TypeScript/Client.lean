import SolidityBuild.Abi.Codec
import SolidityBuild.Json.Printer
import SolidityBuild.TypeScript.Bytecode
import SolidityBuild.TypeScript.Mapping
import SolidityBuild.TypeScript.Naming

/-!
Typed clients: a class for a contract, with one method for each function of its
interface. `Client.ofAbi` decides the names, types and calls; `Client.render`
lays them out.
-/

namespace SolidityBuild.TypeScript

open Abi (Field)

/-- Members of the class that methods must not hide. -/
def classMembers : List String := ["address", "connect", "constructor", "underlying"]

/-- Members of the contract object under the class. Functions with these names
are reached through their signatures only. -/
def contractMembers : List String :=
  ["address", "attach", "callStatic", "connect", "constructor", "deployTransaction",
    "deployed", "emit", "estimateGas", "fallback", "filters", "functions", "interface",
    "listenerCount", "listeners", "off", "on", "once", "populateTransaction", "provider",
    "queryFilter", "removeAllListeners", "removeListener", "resolvedAddress", "signer"]

/-- Names that no parameter may have. -/
def reservedNames : List String :=
  ["break", "case", "catch", "class", "const", "continue", "debugger", "default", "delete",
    "do", "else", "enum", "export", "extends", "false", "finally", "for", "function", "if",
    "import", "in", "instanceof", "new", "null", "return", "super", "switch", "this", "throw",
    "true", "try", "typeof", "var", "void", "while", "with", "overrides", "signer"]

/-- The name of the parameter at a position: a parameter without a name is
named for its position, a reserved name gets an underscore. -/
def parameterName (position : Nat) (name : String) : String :=
  if name = "" then "arg" ++ Text.Decimal.print position
  else if name ∈ reservedNames then name ++ "_"
  else name

/-- The type of a decoded value with a base type. -/
def returnTypeOfName (typeName : String) : String :=
  let name := BaseType.normalize typeName
  if ((BaseType.named? name).map BaseType.isInteger).getD false then "bigint"
  else if name = "address" ∨ name = "string" then "string"
  else if name = "bool" then "boolean"
  else if ['b', 'y', 't', 'e', 's'].isPrefixOf name.toList then "string"
  else name

/-- Put a pair of brackets behind an expression for each dimension. -/
def plainArrayOf (expr : String) (dims : List Abi.Dim) : String :=
  dims.foldl (fun expr _ => expr ++ "[]") expr

mutual

/-- The type of a decoded return value. -/
def returnType : Field → String
  | .regular _ typeName dims => plainArrayOf (returnTypeOfName typeName) dims
  | .tuple _ components dims =>
    plainArrayOf ("[" ++ String.intercalate ", " (returnTypes components) ++ "]") dims

def returnTypes : List Field → List String
  | [] => []
  | f :: fs => returnType f :: returnTypes fs

end

/-- The type of what a function returns; `none` if that is nothing. -/
def outputsType? : List Field → Option String
  | [] => none
  | [single] => some (returnType single)
  | many => some ("[" ++ String.intercalate ", " (returnTypes many) ++ "]")

/-- The value passed for an argument of a base type. -/
def wireArgOfName (typeName expr : String) : String :=
  let name := BaseType.normalize typeName
  if ((BaseType.named? name).map BaseType.isInteger).getD false then
    "ethers.BigNumber.from(" ++ expr ++ ")"
  else if name = "string" ∨ name = "address" then expr
  else expr ++ " /* " ++ typeName ++ " */"

mutual

/-- The value passed to the contract for an argument. Tuples are taken apart by
position. Arrays are not converted: an empty array is passed for them. -/
def wireArg (expr : String) : Field → String
  | .regular _ typeName dims =>
    if dims.isEmpty then wireArgOfName typeName expr else "[]"
  | .tuple _ components dims =>
    if dims.isEmpty then "[" ++ String.intercalate ", " (wireArgs expr 0 components) ++ "]"
    else "[]"

/-- The values for the components from a position on. -/
def wireArgs (expr : String) (position : Nat) : List Field → List String
  | [] => []
  | f :: fs =>
    wireArg (expr ++ "[" ++ Text.Decimal.print position ++ "]") f :: wireArgs expr (position + 1) fs

end

/-- A parameter of a method, with the value passed on for it. -/
structure Parameter where
  name : String
  type : String
  argument : String
deriving DecidableEq

namespace Parameter

def ofField (m : Mapping) (position : Nat) (f : Field) : Parameter :=
  let name := parameterName position f.name
  ⟨name, m.typeOf f, wireArg name f⟩

def ofFields (m : Mapping) (inputs : List Field) : List Parameter :=
  inputs.mapIdx (ofField m)

end Parameter

/-- What a method does with the answer of the contract. -/
inductive Call where
  /-- Decode it and return it. -/
  | decode
  /-- Wait for it. -/
  | await
  /-- Return the transaction. -/
  | send
deriving DecidableEq

structure Method where
  name : String
  parameters : List Parameter
  returnType : String
  /-- How the function is selected on the contract object. -/
  target : String
  call : Call
deriving DecidableEq

namespace Method

/-- The method for a function. A function that shares its name, or whose name
is taken on the contract object, is selected by its signature. -/
def ofFunction (m : Mapping) (f : Abi.Function) (name : String) (shared : Bool) : Method :=
  let (returnType, call) :=
    if f.mutability.isReadOnly then
      match outputsType? f.outputs with
      | some type => (type, Call.decode)
      | none => ("void", .await)
    else ("ethers.providers.TransactionResponse", .send)
  { name
    parameters := Parameter.ofFields m f.inputs
    returnType
    target :=
      if shared ∨ f.name ∈ contractMembers then "[\"" ++ f.signature ++ "\"]" else "." ++ f.name
    call }

end Method

structure Client where
  name : String
  /-- The interface, as JSON text. -/
  abi : String
  bytecode : String
  /-- The parameters of the constructor. -/
  deploy : List Parameter
  methods : List Method

namespace Client

/-- The methods for the functions of an interface, under names of their own. -/
def methodsOf (m : Mapping) (functions : List Abi.Function) : List Method :=
  let names := (Naming.uniqueAll classMembers (functions.map (·.name))).1
  (functions.zip names).map fun (f, name) =>
    .ofFunction m f name (1 < (functions.filter (·.name = f.name)).length)

/-- The client for a contract. -/
def ofAbi (m : Mapping) (name : String) (abi : Abi) (bytecode : String) : Client where
  name
  abi := (Abi.write abi).compact
  bytecode := Bytecode.literal bytecode
  deploy := (abi.constructor?.map fun c => Parameter.ofFields m c.inputs).getD []
  methods := methodsOf m abi.functions

/-! ## Layout -/

def header : List String :=
  ["// Steelshards Generated Code",
    "// Edits made in this file will be reverted when you compile your contract,",
    "// unless you remove the TypeScript code generation option in outputs section",
    "",
    "import * as ethers from \"ethers\";",
    ""]

/-- The function that turns answers into values of the return types. -/
def mapOutput : List String :=
  ["function mapOutput(v: any): any \x7b",
    "    if (v instanceof ethers.BigNumber) return v.toBigInt();",
    "    if (typeof v == \"number\") return BigInt(v);",
    "    if (v instanceof Array) return v.map(mapOutput);",
    "    return v;",
    "\x7d",
    ""]

def parameterLines (parameters : List Parameter) : List String :=
  parameters.map fun p => "        " ++ p.name ++ ": " ++ p.type ++ ","

def argumentLines (parameters : List Parameter) : List String :=
  parameters.map fun p => "            " ++ p.argument ++ ","

def constructorLines : List String :=
  ["    readonly underlying: ethers.Contract;",
    "",
    "    get address(): string \x7b",
    "        return this.underlying.address;",
    "    \x7d",
    "",
    "    constructor(address: string, providerOrSigner?: ethers.providers.Provider | ethers.Signer);",
    "    constructor(underlying: ethers.Contract);",
    "    constructor(addressOrContract: string | ethers.Contract, providerOrSigner?: ethers.providers.Provider | ethers.Signer) \x7b",
    "        if (typeof addressOrContract == \"string\") \x7b",
    "            this.underlying = new ethers.Contract(addressOrContract, ABI, providerOrSigner);",
    "        \x7d else \x7b",
    "            this.underlying = addressOrContract;",
    "        \x7d",
    "    \x7d",
    ""]

def deployLines (name : String) (parameters : List Parameter) : List String :=
  ["    static async deploy("] ++ parameterLines parameters ++
  ["        signer?: ethers.Signer",
    "    ): Promise<" ++ name ++ "> \x7b",
    "        const factory = new ethers.ContractFactory(ABI, BYTECODE, signer);",
    "        const underlying = await factory.deploy("] ++
  argumentLines parameters ++
  ["        );",
    "        await underlying.deployed();",
    "        return new " ++ name ++ "(underlying);",
    "    \x7d",
    ""]

def connectLines (name : String) : List String :=
  ["    connect(providerOrSigner: ethers.providers.Provider | ethers.Signer): " ++ name ++ " \x7b",
    "        return new " ++ name ++ "(this.underlying.connect(providerOrSigner));",
    "    \x7d"]

/-- The words in front of a call. -/
def callWords : Call → String
  | .decode => "const result = await"
  | .await => "await"
  | .send => "return await"

def methodLines (m : Method) : List String :=
  ["", "    async " ++ m.name ++ "("] ++ parameterLines m.parameters ++
  ["        overrides?: ethers.Overrides",
    "    ): Promise<" ++ m.returnType ++ "> \x7b",
    "        " ++ callWords m.call ++ " this.underlying" ++ m.target ++ "("] ++
  argumentLines m.parameters ++
  ["            ...(overrides ? [overrides] : [])",
    "        );"] ++
  (if m.call = .decode then ["        return mapOutput(result);"] else []) ++
  ["    \x7d"]

/-- The lines of the source text. -/
def lines (c : Client) : List String :=
  header ++
  ["const ABI = " ++ c.abi ++ ";", "const BYTECODE = " ++ c.bytecode ++ ";", ""] ++
  mapOutput ++
  ["export class " ++ c.name ++ " \x7b", ""] ++
  constructorLines ++
  deployLines c.name c.deploy ++
  connectLines c.name ++
  c.methods.flatMap methodLines ++
  ["\x7d"]

/-- The source text of a client. -/
def render (c : Client) : String := String.join (c.lines.map (· ++ "\n"))

end Client

end SolidityBuild.TypeScript
