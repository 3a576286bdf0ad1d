import Dxil.Module.Budget
import Dxil.Module.EntryPoint
import Dxil.Module.Functions
import Dxil.Module.Interface
import Dxil.Module.Resources

/-!
# Dxil.Parse

From bytes to a shader program.

* `Program.ofBitcode` : the passes over the blocks of a module. Metadata is read by
  `Program.openBitcode`, what it says about the shader by `Opened.prepare`, and function bodies come
  last, in `Prepared.finish`.
* `Program.ofBytes` : a program header and its bitcode.
* `parse` : the program of a source, with everything that was found on the way. Reading goes on
  past most errors to find more of them, but one error is enough to have no program.
-/

namespace Dxil

inductive SourceKind where
  /-- A program by itself. -/
  | program
  /-- A container with the program in one of its chunks. -/
  | container
  deriving DecidableEq, Repr

inductive ParseError where
  | invalidShader
  /-- The container has no program. -/
  | invalidArgument
  /-- A reference between tables leads nowhere, although the tables were checked. -/
  | danglingReference
  deriving DecidableEq, Repr

def ParseError.message : ParseError → String
  | invalidShader => "invalid shader"
  | invalidArgument => "invalid argument"
  | danglingReference => "dangling reference"

/-! ## Modules -/

def checkLengths (bitcode : Bitcode) : Decoder Unit := do
  let header := bitcode.root.header
  let length := bitcode.endPosition - header.start
  reportIf (length ≠ header.length.toNat) (.rootLength length header.length.toNat)
  reportIf (bitcode.endPosition ≠ bitcode.wordCount)
    (.moduleLength bitcode.endPosition bitcode.wordCount)

def valueBudget (root : Block) : Decoder ValueBudget :=
  match ValueBudget.ofModule? root with
  | some budget => pure budget
  | none => do
    reportAtStart .valueCount
    abandon

/-- What is known of a module once its metadata is read. -/
structure Program.Opened where
  version : ShaderVersion
  bitcode : Bitcode
  types : TypeTable
  budget : ValueBudget
  globals : Globals
  tables : List MetadataTable

/-- The passes up to the metadata: type table, symbol table, global values and metadata. -/
def Program.openBitcode (version : ShaderVersion) (bitcode : Bitcode) : Decoder Opened := do
  checkLengths bitcode
  let types ← orReport (TypeTable.decode bitcode.root) (reportAtStart .typeTable)
  let symbols ← orReport (SymbolTable.decode bitcode.root) (reportAtStart .symbolTable)
  let budget ← valueBudget bitcode.root
  let globals ← Globals.decode types symbols bitcode.root
  let tables ← MetadataTable.decodeAll types globals.pool.values bitcode.root
  pure { version, bitcode, types, budget, globals, tables }

/-- What is known of a module before its function bodies are read. -/
structure Program.Prepared where
  globals : Globals
  entryPoint : EntryPoint
  scope : FunctionScope
  /-- Where decoding had come to. -/
  declared : Location

/-- What metadata says about the shader: its entry point and its resources. -/
def Program.Opened.prepare (o : Opened) : Decoder Prepared := do
  let entryPoint ← EntryPoint.decode o.types o.globals.pool.values o.tables o.version.shaderType
  let descriptors ← Descriptor.decodeAll o.types o.globals.pool.values o.tables
  let declared ← here
  let scope : FunctionScope :=
    { types := o.types, descriptors, inputs := entryPoint.inputs, outputs := entryPoint.outputs
      inputParams := entryPoint.inputs.params .input
      outputParams := entryPoint.outputs.params o.version.shaderType.outputRegister
      bound := o.budget.functions.headD 0 }
  pure { globals := o.globals, entryPoint, scope, declared }

def Program.prepare (version : ShaderVersion) (bitcode : Bitcode) : Decoder Prepared := do
  let o ← openBitcode version bitcode
  o.prepare

def Program.assemble (version : ShaderVersion) (q : Prepared) (functions : Functions.State) :
    Decoder Program := do
  let body := functions.body.getD {}
  let location ← here
  let outputs ← q.entryPoint.outputs.declareOutputs location q.scope.outputParams
  let inputs ← q.entryPoint.inputs.declareInputs version.shaderType location q.scope.inputParams
  pure
    { version
      entryPoint := q.entryPoint.name
      instructions :=
        q.globals.temps ++ q.entryPoint.properties.map (Property.declare q.declared) ++
        q.scope.descriptors.map (Descriptor.declare q.declared) ++
        outputs ++ inputs ++ body.instructions ++ [{ opcode := .ret, location }]
      inputs := q.entryPoint.inputs
      outputs := q.entryPoint.outputs
      descriptors := q.scope.descriptors
      constantArrays := functions.pool.arrays.toList
      ssaCount := body.ssaCount
      indexableTempCount := UInt32.ofNat q.globals.temps.length }

def Program.Prepared.finish (version : ShaderVersion) (bitcode : Bitcode) (q : Prepared) :
    Decoder Program := do
  let functions ← orReport (Functions.decode q.scope 0 { pool := q.globals.pool } bitcode.root)
    (reportAtStart .invalidModule)
  assemble version q functions

def Program.ofBitcode (version : ShaderVersion) (bitcode : Bitcode) : Decoder Program := do
  let q ← Program.prepare version bitcode
  q.finish version bitcode

/-! ## Programs -/

def ProgramHeader.shaderVersion (h : ProgramHeader) : ShaderVersion :=
  ⟨.ofNumber h.shaderType, h.major, h.minor⟩

/-- An unknown kind of shader is no error. -/
def checkShaderType : ShaderType → Decoder Unit
  | .unknown number => report (.unknownShaderType number)
  | _ => pure ()

def readBitcode (bytes : List UInt8) : Decoder Bitcode :=
  match Bitcode.ofBytes bytes with
  | .ok bitcode => pure bitcode
  | .error (.invalidInitialAbbreviation id) => reject (.initialAbbreviation id)
  | .error _ => reject .bitcode

/-- The version that a header gives, and the blocks of the bitcode that it locates. -/
def readModule (bytes : List UInt8) : Decoder (ShaderVersion × Bitcode) :=
  match ProgramHeader.locate bytes with
  | .error e => reject (.header e)
  | .ok (header, stream) => do
    let magic ← present (wordAt? stream 0)
    reportIf (magic ≠ bitcodeMagic) (.unknownMagic magic)
    checkShaderType header.shaderVersion.shaderType
    let bitcode ← readBitcode stream
    pure (header.shaderVersion, bitcode)

def Program.ofBytes (bytes : List UInt8) : Decoder Program := do
  let (version, bitcode) ← readModule bytes
  Program.ofBitcode version bitcode

/-! ## Sources -/

structure Parsed where
  program : Except ParseError Program
  /-- In the order reported. -/
  diagnostics : DiagnosticLog

def Progress.log (p : Progress) : DiagnosticLog := p.reports.map Report.toDiagnostic

def Parsed.ofDecoder (x : Decoder Program) (source : String) : Parsed :=
  match x { location := { source } } with
  | .ok program p =>
    { program := if p.failed then .error .invalidShader else .ok program
      diagnostics := p.log }
  | .error (.invalid _) p => { program := .error .invalidShader, diagnostics := p.log }
  | .error .dangling p => { program := .error .danglingReference, diagnostics := p.log }

def parse (kind : SourceKind) (name : String) (bytes : List UInt8) : Parsed :=
  match kind with
  | .program => .ofDecoder (Program.ofBytes bytes) name
  | .container =>
    match extractProgram bytes with
    | .ok chunk => .ofDecoder (Program.ofBytes chunk) name
    | .error e =>
      { program := .error .invalidArgument
        diagnostics := #[(Finding.container e).toDiagnostic { source := name }] }

end Dxil
