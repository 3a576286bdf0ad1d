/-!
# Dxil.Diagnostic

Diagnostics: a place, a severity, a numbered code and a text.

* `Location` : while a module is decoded, the line is the id of the block and the column the index
  of the record in it.
* `Diagnostic.render` : `name:line:column: Xcccc: text`.
-/

namespace Dxil

def defaultSourceName : String := "<anonymous>"

structure Location where
  source : String
  line : UInt32 := 0
  column : UInt32 := 0
  deriving DecidableEq, Repr

def Location.render (l : Location) : String := s!"{l.source}:{l.line}:{l.column}"

inductive Severity where
  | error
  | warning
  | note
  deriving DecidableEq, Repr

def Severity.letter : Severity → String
  | error => "E"
  | warning => "W"
  | note => "N"

inductive DiagnosticCode where
  | containerSize
  | containerMagic
  | containerVersion
  | containerChunkOffset
  | containerChunkSize
  | containerMissingChunk
  | outOfMemory
  | invalidSize
  | invalidChunkOffset
  | invalidChunkSize
  | invalidBitcode
  | invalidOperandCount
  | invalidTypeTable
  | invalidSymbolTable
  | unsupportedFormat
  | invalidFunctionDeclaration
  | invalidTypeId
  | invalidModule
  | invalidOperand
  | invalidMetadata
  | invalidEntryPoint
  | invalidSignature
  | invalidProperties
  | invalidResources
  | invalidResourceHandle
  | notImplemented
  | unknownMagic
  | unknownShaderType
  | blockLength
  | moduleLength
  | ignoringOperands
  | typeMismatch
  | entryPointMismatch
  | invalidMask
  | invalidOperation
  | unhandledIntrinsic
  | unhandledMetadata
  deriving DecidableEq, Repr

def DiagnosticCode.value : DiagnosticCode → Nat
  | containerSize => 1
  | containerMagic => 2
  | containerVersion => 4
  | containerChunkOffset => 5
  | containerChunkSize => 6
  | containerMissingChunk => 8
  | outOfMemory => 8000
  | invalidSize => 8001
  | invalidChunkOffset => 8002
  | invalidChunkSize => 8003
  | invalidBitcode => 8004
  | invalidOperandCount => 8005
  | invalidTypeTable => 8006
  | invalidSymbolTable => 8007
  | unsupportedFormat => 8008
  | invalidFunctionDeclaration => 8009
  | invalidTypeId => 8010
  | invalidModule => 8011
  | invalidOperand => 8012
  | invalidMetadata => 8014
  | invalidEntryPoint => 8015
  | invalidSignature => 8016
  | invalidProperties => 8017
  | invalidResources => 8018
  | invalidResourceHandle => 8019
  | notImplemented => 8020
  | unknownMagic => 8300
  | unknownShaderType => 8301
  | blockLength => 8302
  | moduleLength => 8303
  | ignoringOperands => 8304
  | typeMismatch => 8305
  | entryPointMismatch => 8306
  | invalidMask => 8307
  | invalidOperation => 8308
  | unhandledIntrinsic => 8309
  | unhandledMetadata => 8310

/-- The value in at least four digits. -/
def DiagnosticCode.digits (c : DiagnosticCode) : String :=
  let ds := Nat.toDigits 10 c.value
  String.ofList (List.replicate (4 - ds.length) '0' ++ ds)

structure Diagnostic where
  location : Location
  severity : Severity
  code : DiagnosticCode
  message : String
  deriving DecidableEq, Repr

def Diagnostic.render (d : Diagnostic) : String :=
  s!"{d.location.render}: {d.severity.letter}{d.code.digits}: {d.message}"

abbrev DiagnosticLog := Array Diagnostic

namespace DiagnosticLog

def hasErrors (log : DiagnosticLog) : Bool := log.any fun d => d.severity = .error

def mentions (log : DiagnosticLog) (code : DiagnosticCode) : Bool := log.any fun d => d.code = code

def render (log : DiagnosticLog) : String :=
  log.foldl (fun text d => text ++ d.render ++ "\n") ""

end DiagnosticLog

end Dxil
