import Dxil.Container
import Dxil.Module.Scalar
import Dxil.ProgramHeader
import Dxil.Shader.Program
import Dxil.Stream.Bitcode

/-!
# Dxil.Module.Finding

Everything that can be said about a module while it is decoded. An error does not always end the
decoding, but it makes the parse fail; a warning does not.

* `Finding` : the causes, grouped by what they are about.
* `Finding.describe` : severity, code and text of each.
-/

namespace Dxil

inductive Finding where
  -- The source
  | container (error : ContainerError)
  | header (error : HeaderError)
  | unknownMagic (magic : UInt32)
  | unknownShaderType (number : UInt32)
  | initialAbbreviation (abbreviation : Nat)
  | bitcode
  -- The module as a whole
  | rootLength (found declared : Nat)
  | moduleLength (found declared : Nat)
  | typeTable
  | symbolTable
  | valueCount
  | invalidModule
  -- Operands of records
  | tooFewOperands (count least : Nat)
  | ignoredOperands (count : Nat)
  | typeId (id : UInt64)
  -- Globals
  | formatVersion (version : UInt64)
  | functionDeclaration
  | globalPointerType (index : Nat) (space : UInt64)
  | globalNotPointer (index : Nat)
  | globalNestedArray (index : Nat)
  | globalNotScalar (index : Nat)
  | globalUninitialised (index : Nat)
  | globalGroupShared
  | globalAddressSpace (space : UInt64)
  | globalInitialiser (index : Nat)
  -- Constants
  | constantUntyped (record : Nat)
  | constantNullArray
  | constantNotInteger (record : Nat)
  | constantNotFloat (record : Nat)
  | constantData
  | constantBoolArray
  | constantArraySize (size given : Nat)
  | constantGepIndices (count : Nat)
  | constantGepBase
  | constantGepNotGlobal
  | constantGepDereference
  | constantGepIndex
  | constantGepOutOfBounds
  | constantGepPointerType
  -- Metadata
  | metadataUnnamed
  | metadataNamedOperand (operand : UInt64) (name : String) (count : Nat)
  | metadataNamedNotNode (name : String)
  | metadataValueIndex (index : UInt64)
  | metadataValueType
  | metadataOperand (operand : UInt64) (count : Nat)
  | metadataSelfReference (slot : Nat)
  -- Entry point
  | entryPointMissing
  | entryPointOperands
  | entryPointNotValue
  | entryPointNotFunction
  | entryPointName (function name : String)
  -- Shader properties
  | propertiesNotNode
  | propertiesOdd
  | propertyTag
  | propertyUnhandled (tag : UInt32)
  | globalFlags
  | threadGroupShader (type : ShaderType)
  | threadGroupNotNode
  | threadGroupCount (count : Nat)
  | threadGroupNotInteger (dimension : Nat)
  | threadGroupSize (dimension : Nat) (size : UInt32)
  -- Resources
  | resourcesNotNode
  | resourcesCount (count : Nat)
  | resourceListNotNode (type : DescriptorType)
  | descriptorNotNode
  | descriptorOperands (count : Nat)
  | descriptorId
  | descriptorRangeValues (id : UInt32)
  | descriptorRange (id first count : UInt32)
  | descriptorType (type : DescriptorType)
  | constantBufferOperands (count : Nat)
  | constantBufferSize
  -- Signatures
  | signatureTable
  | signatureList
  | signatureElement
  | elementOperands (count : Nat)
  | elementExtraOperands (count : Nat)
  | elementValue (operand : Nat)
  | elementId (id : UInt32)
  | elementName
  | elementSemantic (kind : UInt32)
  | semanticIndexList
  | semanticIndexValue (row : Nat)
  | semanticIndexSequence (row : Nat)
  | elementInterpolation (mode : UInt32)
  | elementRows (start count : UInt32)
  | elementColumns (start count : UInt32)
  | elementTagList
  | elementTagsOdd
  | elementTag
  | elementStream (stream : UInt32)
  | elementUsage (mask : UInt32)
  | elementTagUnhandled (tag : UInt32)
  -- Function bodies
  | multipleFunctions
  | definitionMissing
  | functionParameters
  | functionTooShort
  | functionEmpty
  | blockCountMissing
  | functionBranches
  | recordAfterReturn (blockCount : Nat)
  | instructionCode (code : UInt32)
  | returnMissing
  | returnValue
  -- Value references
  | relativeIndex (relative : UInt32)
  | selfReference
  | forwardReference
  | notRegister
  | notPointer
  | notBool
  -- Binary operations
  | binaryOperandClass
  | binaryTypes
  | binaryOperation (code : UInt64) (operands : OperandClass)
  | binaryFlags (flags : UInt64)
  -- Casts
  | castPointer (code : UInt64)
  | castInvalid (code : UInt64) (source target : ScalarShape)
  | castUnsupported (code : UInt64) (source target : ScalarShape)
  -- Comparisons
  | predicateUnknown (code : UInt64)
  | comparisonOperands
  | predicateOperands (code : UInt64)
  | comparisonTypes
  | predicateUnsupported (code : UInt64)
  | comparisonFlags (flags : UInt64)
  | boolTypeMissing
  -- Aggregates and memory
  | extractIndices
  | extractNotAggregate
  | extractOutOfBounds (index : UInt64)
  | extractNested
  | gepStacked
  | gepTypes
  | gepDereference
  | gepNotArray
  | gepNoIndex
  | gepOutOfBounds (index : UInt32)
  | gepMultiDimensional
  | gepPointerType
  | loadTypes
  | loadNotNumeric
  | selectTypes
  -- Calls
  | calleeNotFunction
  | callExtraOperands (count : Nat)
  | callLocal
  | intrinsicIdMissing
  | intrinsicId
  | intrinsicUnhandled (name : String)
  | intrinsicOperand (operand : Nat) (name : String)
  | intrinsicMissingOperands (name : String)
  | resourceClass (number : UInt32)
  | resourceNotFound (type : DescriptorType) (id : UInt32)
  | resourceHandle
  | inputRow (row : UInt32)
  | inputColumn (column : UInt32)
  | outputRow (row : UInt32)
  | outputColumn (column : UInt32)
  | storeSource
  deriving DecidableEq, Repr

namespace Finding

def describe : Finding → Severity × DiagnosticCode × String
  | container e => (.error, e.code, e.message)
  | header e => (.error, e.code, e.message)
  | unknownMagic magic => (.warning, .unknownMagic,
    s!"DXIL bitcode chunk magic number {hexWord magic.toNat} is not the expected {hexWord bitcodeMagic.toNat}.")
  | unknownShaderType number => (.warning, .unknownShaderType,
    s!"Unknown shader type {hex number.toNat}.")
  | initialAbbreviation abbreviation => (.error, .invalidBitcode,
    s!"DXIL bitcode chunk has invalid initial block abbreviation {abbreviation}.")
  | bitcode => (.error, .invalidBitcode, "DXIL bitcode chunk has invalid bitcode.")
  | rootLength found declared => (.warning, .blockLength,
    s!"Root block ends with length {found} but indicated length is {declared}.")
  | moduleLength found declared => (.warning, .moduleLength,
    s!"Module ends with length {found} but indicated length is {declared}.")
  | typeTable => (.error, .invalidTypeTable, "DXIL type table is invalid.")
  | symbolTable => (.error, .invalidSymbolTable, "DXIL value symbol table is invalid.")
  | valueCount => (.error, .invalidModule, "Overflow occurred in the DXIL module value count.")
  | invalidModule => (.error, .invalidModule, "DXIL module is invalid.")
  | tooFewOperands count least => (.error, .invalidOperandCount,
    s!"Invalid operand count {count} (expected at least {least}).")
  | ignoredOperands count => (.warning, .ignoringOperands, s!"Ignoring {count} operands.")
  | typeId id => (.error, .invalidTypeId, s!"DXIL type id {id} is invalid.")
  | formatVersion version => (.error, .unsupportedFormat,
    s!"DXIL format version {hex version.toNat} is unsupported.")
  | functionDeclaration => (.error, .invalidFunctionDeclaration,
    "A DXIL function declaration is invalid.")
  | globalPointerType index space => (.error, .invalidOperand,
    s!"Failed to get a pointer type for global variable {index} in address space {space}.")
  | globalNotPointer index => (.error, .invalidOperand,
    s!"Non-pointer type for global variable {index} is invalid.")
  | globalNestedArray index => (.error, .invalidOperand,
    s!"Global array variable {index} of non-scalar elements is not supported.")
  | globalNotScalar index => (.error, .invalidOperand,
    s!"Global variable {index} of a non-scalar, non-array type is not supported.")
  | globalUninitialised index => (.error, .invalidOperand,
    s!"Constant global variable {index} has no initialiser.")
  | globalGroupShared => (.error, .notImplemented,
    "Thread group shared memory global variables are not supported.")
  | globalAddressSpace space => (.error, .invalidOperand,
    s!"Global variable address space {space} is not supported.")
  | globalInitialiser index => (.error, .invalidOperand,
    s!"Global variable initialiser value index {index} is invalid.")
  | constantUntyped record => (.error, .invalidOperand, s!"Constant record {record} has no type.")
  | constantNullArray => (.error, .notImplemented, "Constant null arrays are not supported.")
  | constantNotInteger record => (.error, .invalidOperand,
    s!"Constant {record} is an integer of a non-integer type.")
  | constantNotFloat record => (.error, .invalidOperand,
    s!"Constant {record} is a float of a non-float type.")
  | constantData => (.error, .invalidOperand, "Constant data must be an array of scalars.")
  | constantBoolArray => (.error, .invalidOperand, "Constant arrays of bool are not supported.")
  | constantArraySize size given => (.error, .invalidOperandCount,
    s!"Invalid array of size {size} initialised with {given} elements.")
  | constantGepIndices count => (.error, .notImplemented,
    s!"Constant GEP expressions with {count} indices are not supported.")
  | constantGepBase => (.error, .invalidOperand, "Constant GEP base value is invalid.")
  | constantGepNotGlobal => (.error, .invalidOperand,
    "Constant GEP base is not a global variable.")
  | constantGepDereference => (.error, .invalidOperand,
    "The pointer dereference index for a constant GEP is not constant zero.")
  | constantGepIndex => (.error, .invalidOperand,
    "Constant GEP element index is not a constant integer.")
  | constantGepOutOfBounds => (.error, .invalidOperand,
    "Constant GEP element index is out of bounds.")
  | constantGepPointerType => (.error, .invalidModule,
    "Module does not define a pointer type for a constant GEP.")
  | metadataUnnamed => (.error, .invalidMetadata, "A named metadata node has no name.")
  | metadataNamedOperand operand name count => (.error, .invalidMetadata,
    s!"Operand {operand} of named metadata node '{name}' exceeds the count {count}.")
  | metadataNamedNotNode name => (.error, .invalidMetadata,
    s!"Named metadata '{name}' has an operand which is not a node.")
  | metadataValueIndex index => (.error, .invalidMetadata,
    s!"Invalid value index {index} in a metadata value.")
  | metadataValueType => (.warning, .typeMismatch, "Type mismatch in metadata value.")
  | metadataOperand operand count => (.error, .invalidMetadata,
    s!"Metadata index {operand} exceeds the count {count}.")
  | metadataSelfReference slot => (.error, .invalidMetadata,
    s!"Metadata node {slot} contains a self-reference.")
  | entryPointMissing => (.error, .invalidEntryPoint,
    "No entry point definition found in the metadata.")
  | entryPointOperands => (.error, .invalidEntryPoint,
    "Entry point metadata node has too few operands.")
  | entryPointNotValue => (.error, .invalidEntryPoint,
    "Entry point definition is not a metadata value.")
  | entryPointNotFunction => (.error, .invalidEntryPoint,
    "Entry point definition does not contain a function definition.")
  | entryPointName function name => (.warning, .entryPointMismatch,
    s!"Entry point function name {function} does not match the name in metadata, {name}.")
  | propertiesNotNode => (.error, .invalidProperties,
    "Shader properties are not a metadata node.")
  | propertiesOdd => (.warning, .ignoringOperands,
    "Ignoring shader property tag/value operands of odd count.")
  | propertyTag => (.error, .invalidProperties, "Shader property tag is not an integer.")
  | propertyUnhandled tag => (.warning, .ignoringOperands,
    s!"Shader property tag {hex tag.toNat} is unhandled.")
  | globalFlags => (.error, .invalidProperties, "Global flags property value is not an integer.")
  | threadGroupShader type => (.error, .invalidProperties,
    s!"Shader of type {type.name} has thread group dimensions.")
  | threadGroupNotNode => (.error, .invalidProperties,
    "Thread group dimension value is not a metadata node.")
  | threadGroupCount count => (.error, .invalidProperties,
    s!"Thread group dimension count {count} is invalid.")
  | threadGroupNotInteger dimension => (.error, .invalidProperties,
    s!"Thread group dimension {dimension} is not an integer.")
  | threadGroupSize dimension size => (.error, .invalidProperties,
    s!"Thread group dimension {dimension} value {size} is invalid.")
  | resourcesNotNode => (.error, .invalidResources, "Resource metadata is not a node.")
  | resourcesCount count => (.error, .invalidResources,
    s!"Resource metadata node has {count} operands instead of 4.")
  | resourceListNotNode type => (.error, .invalidResources,
    s!"Resource list of type {type.name} is not a node.")
  | descriptorNotNode => (.error, .invalidResources, "Resource descriptor is not a node.")
  | descriptorOperands count => (.error, .invalidResources,
    s!"Invalid resource descriptor operand count {count}.")
  | descriptorId => (.error, .invalidResources, "Resource descriptor id is not an integer.")
  | descriptorRangeValues id => (.error, .invalidResources,
    s!"Resource descriptor {id} register range is not an integer triple.")
  | descriptorRange id first count => (.error, .invalidResources,
    s!"Resource descriptor {id} register range {first}, count {count} is invalid.")
  | descriptorType type => (.error, .invalidResources,
    s!"Resource descriptor type {type.number} is unsupported.")
  | constantBufferOperands count => (.error, .invalidResources,
    s!"Invalid CBV descriptor operand count {count}.")
  | constantBufferSize => (.error, .invalidResources, "CBV buffer size is not an integer.")
  | signatureTable => (.error, .invalidSignature, "Signature table is not a metadata node.")
  | signatureList => (.error, .invalidSignature,
    "Signature element list is not a metadata node.")
  | signatureElement => (.error, .invalidSignature, "Signature element is not a metadata node.")
  | elementOperands count => (.error, .invalidSignature,
    s!"Invalid signature element operand count {count}.")
  | elementExtraOperands count => (.warning, .ignoringOperands,
    s!"Ignoring {count} extra operands for a signature element.")
  | elementValue operand => (.error, .invalidSignature,
    s!"Signature element value at index {operand} is not an integer.")
  | elementId id => (.error, .invalidSignature, s!"Signature element id {id} is invalid.")
  | elementName => (.error, .invalidSignature,
    "Signature element name is not a metadata string.")
  | elementSemantic kind => (.error, .invalidSignature, s!"Unhandled semantic kind {kind}.")
  | semanticIndexList => (.error, .invalidSignature,
    "Semantic index list is not a metadata node.")
  | semanticIndexValue row => (.error, .invalidSignature,
    s!"Semantic index at row {row} is not an integer.")
  | semanticIndexSequence row => (.error, .invalidSignature,
    s!"Semantic index list does not form a sequence at row {row}.")
  | elementInterpolation mode => (.error, .invalidSignature,
    s!"Unhandled interpolation mode {mode}.")
  | elementRows start count => (.error, .invalidSignature,
    s!"A signature element starting row {start} with count {count} is invalid.")
  | elementColumns start count => (.error, .invalidSignature,
    s!"A signature element starting column {start} with count {count} is invalid.")
  | elementTagList => (.error, .invalidSignature,
    "Signature element tag list is not a metadata node.")
  | elementTagsOdd => (.warning, .ignoringOperands,
    "Ignoring the last operand of an odd-sized signature element tag list.")
  | elementTag => (.error, .invalidSignature,
    "Signature element tag or value is not an integer.")
  | elementStream stream => (.error, .invalidSignature,
    s!"Output stream index {stream} is invalid.")
  | elementUsage mask => (.warning, .invalidMask, s!"Usage mask {hex mask.toNat} is invalid.")
  | elementTagUnhandled tag => (.warning, .ignoringOperands,
    s!"Ignoring signature element tag {tag}.")
  | multipleFunctions => (.error, .notImplemented, "Multiple functions are not supported yet.")
  | definitionMissing => (.error, .invalidModule,
    "Failed to find a definition to match the function body.")
  | functionParameters => (.error, .notImplemented,
    "Functions with parameters are not supported.")
  | functionTooShort => (.error, .invalidModule,
    "A function block must contain a block count and a return instruction.")
  | functionEmpty => (.error, .invalidModule, "Function contains no blocks.")
  | blockCountMissing => (.error, .invalidModule,
    "Block count declaration not found or invalid.")
  | functionBranches => (.error, .notImplemented, "Branched shaders are not supported yet.")
  | recordAfterReturn blockCount => (.error, .invalidOperand,
    s!"Invalid block count {blockCount}.")
  | instructionCode code => (.error, .notImplemented,
    s!"Instruction code {code} is not supported.")
  | returnMissing => (.error, .invalidModule, "Function contains no RET instruction.")
  | returnValue => (.warning, .ignoringOperands, "Non-void return is not implemented.")
  | relativeIndex relative => (.error, .invalidOperand,
    s!"Invalid value relative index {relative}.")
  | selfReference => (.error, .invalidOperand, "Invalid value self-reference.")
  | forwardReference => (.error, .invalidOperand, "Unsupported value forward reference.")
  | notRegister => (.error, .invalidOperand, "An operand is not a register.")
  | notPointer => (.error, .invalidOperand,
    "A pointer operand of an instruction is not a pointer.")
  | notBool => (.error, .invalidOperand, "An int1 was expected for a condition operand.")
  | binaryOperandClass => (.error, .invalidOperand,
    "An argument to a binary operation is not bool, int16, int32, int64 or floating point.")
  | binaryTypes => (.warning, .typeMismatch, "Type mismatch in binary operation arguments.")
  | binaryOperation code operands => (.error, .invalidOperand,
    s!"Binary operation {hex code.toNat} is invalid for {operands.name} operands.")
  | binaryFlags flags => (.warning, .ignoringOperands,
    s!"Ignoring flags {hex flags.toNat} for a binary operation.")
  | castPointer code => (.error, .invalidOperand,
    s!"Cannot cast between pointer and non-pointer types, code {code}.")
  | castInvalid code source target => (.error, .invalidOperand,
    s!"Cast {code} from {source.name} to {target.name} is invalid.")
  | castUnsupported code source target => (.error, .notImplemented,
    s!"Cast {code} from {source.name} to {target.name} is not implemented.")
  | predicateUnknown code => (.error, .invalidOperand,
    s!"Unhandled comparison predicate {code}.")
  | comparisonOperands => (.error, .invalidOperand,
    "Comparison arguments are not integer or floating point.")
  | predicateOperands code => (.error, .invalidOperand,
    s!"Comparison predicate {code} does not match the operand type.")
  | comparisonTypes => (.warning, .typeMismatch,
    "Type mismatch in comparison operation arguments.")
  | predicateUnsupported code => (.error, .invalidOperand,
    s!"Comparison predicate {code} is not supported.")
  | comparisonFlags flags => (.warning, .ignoringOperands,
    s!"Ignoring flags {hex flags.toNat} for a comparison operation.")
  | boolTypeMissing => (.error, .invalidModule,
    "Module does not define a boolean type for comparison results.")
  | extractIndices => (.error, .notImplemented,
    "Multiple extractval indices are not supported.")
  | extractNotAggregate => (.error, .invalidOperand,
    "Source type of an extractval instruction is not an aggregate.")
  | extractOutOfBounds index => (.error, .invalidOperand,
    s!"Element index {index} for an extractval instruction is out of bounds.")
  | extractNested => (.error, .notImplemented,
    "Extraction from nested aggregates is not supported.")
  | gepStacked => (.error, .notImplemented,
    "A GEP instruction on the result of a previous GEP is unsupported.")
  | gepTypes => (.warning, .typeMismatch, "Type mismatch in GEP operation arguments.")
  | gepDereference => (.error, .invalidOperand,
    "The pointer dereference index for a GEP instruction is not constant zero.")
  | gepNotArray => (.error, .invalidOperand,
    "Source type for index 1 of a GEP instruction is not an array.")
  | gepNoIndex => (.error, .invalidOperandCount, "A GEP instruction has no element index.")
  | gepOutOfBounds index => (.error, .invalidOperand,
    s!"Array index {index} for a GEP instruction is out of bounds.")
  | gepMultiDimensional => (.error, .notImplemented,
    "Multi-dimensional addressing in GEP instructions is not supported.")
  | gepPointerType => (.error, .invalidModule,
    "Module does not define a pointer type for a GEP instruction.")
  | loadTypes => (.warning, .typeMismatch, "Type mismatch in pointer load arguments.")
  | loadNotNumeric => (.error, .invalidOperand,
    "Pointer load of a non-numeric type is not supported.")
  | selectTypes => (.warning, .typeMismatch, "Type mismatch in VSELECT operation arguments.")
  | calleeNotFunction => (.error, .invalidOperand,
    "Function call target value is not a function declaration.")
  | callExtraOperands count => (.warning, .ignoringOperands,
    s!"Ignoring {count} function call operands beyond the parameter list.")
  | callLocal => (.error, .invalidOperand, "Call to a local function is unsupported.")
  | intrinsicIdMissing => (.error, .invalidOperandCount,
    "The id for a dx intrinsic function is missing.")
  | intrinsicId => (.error, .invalidOperand,
    "Expected a constant integer dx intrinsic function id.")
  | intrinsicUnhandled name => (.warning, .unhandledIntrinsic,
    s!"Call to intrinsic function {name} is unhandled.")
  | intrinsicOperand operand name => (.error, .invalidOperand,
    s!"Operand {operand} for call to dx intrinsic function '{name}' is invalid.")
  | intrinsicMissingOperands name => (.error, .invalidOperandCount,
    s!"Call to dx intrinsic function '{name}' has missing operands.")
  | resourceClass number => (.error, .invalidOperand, s!"Invalid resource class {number}.")
  | resourceNotFound type id => (.error, .invalidOperand,
    s!"Descriptor for resource type {hex type.number}, id {hex id.toNat} was not found.")
  | resourceHandle => (.error, .invalidResourceHandle, "A handle parameter is not a handle.")
  | inputRow row => (.error, .invalidOperand, s!"Invalid input row index {row}.")
  | inputColumn column => (.error, .invalidOperand, s!"Invalid input column index {column}.")
  | outputRow row => (.error, .invalidOperand, s!"Invalid output row index {row}.")
  | outputColumn column => (.error, .invalidOperand, s!"Invalid output column index {column}.")
  | storeSource => (.error, .invalidOperand, "Expected store operation source to be a register.")

def severity (f : Finding) : Severity := f.describe.1

def isError (f : Finding) : Bool := f.severity = .error

def code (f : Finding) : DiagnosticCode := f.describe.2.1

def message (f : Finding) : String := f.describe.2.2

def toDiagnostic (f : Finding) (location : Location) : Diagnostic :=
  ⟨location, f.severity, f.code, f.message⟩

end Finding

end Dxil
