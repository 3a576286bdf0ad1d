import Dxil.Module.SignatureElement

/-!
# Dxil.Module.EntryPoint

What metadata says about the function that the shader starts with: its name, its signatures and
its properties.

* `globalFlags` : the shader flags, whose low five bits are stored in another order.
* `Property` : a property that becomes a declaration.
* `EntryPoint.decode`
-/

namespace Dxil

/-- Shader flags from their stored form: of the low five bits, the first moves above the others. -/
def globalFlags (flags : UInt64) : UInt64 :=
  let low := flags &&& 0x1f
  (flags &&& ~~~(0x1f : UInt64)) ||| (low >>> 1) ||| ((low &&& 1) <<< 4)

inductive Property where
  | flags (flags : UInt64)
  | threadGroup (x y z : UInt32)
  deriving DecidableEq, Repr

def Property.declare (location : Location) : Property → Instruction
  | flags f => { opcode := .dclGlobalFlags, location, declaration := some (.globalFlags f) }
  | threadGroup x y z =>
    { opcode := .dclThreadGroup, location, declaration := some (.threadGroupSize x y z) }

namespace Property

/-- Size `i` of a thread group, which is at least 1 and at most `most`. -/
def dimension (m : MetadataScope) (i : Nat) (most : UInt32) (slot : Option Nat) :
    Decoder UInt32 := do
  let size ← m.requireUint slot (.threadGroupNotInteger i)
  if size = 0 ∨ most < size then reject (.threadGroupSize i size) else pure size

def decodeThreadGroup (m : MetadataScope) (type : ShaderType) (slot : Option Nat) :
    Decoder Property := do
  rejectIf (type ≠ .compute) (.threadGroupShader type)
  match ← orReject (m.node? slot) .threadGroupNotNode with
  | [x, y, z] => do
    let x ← dimension m 0 1024 x
    let y ← dimension m 1 1024 y
    let z ← dimension m 2 64 z
    pure (.threadGroup x y z)
  | sizes => reject (.threadGroupCount sizes.length)

/-- The property of a tag and its value; `none` for tags without a meaning here. -/
def decode (m : MetadataScope) (type : ShaderType) (tag : UInt32) (value : Option Nat) :
    Decoder (Option Property) :=
  match tag.toNat with
  | 0 => do
    let flags ← orReject (← m.uint64 value) .globalFlags
    pure (some (.flags (globalFlags flags)))
  | 4 => some <$> decodeThreadGroup m type value
  | _ => do
    report (.propertyUnhandled tag)
    pure none

def decodePairs (m : MetadataScope) (type : ShaderType) :
    List (Option Nat) → Decoder (List Property)
  | tag :: value :: rest => do
    let tag ← m.requireUint tag .propertyTag
    let property ← decode m type tag value
    let properties ← decodePairs m type rest
    pure (property.toList ++ properties)
  | _ => pure []

def decodeAll (m : MetadataScope) (type : ShaderType) (slot : Option Nat) :
    Decoder (List Property) :=
  match slot with
  | none => pure []
  | some _ => do
    let pairs ← orReject (m.node? slot) .propertiesNotNode
    reportIf (pairs.length % 2 ≠ 0) .propertiesOdd
    decodePairs m type pairs

end Property

structure EntryPoint where
  name : String
  inputs : Signature
  outputs : Signature
  properties : List Property
  deriving DecidableEq, Repr

namespace EntryPoint

def functionName (m : MetadataScope) (slot : Option Nat) : Decoder String := do
  let index ← orReject (m.value? slot) .entryPointNotValue
  let decl ← orReject (m.values[index]?.bind Value.function?) .entryPointNotFunction
  pure decl.name

def decodeSignatures (m : MetadataScope) (slot : Option Nat) : Decoder (Signature × Signature) :=
  match slot with
  | none => pure ([], [])
  | some _ => do
    let signatures ← orReject (m.node? slot) .signatureTable
    let inputs ← Signature.decode m (signatures.getD 0 none)
    let outputs ← Signature.decode m (signatures.getD 1 none)
    pure (inputs, outputs)

def checkName (function : String) : Option String → Decoder Unit
  | some name => reportIf (name ≠ function) (.entryPointName function name)
  | none => pure ()

/-- The entry point in a node of five operands or more: function, name, signatures, resources and
properties. -/
def ofNode (m : MetadataScope) (type : ShaderType) (operands : List (Option Nat)) :
    Decoder EntryPoint := do
  match operands with
  | function :: name :: signatures :: _ :: properties :: _ => do
    let function ← functionName m function
    checkName function (m.string? name)
    let (inputs, outputs) ← decodeSignatures m signatures
    let properties ← Property.decodeAll m type properties
    pure { name := function, inputs, outputs, properties }
  | _ => reject .entryPointOperands

def decode (types : TypeTable) (values : Values) (tables : List MetadataTable)
    (type : ShaderType) : Decoder EntryPoint :=
  match findNamed? tables "dx.entryPoints" with
  | none => reject .entryPointMissing
  | some (table, roots) => do
    let m : MetadataScope := { types, values, table }
    let operands ← orReject (m.node? roots.head?) .entryPointMissing
    ofNode m type operands

end EntryPoint

end Dxil
