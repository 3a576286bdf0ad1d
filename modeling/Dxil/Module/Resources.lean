import Dxil.Module.Metadata

/-!
# Dxil.Module.Resources

The resources that a shader is bound to. Metadata lists them by type; only constant buffers are
supported.

* `RegisterRange.last?` : where a range of registers ends.
* `Descriptor.declare` : the declaration of a constant buffer.
* `Descriptor.decodeAll`
-/

namespace Dxil

/-- The last of `count` registers from `first` on; the largest count means all that there are.
`none` if there is no such register. -/
def RegisterRange.last? (first count : UInt32) : Option UInt32 :=
  if count = 0xffffffff then some 0xffffffff
  else if count = 0 then none
  else if first.toNat + (count.toNat - 1) < UInt32.size then some (first + (count - 1))
  else none

namespace Descriptor

def register (d : Descriptor) : Register :=
  { type := .constBuffer
    data := .float
    indices := [{ offset := d.id }, { offset := d.range.first }, { offset := d.range.last }]
    dimension := .vec4 }

def declare (location : Location) (d : Descriptor) : Instruction :=
  { opcode := .dclConstantBuffer
    location
    declaration := some (.constantBuffer (.ofRegister d.register) d.bufferSize d.range) }

def decodeRange (m : MetadataScope) (id : UInt32) (space first count : Option Nat) :
    Decoder RegisterRange := do
  match ← m.uint space, ← m.uint first, ← m.uint count with
  | some space, some first, some count => do
    let last ← orReject (RegisterRange.last? first count) (.descriptorRange id first count)
    pure { space, first, last }
  | _, _, _ => reject (.descriptorRangeValues id)

/-- The descriptor in a node: id, variable, name, register space, first register, register count,
and what its type adds, which for a constant buffer is the size. -/
def ofNode (m : MetadataScope) (type : DescriptorType) (operands : List (Option Nat)) :
    Decoder Descriptor := do
  match operands with
  | id :: _ :: _ :: space :: first :: count :: rest => do
    let id ← m.requireUint id .descriptorId
    let range ← decodeRange m id space first count
    match type, rest with
    | .cbv, [] => reject (.constantBufferOperands operands.length)
    | .cbv, size :: _ => do
      let bufferSize ← m.requireUint size .constantBufferSize
      pure { type, id, range, bufferSize }
    | _, _ => reject (.descriptorType type)
  | _ => reject (.descriptorOperands operands.length)

def decode (m : MetadataScope) (type : DescriptorType) (slot : Option Nat) :
    Decoder Descriptor := do
  let operands ← orReject (m.node? slot) .descriptorNotNode
  ofNode m type operands

def decodeList (m : MetadataScope) (type : DescriptorType) (slot : Option Nat) :
    Decoder (List Descriptor) :=
  match slot with
  | none => pure []
  | some _ => do
    let entries ← orReject (m.node? slot) (.resourceListNotNode type)
    entries.mapM (decode m type)

def decodeAll (types : TypeTable) (values : Values) (tables : List MetadataTable) :
    Decoder (List Descriptor) :=
  match findNamed? tables "dx.resources" with
  | none => pure []
  | some (table, roots) => do
    let m : MetadataScope := { types, values, table }
    match ← orReject (m.node? roots.head?) .resourcesNotNode with
    | [srvs, uavs, cbvs, samplers] => do
      let srvs ← decodeList m .srv srvs
      let uavs ← decodeList m .uav uavs
      let cbvs ← decodeList m .cbv cbvs
      let samplers ← decodeList m .sampler samplers
      pure (srvs ++ uavs ++ cbvs ++ samplers)
    | lists => reject (.resourcesCount lists.length)

end Descriptor

end Dxil
