import Dxil.Diagnostic
import Dxil.Shader.Opcode
import Dxil.Shader.Signature
import Dxil.Shader.Version

/-!
# Dxil.Shader.Program

A shader as a list of instructions: declarations, then the body, then a return.

* `Instruction`, with a `Declaration` where it declares something.
* `Descriptor` : a range of registers bound to resources.
* `ConstantArray` : data that initialises an indexable register array.
* `Program`.
-/

namespace Dxil

/-! ## Resources -/

inductive DescriptorType where
  | srv
  | uav
  | cbv
  | sampler
  deriving DecidableEq, Repr

namespace DescriptorType

def number : DescriptorType → Nat
  | srv => 0
  | uav => 1
  | cbv => 2
  | sampler => 3

def ofNat? : Nat → Option DescriptorType
  | 0 => some srv
  | 1 => some uav
  | 2 => some cbv
  | 3 => some sampler
  | _ => none

def name : DescriptorType → String
  | srv => "Srv"
  | uav => "Uav"
  | cbv => "Cbv"
  | sampler => "Sampler"

end DescriptorType

/-- The registers from `first` to `last` of a register space. -/
structure RegisterRange where
  space : UInt32
  first : UInt32
  last : UInt32
  deriving DecidableEq, Repr

structure Descriptor where
  type : DescriptorType
  id : UInt32
  range : RegisterRange
  bufferSize : UInt32
  deriving DecidableEq, Repr

/-! ## Constant data -/

inductive ArrayData where
  | words (values : List UInt32)
  | quads (values : List UInt64)
  deriving DecidableEq, Repr

structure ConstantArray where
  register : UInt32
  dataType : DataType
  componentCount : UInt32
  elementCount : UInt32
  data : ArrayData
  deriving DecidableEq, Repr

/-! ## Instructions -/

structure IndexableTemp where
  register : UInt32
  size : UInt32
  /-- In bytes; 0 if unknown. -/
  alignment : UInt32
  dataType : DataType
  componentCount : UInt32
  hasFunctionScope : Bool
  /-- Position of the initial data among the program's constant arrays. -/
  initialiser : Option Nat
  deriving DecidableEq, Repr

inductive Declaration where
  | globalFlags (flags : UInt64)
  | threadGroupSize (x y z : UInt32)
  | constantBuffer (src : SrcParam) (size : UInt32) (range : RegisterRange)
  | indexableTemp (temp : IndexableTemp)
  | register (dst : DstParam) (interpolation : Option InterpolationMode)
  | registerSemantic (dst : DstParam) (sysval : SysVal) (interpolation : Option InterpolationMode)
  deriving Repr

structure Instruction where
  opcode : Opcode
  location : Location
  flags : UInt32 := 0
  dst : List DstParam := []
  src : List SrcParam := []
  declaration : Option Declaration := none
  deriving Repr

/-- The flag of an instruction whose first component must be computed as written. -/
def preciseX : UInt32 := 0x100

structure Program where
  version : ShaderVersion
  entryPoint : String
  instructions : List Instruction
  inputs : Signature
  outputs : Signature
  descriptors : List Descriptor
  constantArrays : List ConstantArray
  /-- Single-assignment registers used. -/
  ssaCount : UInt32
  indexableTempCount : UInt32
  deriving Repr

end Dxil
