import Dxil.Shader.Register

/-!
# Dxil.Shader.Signature

The elements through which a shader takes its inputs and gives its outputs.

* `SignatureElement` : a named vector of components, or an array of them.
* `Signature.params` : the registers of a signature.
-/

namespace Dxil

inductive InterpolationMode where
  | none
  | constant
  | linear
  | linearCentroid
  | linearNoPerspective
  | linearNoPerspectiveCentroid
  | linearSample
  | linearNoPerspectiveSample
  deriving DecidableEq, Repr

def InterpolationMode.ofNat? : Nat → Option InterpolationMode
  | 0 => some none
  | 1 => some constant
  | 2 => some linear
  | 3 => some linearCentroid
  | 4 => some linearNoPerspective
  | 5 => some linearNoPerspectiveCentroid
  | 6 => some linearSample
  | 7 => some linearNoPerspectiveSample
  | _ => Option.none

inductive SysVal where
  | none
  | position
  | clipDistance
  | cullDistance
  | renderTargetArrayIndex
  | viewportArrayIndex
  | vertexId
  | primitiveId
  | instanceId
  | isFrontFace
  | sampleIndex
  | target
  | depth
  | coverage
  | depthGreaterEqual
  | depthLessEqual
  | stencilRef
  deriving DecidableEq, Repr

/-- The system value of a semantic kind; `none` where there is no word for it. -/
def SysVal.ofSemanticKind? : Nat → Option SysVal
  | 0 => some none
  | 1 => some vertexId
  | 2 => some instanceId
  | 3 => some position
  | 4 => some renderTargetArrayIndex
  | 5 => some viewportArrayIndex
  | 6 => some clipDistance
  | 7 => some cullDistance
  | 10 => some primitiveId
  | 12 => some sampleIndex
  | 13 => some isFrontFace
  | 14 => some coverage
  | 16 => some target
  | 17 => some depth
  | 18 => some depthLessEqual
  | 19 => some depthGreaterEqual
  | 20 => some stencilRef
  | _ => Option.none

inductive ComponentType where
  | void
  | uint
  | int
  | float
  | bool
  | double
  | uint64
  deriving DecidableEq, Repr

def ComponentType.dataType : ComponentType → DataType
  | void => .unused
  | uint => .uint
  | int => .int
  | float => .float
  | bool => .bool
  | double => .double
  | uint64 => .uint64

inductive MinPrecision where
  | none
  | float16
  | float10
  | int16
  | uint16
  deriving DecidableEq, Repr

def ComponentType.ofNumber : Nat → ComponentType × MinPrecision
  | 1 => (bool, .none)
  | 2 => (int, .int16)
  | 3 => (uint, .uint16)
  | 4 => (int, .none)
  | 5 => (uint, .none)
  | 6 | 7 => (uint64, .none)
  | 8 | 11 | 12 => (float, .float16)
  | 9 | 13 | 14 => (float, .none)
  | 10 | 15 | 16 => (double, .none)
  | _ => (void, .none)

structure SignatureElement where
  semanticName : String
  semanticIndex : UInt32
  streamIndex : UInt32 := 0
  sysval : SysVal
  componentType : ComponentType
  minPrecision : MinPrecision
  interpolation : InterpolationMode
  /-- The first row. -/
  registerIndex : UInt32
  /-- The number of rows. -/
  registerCount : UInt32
  mask : WriteMask
  usedMask : WriteMask
  deriving DecidableEq, Repr

abbrev Signature := List SignatureElement

namespace SignatureElement

/-- More rows than one are addressed by a row index. -/
def isArray (e : SignatureElement) : Bool := 1 < e.registerCount

/-- Signed and unsigned integers share registers. -/
def dataType (e : SignatureElement) : DataType :=
  match e.componentType.dataType with
  | .int => .uint
  | data => data

/-- The register for element number `i` of a signature. An array element has a row index in front,
which its users set. -/
def register (e : SignatureElement) (type : RegisterType) (i : Nat) : Register :=
  let element : RegisterIndex := { offset := UInt32.ofNat i }
  { type, data := e.dataType
    indices := if e.isArray then [RegisterIndex.zero, element] else [element]
    dimension := .vec4 }

def param (e : SignatureElement) (type : RegisterType) (i : Nat) : DstParam :=
  { register := e.register type i, mask := e.mask }

/-- The register of an element at a row, which only arrays have more than one of. `none` if the
register of an array has no row index. -/
def atRow? (e : SignatureElement) (register : Register) (row : RegisterIndex) : Option Register :=
  if e.isArray then register.setIndex? 0 row else some register

end SignatureElement

def Signature.params (s : Signature) (type : RegisterType) : List DstParam :=
  s.mapIdx fun i e => e.param type i

end Dxil
