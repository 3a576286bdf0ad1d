/-!
# Dxil.Shader.Register

Registers and the operands made of them.

* `Register` : a kind of storage, the type of its data, and up to three indices. An index may be
  relative, that is, be read from another register.
* `Swizzle`, `WriteMask` : which components of a vector an operand reads or writes.
* `SrcParam`, `DstParam` : source and destination operands.
-/

namespace Dxil

def vec4Size : Nat := 4

def maxIndices : Nat := 3

inductive RegisterType where
  | temp
  | input
  | output
  | colorOut
  | constBuffer
  /-- A constant of up to 32 bits a component. -/
  | immConst
  | immConst64
  | idxTemp
  | undef
  | ssa
  | null
  /-- Stands where no register is known. -/
  | invalid
  deriving DecidableEq, Repr

inductive DataType where
  | float
  | int
  | uint
  | bool
  | double
  | uint8
  | uint16
  | uint64
  | half
  | unused
  deriving DecidableEq, Repr

def DataType.isInteger : DataType → Bool
  | int | uint | bool | uint8 | uint16 | uint64 => true
  | _ => false

def DataType.is64Bit : DataType → Bool
  | double | uint64 => true
  | _ => false

inductive Dimension where
  | none
  | scalar
  | vec4
  deriving DecidableEq, Repr

/-! ## Components -/

/-- Four component numbers, one byte each, the first lowest. -/
structure Swizzle where
  packed : UInt32
  deriving DecidableEq, Repr

namespace Swizzle

/-- Bits of a number beyond its byte run into the next one. -/
def ofComponents (x y z w : UInt32) : Swizzle := ⟨x ||| y <<< 8 ||| z <<< 16 ||| w <<< 24⟩

def broadcast (component : UInt32) : Swizzle :=
  ofComponents component component component component

def identity : Swizzle := ofComponents 0 1 2 3

def xxxx : Swizzle := broadcast 0

def component (s : Swizzle) (i : Nat) : UInt32 :=
  (s.packed >>> UInt32.ofNat (8 * i)) &&& 0xff

end Swizzle

/-- The components that a destination writes; bit `i` is component `i`. -/
abbrev WriteMask := BitVec 4

namespace WriteMask

def x : WriteMask := 1

def all : WriteMask := 15

/-- One component. Numbers past the last component mean the last. -/
def ofComponent (component : Nat) : WriteMask := BitVec.twoPow 4 (min component 3)

/-- `count` components from `first` on, as far as they exist. -/
def ofRange (first count : Nat) : WriteMask :=
  (BitVec.allOnes 4 <<< min first 4) &&& ~~~(BitVec.allOnes 4 <<< min (first + count) 4)

def componentCount (m : WriteMask) : Nat :=
  (List.range 4).countP fun i => m.getLsbD i

def firstComponent? (m : WriteMask) : Option Nat :=
  (List.range 4).find? fun i => m.getLsbD i

end WriteMask

inductive SrcModifier where
  | none
  | neg
  | abs
  | absNeg
  deriving DecidableEq, Repr

/-! ## Registers -/

/-- The constant that an immediate register holds. -/
inductive Immediate where
  | words (x y z w : UInt32)
  | quads (x y : UInt64)
  deriving DecidableEq, Repr

/-- A source operand over registers `ρ`. -/
structure Source (ρ : Type) where
  register : ρ
  swizzle : Swizzle
  modifier : SrcModifier := .none
  deriving DecidableEq, Repr

/-- A register index over registers `ρ`: a fixed offset, plus what is read from `relative`. -/
structure Index (ρ : Type) where
  offset : UInt32 := 0
  relative : Option (Source ρ) := none
  inBounds : Bool := false
  deriving DecidableEq, Repr

structure Register where
  type : RegisterType
  data : DataType
  indices : List (Index Register) := []
  dimension : Dimension := .scalar
  /-- Meaningful for immediate registers only. -/
  immediate : Immediate := .words 0 0 0 0
  /-- In bytes; 0 if unknown. -/
  alignment : UInt32 := 0
  nonUniform : Bool := false
  deriving Repr

abbrev SrcParam := Source Register

abbrev RegisterIndex := Index Register

def RegisterIndex.zero : RegisterIndex := { offset := 0 }

namespace Register

def ofIndexCount (type : RegisterType) (data : DataType) (count : Nat) : Register :=
  { type, data, indices := List.replicate (min count maxIndices) RegisterIndex.zero }

/-- Stands where no register is known. -/
def unknown : Register := { type := .invalid, data := .unused }

def isConstant (r : Register) : Bool :=
  match r.type with
  | .immConst | .immConst64 => true
  | _ => false

def uintValue? (r : Register) : Option UInt32 :=
  if r.isConstant && r.data.isInteger then
    match r.immediate with
    | .words x _ _ _ => some x
    | .quads x _ => some x.toUInt32
  else none

def uint64Value? (r : Register) : Option UInt64 :=
  if r.isConstant && r.data.isInteger then
    match r.immediate with
    | .words x _ _ _ => some x.toUInt64
    | .quads x _ => some x
  else none

/-- `count` indices, three at the most; the existing ones stay and new ones are zero. -/
def setIndexCount (r : Register) (count : Nat) : Register :=
  let n := min count maxIndices
  { r with indices := (r.indices ++ List.replicate n RegisterIndex.zero).take n }

def setIndex? (r : Register) (i : Nat) (index : RegisterIndex) : Option Register :=
  if i < r.indices.length then some { r with indices := r.indices.set i index } else none

def setOffset (r : Register) (i : Nat) (offset : UInt32) : Register :=
  { r with indices := r.indices.modify i fun index => { index with offset } }

end Register

/-- Read a register: a vector as it is, anything else with its first component everywhere. -/
def SrcParam.ofRegister (r : Register) : SrcParam :=
  { register := r
    swizzle :=
      match r.dimension with
      | .vec4 => .identity
      | _ => .xxxx }

structure DstParam where
  register : Register
  mask : WriteMask
  deriving Repr

end Dxil
