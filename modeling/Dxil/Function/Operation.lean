import Dxil.Module.Value

/-!
# Dxil.Function.Operation

What a record of a function body amounts to.

* `Operation` : an instruction whose result goes to a single-assignment register. The register is
  not part of it; it is chosen when the operation is emitted.
* `Lowered` : an operation, a store, or no instruction at all.
-/

namespace Dxil

/-- Where the result stands among the destinations of an instruction. Beside it there may be one
that is discarded. -/
inductive ResultPlace where
  | only
  | first
  | second
  deriving DecidableEq, Repr

def DstParam.discarded : DstParam := { register := { type := .null, data := .unused }, mask := .x }

def ResultPlace.destinations (result : DstParam) : ResultPlace → List DstParam
  | only => [result]
  | first => [result, .discarded]
  | second => [.discarded, result]

/-- A computation, without the register for its result. -/
structure Operation where
  opcode : Opcode
  flags : UInt32 := 0
  src : List SrcParam
  type : Option TypeId
  components : Nat := 1
  place : ResultPlace := .only
  deriving Repr

namespace Operation

def register (op : Operation) (data : DataType) (ssa : UInt32) : Register :=
  { type := .ssa
    data
    indices := [{ offset := ssa }]
    dimension := if 1 < op.components then .vec4 else .scalar }

def value (op : Operation) (data : DataType) (ssa : UInt32) : Value :=
  { type := op.type, kind := .register (op.register data ssa) }

def instruction (op : Operation) (data : DataType) (ssa : UInt32) (location : Location) :
    Instruction :=
  { opcode := op.opcode
    location
    flags := op.flags
    dst := op.place.destinations
      { register := op.register data ssa, mask := .ofRange 0 op.components }
    src := op.src }

end Operation

inductive Lowered where
  /-- A value that needs no instruction. -/
  | value (value : Value)
  | operation (op : Operation)
  /-- A write to an output. Its record has a value only in so far as it has a type. -/
  | store (dst : DstParam) (src : SrcParam) (type : Option TypeId)
  deriving Repr

/-- What the records of a function body can refer to besides values. -/
structure FunctionScope where
  types : TypeTable
  descriptors : List Descriptor
  inputs : Signature
  outputs : Signature
  inputParams : List DstParam
  outputParams : List DstParam
  /-- References stay below this position. -/
  bound : Nat

end Dxil
