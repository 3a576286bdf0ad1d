import Dxil.Function.Reference

/-!
# Dxil.Function.Intrinsic

Calls of the operations that a shader has beyond arithmetic: inputs, outputs and resources.

* `Intrinsic`, with what it takes and gives.
* `checkArguments` : whether the arguments of a call are of the right kinds.
* `lowerIntrinsic`
-/

namespace Dxil

inductive ArgumentKind where
  | int8
  | int32
  | constantBool
  | constantInteger
  | handle
  | void
  | any
  deriving DecidableEq, Repr

def ArgumentKind.accepts (kind : ArgumentKind) (type : Option Ty) (v : Value) : Bool :=
  match kind, type with
  | int8, some (.int 8) => true
  | int32, some (.int 32) => true
  | constantBool, some (.int 1) => v.isConstant
  | constantInteger, some (.int _) => v.isConstant
  | handle, some type => type.isHandle
  | void, none => true
  | any, _ => true
  | _, _ => false

inductive Intrinsic where
  | loadInput
  | storeOutput
  | createHandle
  | loadConstantBuffer
  deriving DecidableEq, Repr

namespace Intrinsic

def ofNat? : Nat → Option Intrinsic
  | 4 => some loadInput
  | 5 => some storeOutput
  | 57 => some createHandle
  | 59 => some loadConstantBuffer
  | _ => none

def result : Intrinsic → ArgumentKind
  | loadInput => .any
  | storeOutput => .void
  | createHandle => .handle
  | loadConstantBuffer => .any

def arguments : Intrinsic → List ArgumentKind
  | loadInput => [.int32, .int32, .int8, .int32]
  | storeOutput => [.int32, .int32, .int8, .any]
  | createHandle => [.constantInteger, .constantInteger, .int32, .constantBool]
  | loadConstantBuffer => [.handle, .int32]

end Intrinsic

def checkArguments (types : TypeTable) (name : String) :
    (i : Nat) → List ArgumentKind → List Value → Decoder Unit
  | _, [], [] => pure ()
  | _, _ :: _, [] => reject (.intrinsicMissingOperands name)
  | i, [], _ :: _ => reject (.intrinsicOperand i name)
  | i, kind :: kinds, v :: vs => do
    let type ← types.typeOf? v.type
    if (v.isRegister || v.isHandle) && kind.accepts type v then
      checkArguments types name (i + 1) kinds vs
    else reject (.intrinsicOperand i name)

/-- The number that stands for what is no integer constant. -/
def noConstant : UInt32 := 0xffffffff

/-- Whether a handle to an index can be made from a descriptor. Only constant indices are
compared with its range. -/
def Descriptor.matches (d : Descriptor) (type : DescriptorType) (id : UInt32) (index : Value) :
    Bool :=
  d.type = type && d.id = id &&
    match index.constantUint? with
    | some i => d.range.first ≤ i && i ≤ d.range.last
    | none => true

/-- A handle takes no instruction: it is kept for the loads from it. -/
def lowerCreateHandle (scope : FunctionScope) (type : Option TypeId)
    (resource id index nonUniform : Value) : Decoder Lowered := do
  let number := resource.constantUint?.getD noConstant
  let resource ← orReject (DescriptorType.ofNat? number.toNat) (.resourceClass number)
  let id := id.constantUint?.getD noConstant
  if scope.descriptors.any fun d => d.matches resource id index then
    let register := .constantBuffer id (.ofAddress index) (nonUniform.constantUint?.any (· ≠ 0))
    pure (.value { type, kind := .handle register })
  else reject (.resourceNotFound resource id)

/-- A row of a constant buffer: four values, or two of 64 bits. -/
def lowerLoadConstantBuffer (scope : FunctionScope) (type : Option TypeId) (handle row : Value) :
    Decoder Lowered :=
  match handle.kind with
  | .handle register => do
    let register ← present (register.setIndex? 2 (.ofAddress row))
    let scalar ← present (scope.types.scalar type)
    let data := match scalar with
      | some scalar => scalar.dataType
      | none => register.data
    pure (.operation
      { opcode := .mov
        src :=
          [{ register := { register with data }
             swizzle := if data.is64Bit then .ofComponents 0 1 0 0 else .identity }]
        type
        components := match scalar with
          | some scalar => scalar.vectorSize
          | none => vec4Size })
  | _ => reject .resourceHandle

/-- One component of an input: the element, the row in it and the column. -/
def lowerLoadInput (scope : FunctionScope) (type : Option TypeId) (element row column : Value) :
    Decoder Lowered := do
  let i := element.constantUint?.getD noConstant
  let column := column.constantUint?.getD noConstant
  let element ← orReject scope.inputs[i.toNat]? (.inputRow i)
  rejectIf (vec4Size ≤ column.toNat) (.inputColumn column)
  let param ← present scope.inputParams[i.toNat]?
  let register ← present (element.atRow? param.register (.ofAddress row))
  pure (.operation { opcode := .mov, src := [{ register, swizzle := .broadcast column }], type })

/-- A write to one component of an output: the element, the row in it, the column and the value. -/
def lowerStoreOutput (scope : FunctionScope) (type : Option TypeId)
    (element row column value : Value) : Decoder Lowered := do
  let i := element.constantUint?.getD noConstant
  let column := column.constantUint?.getD noConstant
  let element ← orReject scope.outputs[i.toNat]? (.outputRow i)
  rejectIf (vec4Size ≤ column.toNat) (.outputColumn column)
  let source ← orReject value.register? .storeSource
  let param ← present scope.outputParams[i.toNat]?
  let register ← present (element.atRow? param.register (.ofAddress row))
  pure (.store { register, mask := .ofComponent column.toNat } (.ofRegister source) type)

/-- A call of operation number `number`, whose result has type `type`. Unknown operations are not
an error, but give nothing. -/
def lowerIntrinsic (scope : FunctionScope) (number : UInt32) (name : String)
    (type : Option TypeId) (args : List Value) : Decoder Lowered :=
  match Intrinsic.ofNat? number.toNat with
  | none => reject (.intrinsicUnhandled name)
  | some op => do
    checkArguments scope.types name 1 op.arguments args
    match op, args with
    | .loadInput, [element, row, column, _] => lowerLoadInput scope type element row column
    | .storeOutput, [element, row, column, value] =>
      lowerStoreOutput scope type element row column value
    | .createHandle, [resource, id, index, nonUniform] =>
      lowerCreateHandle scope type resource id index nonUniform
    | .loadConstantBuffer, [handle, row] => lowerLoadConstantBuffer scope type handle row
    | _, _ => throw .dangling

end Dxil
