import Dxil.Function.Reference

/-!
# Dxil.Function.Cast

Casts between scalar types and between pointer types.

* `CastOp.plan` : what a cast between two scalar types takes. Integers of 16 bits are kept in
  32-bit registers, so a cast between the two widths takes nothing.
* `lowerCast` : a record of the value, the type and the code.
-/

namespace Dxil

inductive CastOp where
  | trunc
  | zExt
  | sExt
  | fpToUi
  | fpToSi
  | uiToFp
  | siToFp
  | fpTrunc
  | fpExt
  | ptrToInt
  | intToPtr
  | bitcast
  | addrSpaceCast
  deriving DecidableEq, Repr

inductive CastPlan where
  /-- The result is the source register. -/
  | keep
  | convert (opcode : Opcode)
  | invalid
  | unsupported
  deriving DecidableEq, Repr

namespace CastOp

def ofNat? : Nat → Option CastOp
  | 0 => some trunc
  | 1 => some zExt
  | 2 => some sExt
  | 3 => some fpToUi
  | 4 => some fpToSi
  | 5 => some uiToFp
  | 6 => some siToFp
  | 7 => some fpTrunc
  | 8 => some fpExt
  | 9 => some ptrToInt
  | 10 => some intToPtr
  | 11 => some bitcast
  | 12 => some addrSpaceCast
  | _ => none

def opcode? : CastOp → (source target : ScalarShape) → Option Opcode
  | trunc, .int s, .int t => if t ≤ s then some .uToU else none
  | zExt, .int s, .int t => if s ≤ t then some .uToU else none
  | sExt, .int s, .int t => if s ≤ t then some .iToI else none
  | fpToUi, .float s, .int _ => some (if s = 64 then .dToU else .fToU)
  | fpToSi, .float s, .int _ => some (if s = 64 then .dToI else .fToI)
  | uiToFp, .int _, .float t => some (if t = 64 then .uToD else .uToF)
  | siToFp, .int _, .float t => some (if t = 64 then .iToD else .iToF)
  | fpTrunc, .float s, .float t => if t ≤ s then some .dToF else none
  | fpExt, .float s, .float t => if s ≤ t then some .fToD else none
  | bitcast, .other, _ => none
  | bitcast, _, .other => none
  | bitcast, s, t => if s.width = t.width then some .mov else none
  | _, _, _ => none

/-- Whether the source register already holds the result. -/
def keeps : CastOp → (source target : ScalarShape) → Bool
  | trunc, .int s, .int t => s = t || (s = 32 && t = 16)
  | zExt, .int s, .int t => s = t || (s = 16 && t = 32)
  | sExt, .int s, .int t => s = t || (s = 16 && t = 32)
  | fpTrunc, .float s, .float t => s = t
  | fpExt, .float s, .float t => s = t
  | _, _, _ => false

/-- Half floats can be reinterpreted, but not converted. -/
def convertsHalf (op : CastOp) (source target : ScalarShape) : Bool :=
  op ≠ bitcast && (source = .float 16 || target = .float 16)

def plan (op : CastOp) (source target : ScalarShape) : CastPlan :=
  match op.opcode? source target with
  | none => .invalid
  | some opcode =>
    if source = .int 8 ∨ target = .int 8 then .unsupported
    else if op.keeps source target then .keep
    else if op.convertsHalf source target then .unsupported
    else .convert opcode

end CastOp

/-- A register seen as another type. Values of 16 bits keep the type that they are stored as. -/
def Register.reinterpret (r : Register) (target : Ty) : Register :=
  if target.shape.width = 16 then r else { r with data := target.dataType }

/-- The source of a conversion. What is only moved is read as the type that it has. -/
def castSource (r : Register) (source : Ty) (opcode : Opcode) : SrcParam :=
  let src := SrcParam.ofRegister r
  if opcode = .mov then { src with register := { r with data := source.dataType } } else src

def castScalar (register : Register) (source target : Ty) (id : TypeId) (code : UInt64) :
    Decoder Lowered :=
  let plan := match CastOp.ofNat? code.toNat with
    | some op => op.plan source.shape target.shape
    | none => .invalid
  match plan with
  | .keep => pure (.value { type := some id, kind := .register (register.reinterpret target) })
  | .convert opcode =>
    pure (.operation { opcode, src := [castSource register source opcode], type := some id })
  | .invalid => reject (.castInvalid code source.shape target.shape)
  | .unsupported => reject (.castUnsupported code source.shape target.shape)

/-- The cast with a code of a value to a type. Pointers are cast by taking another type. -/
def castTo (types : TypeTable) (v : Value) (id : TypeId) (code : UInt64) : Decoder Lowered := do
  let register ← requireRegister v
  match ← types.typeOf? v.type with
  | none => abandon
  | some source => do
    let target ← types.typeOf id
    if source.isPointer && target.isPointer then
      pure (.value { type := some id, kind := v.kind })
    else if source.isPointer || target.isPointer then reject (.castPointer code)
    else castScalar register source target id code

def lowerCast (scope : FunctionScope) (values : Values) (r : Record) : Decoder Lowered := do
  let (v, i) ← valueAt scope values r none 0
  checkOperands r (i + 2) (i + 2)
  let id ← scope.types.lookup (← operand r i)
  let code ← operand r (i + 1)
  typed (some id) (castTo scope.types v id code)

end Dxil
