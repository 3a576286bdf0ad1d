import Dxil.Function.Reference

/-!
# Dxil.Function.Arithmetic

Binary operations.

* `BinaryOp.opcode?` : the operation on a class of operands.
* `BinaryOp.operation` : there is no subtraction, which adds the negated operand; multiplication
  and division have two results, of which one is discarded.
* `lowerBinary` : a record of the two operands, the code and optional flags.
-/

namespace Dxil

/-- Floating point shares the codes of signed division and remainder. -/
inductive BinaryOp where
  | add
  | sub
  | mul
  | uDiv
  | sDiv
  | uRem
  | sRem
  | shl
  | lShr
  | aShr
  | and
  | or
  | xor
  deriving DecidableEq, Repr

namespace BinaryOp

def ofNat? : Nat → Option BinaryOp
  | 0 => some add
  | 1 => some sub
  | 2 => some mul
  | 3 => some uDiv
  | 4 => some sDiv
  | 5 => some uRem
  | 6 => some sRem
  | 7 => some shl
  | 8 => some lShr
  | 9 => some aShr
  | 10 => some and
  | 11 => some or
  | 12 => some xor
  | _ => none

def intOpcode : BinaryOp → Opcode
  | add | sub => .iAdd
  | mul => .iMul
  | uDiv | uRem => .uDiv
  | sDiv | sRem => .iDiv
  | shl => .iShl
  | lShr => .uShr
  | aShr => .iShr
  | and => .and
  | or => .or
  | xor => .xor

def boolOpcode? : BinaryOp → Option Opcode
  | and => some .and
  | or => some .or
  | xor => some .xor
  | _ => none

def floatOpcode? : BinaryOp → Option Opcode
  | add | sub => some .add
  | mul => some .mul
  | sDiv => some .div
  | sRem => some .frem
  | _ => none

def doubleOpcode? : BinaryOp → Option Opcode
  | add | sub => some .dAdd
  | mul => some .dMul
  | sDiv => some .dDiv
  | _ => none

def opcode? (op : BinaryOp) : OperandClass → Option Opcode
  | .bool => op.boolOpcode?
  | .int => some op.intOpcode
  | .float => op.floatOpcode?
  | .double => op.doubleOpcode?

end BinaryOp

/-! ## Flags -/

/-- The flag of a float operation that may be rearranged. -/
def rearrangeFlag : UInt64 := 1

def floatFlags : UInt64 := 0x1f

/-- The flags of integer operations that must not wrap round. -/
def wrapFlags : UInt64 := 3

/-- The flag of divisions and right shifts that leave no rest. -/
def exactFlag : UInt64 := 1

/-- Float operations with flags are precise unless they may be rearranged. -/
def floatPrecision (flags : UInt64) : UInt32 :=
  if flags ≠ 0 ∧ flags &&& rearrangeFlag = 0 then preciseX else 0

namespace Opcode

def isFloatArithmetic : Opcode → Bool
  | add | mul | div | frem | dAdd | dMul | dDiv => true
  | _ => false

def knownFlags : Opcode → UInt64
  | add | mul | div | frem | dAdd | dMul | dDiv => floatFlags
  | iAdd | iMul | iShl => wrapFlags
  | iShr | uShr | iDiv | uDiv => exactFlag
  | _ => 0

end Opcode

/-! ## Lowering -/

namespace BinaryOp

def isRemainder : BinaryOp → Bool
  | uRem | sRem => true
  | _ => false

/-- A product has its low half second; a division has the quotient first and the remainder
second. -/
def place (op : BinaryOp) : Opcode → ResultPlace
  | .iMul => .second
  | .uDiv | .iDiv => if op.isRemainder then .second else .first
  | _ => .only

def operation (op : BinaryOp) (opcode : Opcode) (flags : UInt64) (a b : Value) : Operation :=
  { opcode
    flags := if opcode.isFloatArithmetic then floatPrecision flags else 0
    src := [a.source, if op = .sub then { b.source with modifier := .neg } else b.source]
    type := a.type
    place := op.place opcode }

end BinaryOp

def calculate (types : TypeTable) (a b : Value) (code flags : UInt64) : Decoder Lowered := do
  let type ← types.typeOf? a.type
  let operands ← orReject (type.bind Ty.operandClass?) .binaryOperandClass
  reportIf (a.type ≠ b.type) .binaryTypes
  match BinaryOp.ofNat? code.toNat with
  | none => reject (.binaryOperation code operands)
  | some op =>
    let opcode ← orReject (op.opcode? operands) (.binaryOperation code operands)
    let ignored := flags &&& ~~~opcode.knownFlags
    reportIf (ignored ≠ 0) (.binaryFlags ignored)
    pure (.operation (op.operation opcode flags a b))

def lowerBinary (scope : FunctionScope) (values : Values) (r : Record) : Decoder Lowered := do
  let (a, i) ← valueAt scope values r none 0
  typed a.type do
    let (b, i) ← valueAt scope values r a.type i
    checkOperands r (i + 1) (i + 2)
    calculate scope.types a b (← operand r i) (r.operands.getD (i + 1) 0)

end Dxil
