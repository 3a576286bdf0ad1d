import Dxil.Function.Reference

/-!
# Dxil.Function.Address

Pointers into global variables, which are register arrays.

* `lowerGep` : the address of an element. It takes no instruction: the register gets an index.
* `lowerLoad` : the value at an address.
-/

namespace Dxil

def Register.element (r : Register) (inBounds : Bool) (index : Value) : Decoder Register :=
  present ((r.setIndexCount 2).setIndex? 1 { RegisterIndex.ofAddress index with inBounds })

/-- A constant index has to be one of the array's elements. -/
def checkElement (count : UInt32) (index : Value) : Decoder Unit :=
  match index.constantUint? with
  | some n => if count ≤ n then reject (.gepOutOfBounds n) else pure ()
  | none => pure ()

/-- The address of an element: a flag for being in bounds, the array's type, the array, a zero and
the index. -/
def lowerGep (scope : FunctionScope) (values : Values) (r : Record) : Decoder Lowered := do
  requireOperands r 5
  let inBounds ← operand r 0
  let type ← scope.types.lookup (← operand r 1)
  let (base, i) ← valueAt scope values r none 2
  let register ← requireRegister base
  let (pointee, space) ← requirePointer scope.types base
  rejectIf (1 < register.indices.length) .gepStacked
  reportIf (pointee ≠ type) .gepTypes
  let (zero, i) ← valueAt scope values r none i
  rejectIf (zero.constantUint? ≠ some 0) .gepDereference
  match ← scope.types.typeOf pointee with
  | .array element count => do
    rejectIf (r.operands.length ≤ i) .gepNoIndex
    let (index, i) ← valueAt scope values r none i
    checkElement count index
    rejectIf (i < r.operands.length) .gepMultiDimensional
    let pointer ← scope.types.lookupPointer element space .gepPointerType
    let register ← register.element (inBounds ≠ 0) index
    pure (.value { type := some pointer, kind := .register register })
  | _ => reject .gepNotArray

/-- A load gives the type that it loads in one more operand at times. Returns the position of the
operand after it. -/
def skipLoadType (types : TypeTable) (pointee : TypeId) (r : Record) (i : Nat) : Decoder Nat := do
  if r.operands.length = i + 3 then
    let type ← types.lookup (← operand r i)
    reportIf (type ≠ pointee) .loadTypes
    pure (i + 1)
  else pure i

/-- The number in a register. The operands from `i` on are its alignment and whether it is
volatile. -/
def loadNumber (types : TypeTable) (register : Register) (pointee : TypeId) (r : Record) (i : Nat) :
    Decoder Lowered := do
  let i ← skipLoadType types pointee r i
  let type ← types.typeOf pointee
  rejectIf (!type.isNumeric) .loadNotNumeric
  let alignment := alignmentOf (← operand r i)
  skipOperand r (i + 1)
  let src := SrcParam.ofRegister register
  pure (.operation
    { opcode := .mov
      src := [{ src with register := { register with alignment } }]
      type := some pointee })

def lowerLoad (scope : FunctionScope) (values : Values) (r : Record) : Decoder Lowered := do
  let (pointer, i) ← valueAt scope values r none 0
  let register ← requireRegister pointer
  let (pointee, _) ← requirePointer scope.types pointer
  checkOperands r (i + 2) (i + 3)
  typed (some pointee) (loadNumber scope.types register pointee r i)

end Dxil
