import Dxil.Function.Reference

/-!
# Dxil.Function.Selection

Records that pick one of several values.

* `lowerExtract` : a member of an aggregate.
* `lowerSelect` : one of two values, by a condition.
-/

namespace Dxil

/-- A member of an aggregate in a register: the aggregate and the member's number. Members that are
aggregates again cannot be taken out. -/
def lowerExtract (scope : FunctionScope) (values : Values) (r : Record) : Decoder Lowered := do
  let (aggregate, i) ← valueAt scope values r none 0
  requireOperands r (i + 1)
  let register ← requireRegister aggregate
  rejectIf (i + 1 < r.operands.length) .extractIndices
  match (← scope.types.typeOf? aggregate.type).filter Ty.isAggregate with
  | none => reject .extractNotAggregate
  | some type => do
    let index ← operand r i
    let member ← orReject (type.member? index.toNat) (.extractOutOfBounds index)
    rejectIf ((← scope.types.typeOf member).isAggregate) .extractNested
    pure (.operation
      { opcode := .mov
        src := [{ register, swizzle := .broadcast index.toUInt32 }]
        type := some member })

def selectValue (types : TypeTable) (ifTrue ifFalse condition : Value) : Decoder Lowered := do
  let a ← requireRegister ifTrue
  let b ← requireRegister ifFalse
  let c ← requireRegister condition
  requireBool types condition
  reportIf (ifTrue.type ≠ ifFalse.type) .selectTypes
  pure (.operation
    { opcode := .movc
      src := [.ofRegister c, .ofRegister a, .ofRegister b]
      type := ifTrue.type })

/-- One of two values: the one for true, the one for false, and the condition. -/
def lowerSelect (scope : FunctionScope) (values : Values) (r : Record) : Decoder Lowered := do
  let (ifTrue, i) ← valueAt scope values r none 0
  typed ifTrue.type do
    let (ifFalse, i) ← valueAt scope values r ifTrue.type i
    let (condition, i) ← valueAt scope values r scope.types.boolType i
    ignoreBeyond r i
    selectValue scope.types ifTrue ifFalse condition

end Dxil
