import Dxil.Function.Operation

/-!
# Dxil.Function.Reference

Records refer to values by the distance back from the value that they define themselves. Distances
are 32-bit numbers, so a reference forwards wraps round; it carries its type in one more operand
where the reader does not know it. Only values that exist already can be used.

* `resolve` : the position of a value, and the position of the operand after the reference.
* `valueAt` : the value itself.
* `requireRegister`, `requirePointer`, `requireBool` : what instructions ask of a value.
-/

namespace Dxil

def checkForwardType (types : TypeTable) (r : Record) (known : Option TypeId) (i : Nat) :
    Decoder Unit :=
  match known with
  | some _ => pure ()
  | none => do
    requireOperands r (i + 1)
    let _ ← types.lookup (← operand r i)

/-- Resolve the reference at operand `i` of a record, where `count` values are defined. `known` is
the type of a value to come, if the record gives it. -/
def resolve (scope : FunctionScope) (count : Nat) (r : Record) (known : Option TypeId) (i : Nat) :
    Decoder (Nat × Nat) := do
  requireOperands r (i + 1)
  let distance := (← operand r i).toUInt32
  let index := (UInt32.ofNat count - distance).toNat
  if scope.bound ≤ index then reject (.relativeIndex distance)
  else if index = count then reject .selfReference
  else if index < count then pure (index, i + 1)
  else do
    checkForwardType scope.types r known (i + 1)
    reject .forwardReference

def valueAt (scope : FunctionScope) (values : Values) (r : Record) (known : Option TypeId)
    (i : Nat) : Decoder (Value × Nat) := do
  let (index, next) ← resolve scope values.size r known i
  let v ← present values[index]?
  pure (v, next)

def requireRegister (v : Value) : Decoder Register := orReject v.register? .notRegister

def requirePointer (types : TypeTable) (v : Value) : Decoder (TypeId × UInt64) := do
  match ← types.typeOf? v.type with
  | some (.pointer pointee space) => pure (pointee, space)
  | _ => reject .notPointer

def requireBool (types : TypeTable) (v : Value) : Decoder Unit := do
  match ← types.typeOf? v.type with
  | some (.int 1) => pure ()
  | _ => reject .notBool

end Dxil
