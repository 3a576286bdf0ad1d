import Dxil.Function.Intrinsic

/-!
# Dxil.Function.Call

Calls. Only intrinsic operations can be called: they are declared functions, and the first argument
is the number of the operation.

* `lowerCall` : a record of attributes, calling convention, callee and arguments.
-/

namespace Dxil

/-- The flag of a calling convention after which the type of the callee is given. -/
def explicitCalleeType : UInt64 := 0x8000

/-- A call gives the type of its callee in one more operand at times. An invalid one is an error,
but the call is read on. Returns the position of the operand after it. -/
def skipCalleeType (types : TypeTable) (r : Record) : Decoder Nat := do
  if (← operand r 1) &&& explicitCalleeType ≠ 0 then
    requireOperands r 3
    let _ ← attempt (types.lookup (← operand r 2))
    pure 3
  else pure 2

/-- The arguments for parameters of the given types, from operand `i` on, and the position of the
operand after them. -/
def callArguments (scope : FunctionScope) (values : Values) (r : Record) :
    List TypeId → (i : Nat) → Decoder (List Value × Nat)
  | [], i => pure ([], i)
  | param :: params, i => do
    let (v, i) ← valueAt scope values r (some param) i
    let (vs, i) ← callArguments scope values r params i
    pure (v :: vs, i)

def intrinsicNumber (types : TypeTable) (v : Value) : Decoder UInt32 := do
  match ← types.typeOf? v.type, v.constantUint? with
  | some (.int _), some number => pure number
  | _, _ => reject .intrinsicId

def callFunction (scope : FunctionScope) (decl : FunctionDecl) (type : Option TypeId)
    (args : List Value) : Decoder Lowered := do
  rejectIf (!decl.isPrototype) .callLocal
  match args with
  | [] => reject .intrinsicIdMissing
  | id :: args => do
    let number ← intrinsicNumber scope.types id
    lowerIntrinsic scope number decl.name type args

def lowerCall (scope : FunctionScope) (values : Values) (r : Record) : Decoder Lowered := do
  requireOperands r 2
  let i ← skipCalleeType scope.types r
  let (callee, i) ← valueAt scope values r none i
  let decl ← orReject callee.function? .calleeNotFunction
  match ← present (callee.signature scope.types) with
  | none => abandon
  | some (result, params) => do
    let type := if (← scope.types.typeOf result).isVoid then none else some result
    typed type do
      let (args, i) ← callArguments scope values r params i
      reportIf (i < r.operands.length) (.callExtraOperands (r.operands.length - i))
      callFunction scope decl type args

end Dxil
