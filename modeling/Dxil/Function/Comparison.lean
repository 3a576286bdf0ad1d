import Dxil.Function.Arithmetic

/-!
# Dxil.Function.Comparison

Comparisons of numbers. There is no instruction for greater-than; it compares the operands the
other way round.

* `Predicate.opcode?` : the instruction for a predicate, and whether the operands are swapped.
  Predicates that differ only in how they treat NaN share one.
* `lowerComparison` : a record of the two operands, the predicate and optional flags.
-/

namespace Dxil

/-- Float predicates are true (`u`) or false (`o`) of operands that are not numbers. Integer
predicates are unsigned (`u`) or signed (`s`). -/
inductive Predicate where
  | floatFalse
  | floatOeq
  | floatOgt
  | floatOge
  | floatOlt
  | floatOle
  | floatOne
  | floatOrd
  | floatUno
  | floatUeq
  | floatUgt
  | floatUge
  | floatUlt
  | floatUle
  | floatUne
  | floatTrue
  | intEq
  | intNe
  | intUgt
  | intUge
  | intUlt
  | intUle
  | intSgt
  | intSge
  | intSlt
  | intSle
  deriving DecidableEq, Repr

namespace Predicate

def ofNat? : Nat → Option Predicate
  | 0 => some floatFalse
  | 1 => some floatOeq
  | 2 => some floatOgt
  | 3 => some floatOge
  | 4 => some floatOlt
  | 5 => some floatOle
  | 6 => some floatOne
  | 7 => some floatOrd
  | 8 => some floatUno
  | 9 => some floatUeq
  | 10 => some floatUgt
  | 11 => some floatUge
  | 12 => some floatUlt
  | 13 => some floatUle
  | 14 => some floatUne
  | 15 => some floatTrue
  | 32 => some intEq
  | 33 => some intNe
  | 34 => some intUgt
  | 35 => some intUge
  | 36 => some intUlt
  | 37 => some intUle
  | 38 => some intSgt
  | 39 => some intSge
  | 40 => some intSlt
  | 41 => some intSle
  | _ => none

def isFloat : Predicate → Bool
  | intEq | intNe | intUgt | intUge | intUlt | intUle | intSgt | intSge | intSlt | intSle => false
  | _ => true

/-- The instruction on two numbers, doubles or not, and whether they are swapped. -/
def opcode? (isDouble : Bool) : Predicate → Option (Opcode × Bool)
  | floatFalse | floatTrue | floatOrd | floatUno => none
  | floatOeq | floatUeq => some (if isDouble then .dEq else .eq, false)
  | floatOgt | floatUgt => some (if isDouble then .dLt else .lt, true)
  | floatOge | floatUge => some (if isDouble then .dGe else .ge, false)
  | floatOlt | floatUlt => some (if isDouble then .dLt else .lt, false)
  | floatOle | floatUle => some (if isDouble then .dGe else .ge, true)
  | floatOne | floatUne => some (if isDouble then .dNe else .ne, false)
  | intEq => some (.iEq, false)
  | intNe => some (.iNe, false)
  | intUgt => some (.uLt, true)
  | intUge => some (.uGe, false)
  | intUlt => some (.uLt, false)
  | intUle => some (.uGe, true)
  | intSgt => some (.iLt, true)
  | intSge => some (.iGe, false)
  | intSlt => some (.iLt, false)
  | intSle => some (.iGe, true)

def operation (p : Predicate) (opcode : Opcode) (swapped : Bool) (flags : UInt64)
    (type : Option TypeId) (a b : Value) : Operation :=
  { opcode
    flags := if p.isFloat then floatPrecision flags else 0
    src := if swapped then [b.source, a.source] else [a.source, b.source]
    type }

end Predicate

def compareNumbers (types : TypeTable) (type : Ty) (a b : Value) (p : Predicate)
    (code flags : UInt64) : Decoder Lowered := do
  rejectIf (!type.isArithmeticInteger && !type.isFloat) .comparisonOperands
  rejectIf (type.isArithmeticInteger == p.isFloat) (.predicateOperands code)
  reportIf (a.type ≠ b.type) .comparisonTypes
  let (opcode, swapped) ← orReject (p.opcode? (type = .float 64)) (.predicateUnsupported code)
  let ignored := if type.isFloat then flags &&& ~~~floatFlags else flags
  reportIf (ignored ≠ 0) (.comparisonFlags ignored)
  rejectIf types.boolType.isNone .boolTypeMissing
  pure (.operation (p.operation opcode swapped flags types.boolType a b))

def compareValues (types : TypeTable) (a b : Value) (code flags : UInt64) : Decoder Lowered := do
  let p ← orReject (Predicate.ofNat? code.toNat) (.predicateUnknown code)
  match ← types.typeOf? a.type with
  | none => abandon
  | some type => compareNumbers types type a b p code flags

/-- A comparison. Its result has the module's type of one bit. -/
def lowerComparison (scope : FunctionScope) (values : Values) (r : Record) : Decoder Lowered :=
  typed scope.types.boolType do
    let (a, i) ← valueAt scope values r none 0
    let (b, i) ← valueAt scope values r a.type i
    checkOperands r (i + 1) (i + 2)
    compareValues scope.types a b (← operand r i) (r.operands.getD (i + 1) 0)

end Dxil
