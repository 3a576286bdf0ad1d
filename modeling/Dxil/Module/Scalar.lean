/-!
# Dxil.Module.Scalar

How operations tell scalar operands apart.

* `OperandClass` : for binary operations.
* `ScalarShape` : for casts, written `i32` or `f64`.
-/

namespace Dxil

/-- `int` covers the widths that arithmetic is done in, `float` all but doubles. -/
inductive OperandClass where
  | bool
  | int
  | float
  | double
  deriving DecidableEq, Repr

def OperandClass.name : OperandClass → String
  | bool => "Bool"
  | int => "Int"
  | float => "Float"
  | double => "Double"

inductive ScalarShape where
  | int (width : Nat)
  | float (width : Nat)
  | other
  deriving DecidableEq, Repr

def ScalarShape.width : ScalarShape → Nat
  | int width | float width => width
  | other => 0

def ScalarShape.name : ScalarShape → String
  | int width => s!"i{width}"
  | float width => s!"f{width}"
  | other => "a non-scalar type"

end Dxil
