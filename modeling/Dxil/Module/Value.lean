import Dxil.Module.TypeTable

/-!
# Dxil.Module.Value

Values are numbered in the order in which a module and its function define them: functions and
global variables, constants, results of instructions.

* `Value` : a function, a register, constant data or a resource handle, with its type.
* `Register.constantBuffer` : the register of a resource handle.
* `decodeRotated` : integer constants, whose sign is stored in the lowest bit.
* `decodeAlignment`
* `RegisterIndex.ofAddress` : a value as a register index.
-/

namespace Dxil

structure FunctionDecl where
  name : String
  /-- Declared here and defined elsewhere. -/
  isPrototype : Bool
  deriving DecidableEq, Repr

/-- The constant buffer register at an element of the range of descriptor `id`, at its first row. -/
def Register.constantBuffer (id : UInt32) (element : RegisterIndex) (nonUniform : Bool) :
    Register :=
  { type := .constBuffer
    data := .float
    indices := [{ offset := id }, element, RegisterIndex.zero]
    dimension := .vec4
    nonUniform }

inductive ValueKind where
  | function (decl : FunctionDecl)
  | register (register : Register)
  /-- Position among the constant arrays. -/
  | array (index : Nat)
  /-- A constant buffer register, whose users set the row. -/
  | handle (register : Register)
  deriving Repr

structure Value where
  /-- `none` where the defining record failed before its type was known. -/
  type : Option TypeId := none
  kind : ValueKind
  deriving Repr

namespace Value

def undefined (type : Option TypeId) (data : DataType) : Value :=
  { type, kind := .register { type := .undef, data } }

def function? (v : Value) : Option FunctionDecl :=
  match v.kind with
  | .function decl => some decl
  | _ => none

/-- Result and parameters of the function that a value points to. `none` if a type leads out of the
table. -/
def signature (types : TypeTable) (v : Value) : Option (Option (TypeId × List TypeId)) :=
  v.type.elim (some none) types.pointedFunction

def register? (v : Value) : Option Register :=
  match v.kind with
  | .register r => some r
  | _ => none

def isRegister (v : Value) : Bool := v.register?.isSome

def isHandle (v : Value) : Bool :=
  match v.kind with
  | .handle _ => true
  | _ => false

def isConstant (v : Value) : Bool :=
  match v.kind with
  | .register r => r.isConstant
  | _ => false

def isUndef (v : Value) : Bool :=
  match v.kind with
  | .register r => r.type = .undef
  | _ => false

def constantUint? (v : Value) : Option UInt32 :=
  match v.kind with
  | .register r => r.uintValue?
  | _ => none

def source (v : Value) : SrcParam :=
  match v.kind with
  | .register r | .handle r => .ofRegister r
  | .function _ | .array _ => .ofRegister .unknown

end Value

/-- An integer constant of `width` bits: the sign is in bit 0 and the magnitude above it. The lone
sign is the least number of the width. -/
def decodeRotated (value : UInt64) (width : Nat) : UInt64 :=
  let decoded :=
    if value = 1 then (1 : UInt64) <<< UInt64.ofNat (min (max width 1) 64 - 1)
    else if value &&& 1 = 1 then -(value >>> 1)
    else value >>> 1
  if 64 ≤ width then decoded else UInt64.ofNat (decoded.toNat % Nat.pow 2 width)

/-- An alignment in bytes. It is stored as its exponent plus one, and 0 means unspecified. -/
def decodeAlignment (encoded : UInt64) : Option UInt32 :=
  if encoded = 0 then some 0
  else if encoded ≤ 30 then some (1 <<< (encoded.toUInt32 - 1))
  else none

def alignmentOf (encoded : UInt64) : UInt32 := (decodeAlignment encoded).getD 0

/-- An index at an address: a constant is a fixed offset, any other defined register is read, and
what is left means offset 0. -/
def RegisterIndex.ofAddress (v : Value) : RegisterIndex :=
  match v.constantUint? with
  | some offset => { offset }
  | none => if v.isRegister && !v.isUndef then { relative := some v.source } else { offset := 0 }

/-- A value list, in which records refer to values by position. -/
abbrev Values := Array Value

def Values.at? (values : Values) (index : UInt64) : Option Value := values[index.toNat]?

end Dxil
