import Dxil.Module.Value

/-!
# Dxil.Module.Constants

A constants block is a list of values under a current type, which `setType` records change.

* `Constants.template` : the register of a zero of a type.
* `ConstantArray.ofOperands` : array data, with nested arrays laid out flat.
* `Constants.gep` : the address of an element of a global array.
* `Constants.decode` : adds one value for every record but `setType`.
-/

namespace Dxil

inductive ConstantCode where
  | setType
  | null
  | undef
  | integer
  | float
  | string
  | gep
  | inBoundsGep
  | data
  deriving DecidableEq, Repr

def ConstantCode.ofNat? : Nat → Option ConstantCode
  | 1 => some setType
  | 2 => some null
  | 3 => some undef
  | 4 => some integer
  | 6 => some float
  | 8 => some string
  | 12 => some gep
  | 20 => some inBoundsGep
  | 22 => some data
  | _ => none

/-! ## Array data -/

/-- The type inside nested arrays, for at most `steps` of them, and the product of their counts,
which stays at the largest 64-bit number once it gets there. `none` if a reference leads out of the
table. -/
def TypeTable.flatten (t : TypeTable) : (steps : Nat) → TypeId → Nat → Option (TypeId × Nat)
  | 0, id, count => pure (id, count)
  | steps + 1, id, count => do
    match ← t.get? id with
    | .array element inner =>
      t.flatten steps element (min (count * inner.toNat) (UInt64.size - 1))
    | _ => pure (id, count)

/-- Array data of a type. `index` is its position among the constant arrays. -/
def ConstantArray.ofOperands (types : TypeTable) (type : TypeId) (index : Nat)
    (operands : List UInt64) : Decoder ConstantArray := do
  let (elementId, count) ← present (types.flatten types.size type 1)
  let element ← types.typeOf elementId
  rejectIf (elementId = type ∨ !element.isNumeric) .constantData
  rejectIf element.isBool .constantBoolArray
  rejectIf (count ≠ operands.length) (.constantArraySize count operands.length)
  pure
    { register := UInt32.ofNat index
      dataType := element.dataType
      componentCount := 1
      elementCount := UInt32.ofNat count
      data :=
        if element.width? = some 64 then .quads operands
        else .words (operands.map UInt64.toUInt32) }

/-! ## Values -/

structure ConstantPool where
  values : Values := #[]
  arrays : Array ConstantArray := #[]

namespace ConstantPool

def push (p : ConstantPool) (type : TypeId) (kind : ValueKind) : ConstantPool :=
  { p with values := p.values.push { type := some type, kind } }

end ConstantPool

namespace Constants

/-- The current type and the register of its zero, and the pool so far. -/
structure State where
  current : Option (TypeId × Register) := none
  pool : ConstantPool

def elementType (types : TypeTable) : Ty → Decoder Ty
  | .array element _ | .vector element _ => types.typeOf element
  | type => pure type

/-- The zero of a number. Of what is not a number it is no register at all. -/
def zero (type : Ty) : Register :=
  match type.width? with
  | none => .unknown
  | some width =>
    if 32 < width then
      { type := .immConst64, data := type.dataType, immediate := .quads 0 0 }
    else { type := .immConst, data := type.dataType }

def template (types : TypeTable) (id : TypeId) : Decoder Register := do
  let type ← types.typeOf id
  pure (zero (← elementType types type))

def immediate (width : Nat) (value : UInt64) : Immediate :=
  if 32 < width then .quads value 0 else .words value.toUInt32 0 0 0

def integer (type : Ty) (zero : Register) (i : Nat) (r : Record) : Decoder Register := do
  checkOperands r 1 1
  let value ← operand r 0
  match type with
  | .int width => pure { zero with immediate := immediate width (decodeRotated value width) }
  | _ => reject (.constantNotInteger i)

/-- A float constant, given by its bits. Half floats stay zero. -/
def float (type : Ty) (zero : Register) (i : Nat) (r : Record) : Decoder Register := do
  checkOperands r 1 1
  let bits ← operand r 0
  match type with
  | .float 16 => pure zero
  | .float 32 => pure { zero with immediate := immediate 32 bits }
  | .float 64 => pure { zero with immediate := immediate 64 bits }
  | _ => reject (.constantNotFloat i)

def gepBase (types : TypeTable) (base : Value) : Decoder (TypeId × UInt64 × Register) := do
  match ← types.typeOf? base.type, base.kind with
  | some (.pointer pointee space), .register register => do
    rejectIf (register.type ≠ .idxTemp) .constantGepNotGlobal
    pure (pointee, space, register)
  | _, _ => reject .constantGepNotGlobal

def gepElement (types : TypeTable) (pointee : TypeId) (offset : UInt32) : Decoder TypeId := do
  match ← types.typeOf pointee with
  | .array element count => do
    rejectIf (count ≤ offset) .constantGepOutOfBounds
    pure element
  | _ => reject .constantGepOutOfBounds

/-- The element of a global array at a constant index: its pointer type and register. The operands
are pairs of a type and an absolute position, for the array, a zero and the index; an element type
may stand before them. -/
def gep (types : TypeTable) (values : Values) (inBounds : Bool) (operands : List UInt64) :
    Decoder (TypeId × Register) := do
  match operands.drop (operands.length % 2) with
  | [_, base, _, zero, _, index] => do
    let base ← orReject (values.at? base) .constantGepBase
    let (pointee, space, register) ← gepBase types base
    rejectIf ((values.at? zero).bind Value.constantUint? ≠ some 0) .constantGepDereference
    let offset ← orReject ((values.at? index).bind Value.constantUint?) .constantGepIndex
    let element ← gepElement types pointee offset
    let type ← types.lookupPointer element space .constantGepPointerType
    let register ← present ((register.setIndexCount 2).setIndex? 1 { offset, inBounds })
    pure (type, register)
  | pairs => reject (.constantGepIndices (pairs.length / 2 - 1))

/-- The pool after a record of the current type `id`, whose zero is `zero`. Codes without a meaning
here leave an undefined value. -/
def define (types : TypeTable) (id : TypeId) (zero : Register) (pool : ConstantPool) (i : Nat)
    (r : Record) : Decoder ConstantPool := do
  let type ← types.typeOf id
  match ConstantCode.ofNat? r.code.toNat with
  | some .null =>
    if type.isArray then reject .constantNullArray else pure (pool.push id (.register zero))
  | some .integer => do
    let register ← integer type zero i r
    pure (pool.push id (.register register))
  | some .float => do
    let register ← float type zero i r
    pure (pool.push id (.register register))
  | some .data => do
    let array ← ConstantArray.ofOperands types id pool.arrays.size r.operands
    pure { pool.push id (.array pool.arrays.size) with arrays := pool.arrays.push array }
  | some .gep => do
    let (pointer, register) ← gep types pool.values false r.operands
    pure (pool.push pointer (.register register))
  | some .inBoundsGep => do
    let (pointer, register) ← gep types pool.values true r.operands
    pure (pool.push pointer (.register register))
  | some .undef => do
    ignoreBeyond r 0
    pure (pool.push id (.register { zero with type := .undef }))
  | _ => pure (pool.push id (.register { zero with type := .undef }))

def add (types : TypeTable) (s : State) (i : Nat) (r : Record) : Decoder State := do
  if ConstantCode.ofNat? r.code.toNat = some .setType then
    checkOperands r 1 1
    let id ← types.lookup (← operand r 0)
    let zero ← template types id
    pure { s with current := some (id, zero) }
  else
    match s.current with
    | none => reject (.constantUntyped i)
    | some (id, zero) =>
      let pool ← define types id zero s.pool i r
      pure { s with pool }

def decode (types : TypeTable) (pool : ConstantPool) (block : Block) : Decoder ConstantPool := do
  setLine block.id
  let s ← foldRecords (add types) 0 { pool } block.records
  pure s.pool

end Constants

end Dxil
