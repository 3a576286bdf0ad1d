import Dxil.Module.Decoder

/-!
# Dxil.Module.TypeTable

The types of a module. They refer to each other by position, forwards and backwards, so that a
pointer may lead round in a circle.

* `Ty` : one type.
* `TypeTable` and its searches: `pointerTo`, `scalar`.
* `TypeTable.decode` : the table of a module. Every reference in it is checked.
-/

namespace Dxil

inductive AddressSpace where
  | default
  | deviceMemory
  | constantBuffer
  | groupShared
  deriving DecidableEq, Repr

def AddressSpace.ofNat? : Nat → Option AddressSpace
  | 0 => some default
  | 1 => some deviceMemory
  | 2 => some constantBuffer
  | 3 => some groupShared
  | _ => none

inductive Ty where
  | void
  | int (width : Nat)
  | float (width : Nat)
  | pointer (pointee : TypeId) (space : UInt64)
  | struct (name : Option String) (members : List TypeId)
  | function (result : TypeId) (params : List TypeId)
  | vector (element : TypeId) (count : UInt32)
  | array (element : TypeId) (count : UInt32)
  | label
  | metadata
  deriving DecidableEq, Repr

/-- The struct whose values are resource handles. -/
def handleTypeName : String := "dx.types.Handle"

namespace Ty

def isVoid : Ty → Bool
  | void => true
  | _ => false

def isInteger : Ty → Bool
  | int _ => true
  | _ => false

def isBool : Ty → Bool
  | int 1 => true
  | _ => false

def isFloat : Ty → Bool
  | float _ => true
  | _ => false

def isNumeric : Ty → Bool
  | int _ | float _ => true
  | _ => false

def isPointer : Ty → Bool
  | pointer _ _ => true
  | _ => false

def isArray : Ty → Bool
  | array _ _ => true
  | _ => false

def isAggregate : Ty → Bool
  | struct _ _ | vector _ _ | array _ _ => true
  | _ => false

def isHandle : Ty → Bool
  | struct (some name) _ => name == handleTypeName
  | _ => false

/-- The integers that arithmetic and comparisons take. -/
def isArithmeticInteger : Ty → Bool
  | int 1 | int 16 | int 32 | int 64 => true
  | _ => false

def width? : Ty → Option Nat
  | int width | float width => some width
  | _ => none

def member? (index : Nat) : Ty → Option TypeId
  | array element count | vector element count =>
    if index < count.toNat then some element else none
  | struct _ members => members[index]?
  | _ => none

def dataType : Ty → DataType
  | int 1 => .bool
  | int 8 => .uint8
  | int 16 => .uint16
  | int 64 => .uint64
  | float 16 => .half
  | float 64 => .double
  | float _ => .float
  | _ => .uint

/-- How many values of a scalar type a vector register holds. -/
def vectorSize (t : Ty) : Nat :=
  match t.width? with
  | some width => if 32 < width then 2 else 4
  | none => 4

def shape : Ty → ScalarShape
  | int width => .int width
  | float width => .float width
  | _ => .other

def operandClass? : Ty → Option OperandClass
  | int 1 => some .bool
  | int 16 | int 32 | int 64 => some .int
  | float 64 => some .double
  | float _ => some .float
  | _ => none

/-- The type that a pointer or aggregate leads to first; `none` for the others. -/
def next? : Ty → Option (Option TypeId)
  | pointer pointee _ => some (some pointee)
  | array element _ | vector element _ => some (some element)
  | struct _ members => some members.head?
  | _ => none

end Ty

structure TypeTable where
  types : Array Ty := #[]
  /-- The first type of one bit. -/
  boolType : Option TypeId := none
  /-- The last struct with the handle name. -/
  handleType : Option TypeId := none
  deriving DecidableEq, Repr

namespace TypeTable

def size (t : TypeTable) : Nat := t.types.size

def get? (t : TypeTable) (id : TypeId) : Option Ty := t.types[id]?

/-! The searches below follow references. One that leads out of the table gives `none`; `some none`
says that there is no such type. -/

/-- The pointer type to `id` in an address space. It often follows its pointee, so the search
starts there and wraps round. -/
def pointerTo (t : TypeTable) (id : TypeId) (space : UInt64) : Option (Option TypeId) :=
  ((List.range' 1 (t.size - 1)).map fun offset => (id + offset) % t.size).findM? fun candidate => do
    let type ← t.get? candidate
    pure (type == .pointer id space)

/-- Follow pointees, elements and first members for at most `steps` types. -/
def walk (t : TypeTable) : (steps : Nat) → TypeId → Option (Option TypeId)
  | 0, _ => pure none
  | steps + 1, id => do
    let type ← t.get? id
    match type.next? with
    | none => pure (some id)
    | some none => pure none
    | some (some next) => t.walk steps next

/-- The scalar that a type consists of first, looking through pointers and aggregates. There is
none where that leads round in a circle. -/
def scalarId (t : TypeTable) (id : TypeId) : Option (Option TypeId) := do
  let type ← t.get? id
  if type.isAggregate then
    match type.member? 0 with
    | none => pure none
    | some first => t.walk (t.size + 1) first
  else t.walk (t.size + 1) id

def scalar (t : TypeTable) : Option TypeId → Option (Option Ty)
  | none => pure none
  | some id => do
    match ← t.scalarId id with
    | none => pure none
    | some scalar => some <$> t.get? scalar

def dataTypeOf (t : TypeTable) (id : Option TypeId) : Option DataType := do
  match ← t.scalar id with
  | none => pure .unused
  | some type => pure type.dataType

def pointedFunction (t : TypeTable) (id : TypeId) : Option (Option (TypeId × List TypeId)) := do
  match ← t.get? id with
  | .pointer pointee _ =>
    match ← t.get? pointee with
    | .function result params => pure (some (result, params))
    | _ => pure none
  | _ => pure none

def typeOf (t : TypeTable) (id : TypeId) : Decoder Ty := present (t.get? id)

def typeOf? (t : TypeTable) : Option TypeId → Decoder (Option Ty)
  | none => pure none
  | some id => some <$> t.typeOf id

def lookup (t : TypeTable) (id : UInt64) : Decoder TypeId :=
  if id.toNat < t.size then pure id.toNat else reject (.typeId id)

def lookupPointer (t : TypeTable) (id : TypeId) (space : UInt64) (f : Finding) :
    Decoder TypeId := do
  orReject (← present (t.pointerTo id space)) f

end TypeTable

/-! ## Decoding -/

inductive TypeCode where
  | numEntry
  | void
  | float
  | double
  | label
  | integer
  | pointer
  | half
  | array
  | vector
  | metadata
  | structAnon
  | structName
  | structNamed
  | function
  deriving DecidableEq, Repr

def TypeCode.ofNat? : Nat → Option TypeCode
  | 1 => some numEntry
  | 2 => some void
  | 3 => some float
  | 4 => some double
  | 5 => some label
  | 7 => some integer
  | 8 => some pointer
  | 10 => some half
  | 11 => some array
  | 12 => some vector
  | 16 => some metadata
  | 18 => some structAnon
  | 19 => some structName
  | 20 => some structNamed
  | 21 => some function
  | _ => none

/-- Records that do not define a type are the entry count and names of structs. -/
def definesType (r : Record) : Bool :=
  match TypeCode.ofNat? r.code.toNat with
  | some .numEntry | some .structName => false
  | _ => true

/-- The table so far, and a struct name that waits for its struct. -/
structure TypeBuilder where
  table : TypeTable := {}
  structName : Option String := none
  deriving DecidableEq, Repr

namespace TypeBuilder

def push (b : TypeBuilder) (type : Ty) : TypeBuilder :=
  { b with table := { b.table with types := b.table.types.push type } }

def reference (count : Nat) (id : UInt64) : Decoder TypeId :=
  if id.toNat < count then pure id.toNat else abandon

/-- The element count of an array or vector. Zero means unbounded. -/
def elementCount (n : UInt64) : UInt32 :=
  if n = 0 ∨ UInt32.size ≤ n.toNat then 0xffffffff else n.toUInt32

def sequence (count : Nat) (r : Record) : Decoder (TypeId × UInt32) := do
  checkOperands r 2 2
  let elements ← operand r 0
  let element ← reference count (← operand r 1)
  pure (element, elementCount elements)

def plain (b : TypeBuilder) (r : Record) (type : Ty) : Decoder TypeBuilder := do
  ignoreBeyond r 0
  pure (b.push type)

def integer (b : TypeBuilder) (r : Record) : Decoder TypeBuilder := do
  checkOperands r 1 1
  let width := (← operand r 0).toNat
  if width ∈ [1, 8, 16, 32, 64] then
    let next := b.push (.int width)
    if width = 1 ∧ b.table.boolType.isNone then
      pure { next with table := { next.table with boolType := some b.table.size } }
    else pure next
  else abandon

def pointer (b : TypeBuilder) (count : Nat) (r : Record) : Decoder TypeBuilder := do
  checkOperands r 1 2
  let pointee ← reference count (← operand r 0)
  pure (b.push (.pointer pointee (r.operands.getD 1 0)))

/-- A function type. The first operand says whether it takes more arguments than it has
parameters. -/
def function (b : TypeBuilder) (count : Nat) (r : Record) : Decoder TypeBuilder := do
  requireOperands r 2
  skipOperand r 0
  let result ← reference count (← operand r 1)
  let params ← (← operandsFrom r 2).mapM (reference count)
  pure (b.push (.function result params))

/-- The members of a struct stand after its packing flag. -/
def members (count : Nat) (r : Record) : Decoder (List TypeId) := do
  skipOperand r 0
  (← operandsFrom r 1).mapM (reference count)

def anonymousStruct (b : TypeBuilder) (count : Nat) (r : Record) : Decoder TypeBuilder := do
  requireOperands r 2
  let members ← members count r
  pure (b.push (.struct none members))

/-- A named struct takes the waiting name. -/
def namedStruct (b : TypeBuilder) (count : Nat) (r : Record) : Decoder TypeBuilder := do
  requireOperands r 2
  match b.structName with
  | none => abandon
  | some name => do
    let members ← members count r
    let next := { b with structName := none }.push (.struct (some name) members)
    if name = handleTypeName then
      pure { next with table := { next.table with handleType := some b.table.size } }
    else pure next

def add (count : Nat) (b : TypeBuilder) (r : Record) : Decoder TypeBuilder :=
  match TypeCode.ofNat? r.code.toNat with
  | none => abandon
  | some .numEntry => pure b
  | some .structName => pure { b with structName := some (r.text 0) }
  | some .void => b.plain r .void
  | some .half => b.plain r (.float 16)
  | some .float => b.plain r (.float 32)
  | some .double => b.plain r (.float 64)
  | some .label => pure (b.push .label)
  | some .metadata => pure (b.push .metadata)
  | some .integer => b.integer r
  | some .pointer => b.pointer count r
  | some .array => do
    let (element, elements) ← sequence count r
    pure (b.push (.array element elements))
  | some .vector => do
    let (element, elements) ← sequence count r
    pure (b.push (.vector element elements))
  | some .function => b.function count r
  | some .structAnon => b.anonymousStruct count r
  | some .structNamed => b.namedStruct count r

end TypeBuilder

def TypeTable.ofRecords (records : List Record) : Decoder TypeTable := do
  let count := records.countP definesType
  let b ← foldRecords (fun b _ r => TypeBuilder.add count b r) 0 {} records
  pure b.table

/-- The types of a module, from its first type block if it has one. -/
def TypeTable.decode (root : Block) : Decoder TypeTable := do
  setLine 0
  setColumn 0
  match root.children .type with
  | [] => pure {}
  | block :: _ => do
    setLine block.id
    TypeTable.ofRecords block.records

end Dxil
