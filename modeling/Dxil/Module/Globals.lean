import Dxil.Module.Constants
import Dxil.Module.SymbolTable

/-!
# Dxil.Module.Globals

Functions and global variables of a module, then its constants. A global variable becomes an array
of indexable registers; its initial data is a constant, which may only come later.

* `Globals.declareFunction`, `Globals.declareVariable`
* `Globals.decode` : all values of module scope, and the declarations of the register arrays.
-/

namespace Dxil

inductive ModuleCode where
  | version
  | globalVar
  | function
  deriving DecidableEq, Repr

def ModuleCode.ofNat? : Nat → Option ModuleCode
  | 1 => some version
  | 7 => some globalVar
  | 8 => some function
  | _ => none

namespace Globals

structure State where
  values : Values := #[]
  /-- Declarations of the register arrays. -/
  instructions : Array Instruction := #[]
  /-- Positions of declarations that wait for their initial data, and of the data in the value
  list. -/
  pending : Array (Nat × UInt64) := #[]

def isConstantFlag : UInt64 := 1

/-- The type operand is the type of the variable, and not of a pointer to it. -/
def explicitTypeFlag : UInt64 := 2

/-- The format version has to be 1. -/
def checkVersion (r : Record) : Decoder Unit := do
  checkOperands r 1 1
  let version ← operand r 0
  if version = 1 then pure () else reject (.formatVersion version)

/-- A function, named by the symbol table. Its value is a pointer. -/
def declareFunction (types : TypeTable) (symbols : SymbolTable) (s : State) (r : Record) :
    Decoder State := do
  checkOperands r 8 15
  let name := (symbols.name? (UInt64.ofNat s.values.size)).getD ""
  let type ← types.lookup (← operand r 0)
  match ← types.typeOf type, ← present (types.pointerTo type 0) with
  | .function result _, some pointer => do
    -- Calling convention, linkage, attributes and the result type have no meaning here.
    [1, 3, 4].forM (skipOperand r)
    let _ ← types.typeOf result
    let prototype ← operand r 2
    let kind := .function { name, isPrototype := prototype ≠ 0 }
    pure { s with values := s.values.push { type := some pointer, kind } }
  | _, _ => abandon

def variableType (types : TypeTable) (index : Nat) (declared : TypeId) (flags : UInt64) :
    Decoder (TypeId × TypeId × UInt64) := do
  if flags &&& explicitTypeFlag ≠ 0 then
    let space := flags >>> 2
    let pointer ← types.lookupPointer declared space (.globalPointerType index space)
    pure (declared, pointer, space)
  else
    match ← types.typeOf declared with
    | .pointer pointee space => pure (pointee, declared, space)
    | _ => reject (.globalNotPointer index)

def variableLayout (types : TypeTable) (index : Nat) (type : TypeId) : Decoder (Ty × UInt32) := do
  match ← types.typeOf type with
  | .array element count => do
    let scalar ← types.typeOf element
    if scalar.isNumeric then pure (scalar, count) else reject (.globalNestedArray index)
  | scalar => if scalar.isNumeric then pure (scalar, 1) else reject (.globalNotScalar index)

/-- Variables of other address spaces than the default one are not supported. -/
def checkAddressSpace (space : UInt64) : Decoder Unit :=
  match AddressSpace.ofNat? space.toNat with
  | some .default => pure ()
  | some .groupShared => reject .globalGroupShared
  | _ => reject (.globalAddressSpace space)

/-- Declare a register array, whose initial data stands at position `initialiser - 1` of the value
list; 0 means that it has none. -/
def State.declare (s : State) (pointer : TypeId) (temp : IndexableTemp) (initialiser : UInt64)
    (location : Location) : State :=
  let kind := .register
    { type := .idxTemp, data := temp.dataType, indices := [{ offset := temp.register }] }
  let declaration := some (.indexableTemp temp)
  { values := s.values.push { type := some pointer, kind }
    instructions := s.instructions.push { opcode := .dclIndexableTemp, location, declaration }
    pending :=
      if initialiser = 0 then s.pending
      else s.pending.push (s.instructions.size, initialiser - 1) }

/-- A global variable of scalar or array type. Its value is a pointer to the register array. -/
def declareVariable (types : TypeTable) (s : State) (r : Record) : Decoder State := do
  checkOperands r 6 13
  let index := s.values.size
  let declared ← types.lookup (← operand r 0)
  let flags ← operand r 1
  let isConstant := flags &&& isConstantFlag ≠ 0
  let (type, pointer, space) ← variableType types index declared flags
  let (scalar, count) ← variableLayout types index type
  let initialiser ← operand r 2
  -- Linkage and section have no meaning here.
  [3, 5].forM (skipOperand r)
  let alignment := alignmentOf (← operand r 4)
  rejectIf (isConstant && initialiser = 0) (.globalUninitialised index)
  checkAddressSpace space
  let location ← here
  let temp : IndexableTemp :=
    { register := UInt32.ofNat s.instructions.size, size := count, alignment
      dataType := scalar.dataType, componentCount := 1, hasFunctionScope := isConstant
      initialiser := none }
  pure (s.declare pointer temp initialiser location)

def add (types : TypeTable) (symbols : SymbolTable) (s : State) (r : Record) : Decoder State :=
  match ModuleCode.ofNat? r.code.toNat with
  | some .version => do
    checkVersion r
    pure s
  | some .function => orReport (declareFunction types symbols s r) (report .functionDeclaration)
  | some .globalVar => declareVariable types s r
  | none => pure s

/-- The initial data at a position of the value list: a constant array, or for an undefined value
none. Other values are no such data. -/
def initialiser? (values : Values) (index : UInt64) : Option (Option Nat) :=
  match values.at? index with
  | none => none
  | some v =>
    match v.kind with
    | .array i => some (some i)
    | _ => if v.isUndef then some none else none

def initialise (instruction : Instruction) (initialiser : Option Nat) : Instruction :=
  match instruction.declaration with
  | some (.indexableTemp temp) =>
    { instruction with declaration := some (.indexableTemp { temp with initialiser }) }
  | _ => instruction

/-- Give a declaration its initial data, once all values of module scope are known. Data that is
none is an error, but the rest is still resolved. -/
def resolve (values : Values) (instructions : Array Instruction) (pending : Nat × UInt64) :
    Decoder (Array Instruction) :=
  match initialiser? values pending.2 with
  | none => do
    report (.globalInitialiser pending.2.toNat)
    pure instructions
  | some initialiser => do
    let instruction ← present instructions[pending.1]?
    pure (instructions.setIfInBounds pending.1 (initialise instruction initialiser))

end Globals

structure Globals where
  pool : ConstantPool
  /-- Declarations of the register arrays, in order. -/
  temps : List Instruction

def Constants.decodeAll (types : TypeTable) :
    ConstantPool → List Block → Decoder ConstantPool
  | pool, [] => pure pool
  | pool, block :: blocks => do
    let pool ← decode types pool block
    decodeAll types pool blocks

/-- The records of a module in order, then its constants, then the initial data of variables. -/
def Globals.decode (types : TypeTable) (symbols : SymbolTable) (root : Block) :
    Decoder Globals := do
  setLine root.id
  let s ← foldRecords (fun s _ r => add types symbols s r) 0 {} root.records
  let pool ← Constants.decodeAll types { values := s.values } (root.children .constants)
  let temps ← s.pending.toList.foldlM (resolve pool.values) s.instructions
  pure { pool, temps := temps.toList }

end Dxil
