import Dxil.Module.Value

/-!
# Dxil.Module.Metadata

Metadata holds what a shader says about itself: entry point, signatures, properties, resources. A
metadata block is a table of slots, in which nodes refer to slots; named lists of nodes are the
roots.

* `MetadataTable` and `MetadataTable.decode`.
* `MetadataScope` : a table together with the types and values it refers to, and how to read a
  slot as a node, a text or a number.
-/

namespace Dxil

inductive MetadataValue where
  /-- A slot without a meaning here. -/
  | unhandled
  /-- Slots of the same table; `none` is a null operand. -/
  | node (isDistinct : Bool) (operands : List (Option Nat))
  | string (text : String)
  /-- A value of the module, and the type it is declared with. -/
  | value (type : TypeId) (index : Nat)
  deriving DecidableEq, Repr

def MetadataValue.isNode : MetadataValue → Bool
  | node _ _ => true
  | _ => false

structure NamedMetadata where
  name : String
  operands : List Nat
  deriving DecidableEq, Repr

structure MetadataTable where
  values : Array MetadataValue := #[]
  named : List NamedMetadata := []
  deriving DecidableEq, Repr

inductive MetadataCode where
  | string
  | value
  | node
  | name
  | distinctNode
  | kind
  | namedNode
  deriving DecidableEq, Repr

def MetadataCode.ofNat? : Nat → Option MetadataCode
  | 1 => some string
  | 2 => some value
  | 3 => some node
  | 4 => some name
  | 5 => some distinctNode
  | 6 => some kind
  | 10 => some namedNode
  | _ => none

/-- Names, named nodes and kinds take no slot. -/
def takesSlot (r : Record) : Bool :=
  match MetadataCode.ofNat? r.code.toNat with
  | some .name | some .namedNode | some .kind => false
  | _ => true

namespace Metadata

/-- The table so far, and a name that waits for its node. -/
structure State where
  table : MetadataTable := {}
  pendingName : Option String := none

def State.push (s : State) (v : MetadataValue) : State :=
  { s with table := { s.table with values := s.table.values.push v } }

/-- An operand of the node in `slot`, in a table of `count` slots. Operands are stored plus one,
and only a distinct node may refer to itself. -/
def nodeOperand (count slot : Nat) (isDistinct : Bool) (operand : UInt64) :
    Decoder (Option Nat) :=
  if operand = 0 then pure none
  else if count ≤ operand.toNat - 1 then reject (.metadataOperand operand count)
  else if operand.toNat - 1 = slot ∧ !isDistinct then reject (.metadataSelfReference slot)
  else pure (some (operand.toNat - 1))

def node (count : Nat) (isDistinct : Bool) (s : State) (r : Record) : Decoder State := do
  let operands ← r.operands.mapM (nodeOperand count s.table.values.size isDistinct)
  pure (s.push (.node isDistinct operands))

def namedNode (count : Nat) (s : State) (r : Record) : Decoder State := do
  match s.pendingName with
  | none => reject .metadataUnnamed
  | some name =>
    let operands ← r.operands.mapM fun operand =>
      if operand.toNat < count then pure operand.toNat
      else reject (.metadataNamedOperand operand name count)
    pure
      { table := { s.table with named := s.table.named ++ [{ name, operands }] }
        pendingName := none }

/-- A value of the module. Its type is checked, but a mismatch is no error, and pointers to
functions are not compared at all. -/
def value (types : TypeTable) (values : Values) (s : State) (r : Record) : Decoder State := do
  checkOperands r 2 2
  let type ← types.lookup (← operand r 0)
  let index ← operand r 1
  match values.at? index with
  | none => reject (.metadataValueIndex index)
  | some v =>
    let function ← present (types.pointedFunction type)
    reportIf (function.isNone ∧ v.type ≠ some type) .metadataValueType
    pure (s.push (.value type index.toNat))

def add (types : TypeTable) (values : Values) (count : Nat) (s : State) (r : Record) :
    Decoder State :=
  match MetadataCode.ofNat? r.code.toNat with
  | none => pure (s.push .unhandled)
  | some .name => pure { s with pendingName := some (r.text 0) }
  | some .namedNode => namedNode count s r
  | some .kind => do
    requireOperands r 1
    skipOperand r 0
    pure s
  | some .string => pure (s.push (.string (r.text 0)))
  | some .value => value types values s r
  | some .node => node count false s r
  | some .distinctNode => node count true s r

/-- The operands of a root are nodes. -/
def checkNamed (table : MetadataTable) (named : NamedMetadata) : Decoder Unit := do
  let targets ← named.operands.mapM fun i => present table.values[i]?
  if targets.all MetadataValue.isNode then pure () else reject (.metadataNamedNotNode named.name)

end Metadata

def MetadataTable.decode (types : TypeTable) (values : Values) (block : Block) :
    Decoder MetadataTable := do
  setLine block.id
  let count := block.records.countP takesSlot
  let s ← foldRecords (fun s _ r => Metadata.add types values count s r) 0 {} block.records
  s.table.named.forM (Metadata.checkNamed s.table)
  pure s.table

def maxMetadataTables : Nat := 4

def MetadataTable.decodeAll (types : TypeTable) (values : Values) (root : Block) :
    Decoder (List MetadataTable) :=
  ((root.children .metadata).take maxMetadataTables).mapM (MetadataTable.decode types values)

/-! ## Reading a table -/

/-- A metadata table with what it refers to. -/
structure MetadataScope where
  types : TypeTable
  values : Values
  table : MetadataTable

/-- The first table with a root of the given name, and the operands of that root. -/
def findNamed? (tables : List MetadataTable) (name : String) :
    Option (MetadataTable × List Nat) :=
  tables.findSome? fun table =>
    (table.named.find? fun n => n.name = name).map fun n => (table, n.operands)

namespace MetadataScope

def get? (m : MetadataScope) (slot : Option Nat) : Option MetadataValue :=
  match slot with
  | none => none
  | some i => m.table.values[i]?

def node? (m : MetadataScope) (slot : Option Nat) : Option (List (Option Nat)) :=
  match m.get? slot with
  | some (.node _ operands) => some operands
  | _ => none

def string? (m : MetadataScope) (slot : Option Nat) : Option String :=
  match m.get? slot with
  | some (.string text) => some text
  | _ => none

def value? (m : MetadataScope) (slot : Option Nat) : Option Nat :=
  match m.get? slot with
  | some (.value _ index) => some index
  | _ => none

def integer (m : MetadataScope) (slot : Option Nat) : Decoder (Option Register) :=
  match m.get? slot with
  | some (.value type index) => do
    match ← m.types.typeOf type with
    | .int _ => pure (m.values[index]?.bind Value.register?)
    | _ => pure none
  | _ => pure none

def uint (m : MetadataScope) (slot : Option Nat) : Decoder (Option UInt32) := do
  let register ← m.integer slot
  pure (register.bind Register.uintValue?)

def uint64 (m : MetadataScope) (slot : Option Nat) : Decoder (Option UInt64) := do
  let register ← m.integer slot
  pure (register.bind Register.uint64Value?)

def requireUint (m : MetadataScope) (slot : Option Nat) (f : Finding) : Decoder UInt32 := do
  orReject (← m.uint slot) f

end MetadataScope

end Dxil
