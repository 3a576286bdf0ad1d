import Dxil.Module.Globals

/-!
# Dxil.Module.Budget

How many values a module can come to hold, counted before any of them is decoded. A function body
may refer to a value only below its budget.

* `ValueBudget.count` : the values of a block and everything in it.
-/

namespace Dxil

structure ValueBudget where
  /-- The most values while each function body is decoded, in order. -/
  functions : List Nat := []
  /-- The most values at any time. -/
  capacity : Nat := 0
  deriving DecidableEq, Repr

namespace ValueBudget

def declaresValue (r : Record) : Bool :=
  match ModuleCode.ofNat? r.code.toNat with
  | some .globalVar | some .function => true
  | _ => false

/-- Every record of a constants block but a change of type is a value. -/
def definesConstant (r : Record) : Bool :=
  ConstantCode.ofNat? r.code.toNat ≠ some .setType

/-- A function body of `records` records, with `count` values before its first instruction. The
first record is not an instruction. -/
def addFunction (b : ValueBudget) (count : Nat) (records : List Record) : ValueBudget :=
  let reached := count + (max records.length 1 - 1)
  { functions := b.functions ++ [reached], capacity := max b.capacity reached }

mutual

/-- The value count after a block, from `before` values on. Those of a function end with it. Counts
are kept below `2 ^ 32`. -/
def count : Block → (before : Nat) → ValueBudget → Option (Nat × ValueBudget)
  | .mk header records blocks, before, b =>
    let declared :=
      if header.id = BlockKind.module.id then before + records.countP declaresValue else before
    match countAll blocks declared b with
    | none => none
    | some (inner, b) =>
      let (after, b) :=
        match BlockKind.ofId? header.id with
        | some .constants => (inner + records.countP definesConstant, b)
        | some .function => (before, b.addFunction inner records)
        | _ => (inner, b)
      if after < UInt32.size then some (after, b) else none

def countAll : List Block → (before : Nat) → ValueBudget → Option (Nat × ValueBudget)
  | [], before, b => some (before, b)
  | block :: blocks, before, b =>
    match count block before b with
    | none => none
    | some (after, b) => countAll blocks after b

end

/-- The budget of a module; `none` if it holds too many values. -/
def ofModule? (root : Block) : Option ValueBudget :=
  match count root 0 {} with
  | none => none
  | some (total, b) => some { b with capacity := max b.capacity total }

end ValueBudget

end Dxil
