import Dxil.Function.Address
import Dxil.Function.Call
import Dxil.Function.Cast
import Dxil.Function.Comparison
import Dxil.Function.Selection

/-!
# Dxil.Function.Body

Function bodies. A module has at most one, without parameters and branches, so that its records
are lowered one after the other.

* `BodyState` : values, instructions and registers so far.
* `BodyState.step` : one more record. A record that cannot be lowered still defines its value,
  so that later references find theirs.
* `FunctionBody.decode`
-/

namespace Dxil

inductive FunctionCode where
  | declareBlocks
  | binary
  | cast
  | ret
  | br
  | switch
  | phi
  | alloca
  | load
  | extract
  | compare
  | select
  | call
  | atomicRmw
  | loadAtomic
  | gep
  | store
  | storeAtomic
  | cmpXchg
  deriving DecidableEq, Repr

def FunctionCode.ofNat? : Nat → Option FunctionCode
  | 1 => some declareBlocks
  | 2 => some binary
  | 3 => some cast
  | 10 => some ret
  | 11 => some br
  | 12 => some switch
  | 16 => some phi
  | 19 => some alloca
  | 20 => some load
  | 26 => some extract
  | 28 => some compare
  | 29 => some select
  | 34 => some call
  | 38 => some atomicRmw
  | 41 => some loadAtomic
  | 43 => some gep
  | 44 => some store
  | 45 => some storeAtomic
  | 46 => some cmpXchg
  | _ => none

def lowering? (scope : FunctionScope) (values : Values) (r : Record) :
    FunctionCode → Option (Decoder Lowered)
  | .binary => some (lowerBinary scope values r)
  | .cast => some (lowerCast scope values r)
  | .load => some (lowerLoad scope values r)
  | .extract => some (lowerExtract scope values r)
  | .compare => some (lowerComparison scope values r)
  | .select => some (lowerSelect scope values r)
  | .call => some (lowerCall scope values r)
  | .gep => some (lowerGep scope values r)
  | _ => none

structure BodyState where
  values : Values
  instructions : Array Instruction := #[]
  /-- Single-assignment registers used. -/
  ssaCount : UInt32 := 0
  returned : Bool := false

namespace BodyState

/-- Define a value. Calls, which may give none, define one only if it has a type. -/
def define (s : BodyState) (isCall : Bool) (v : Value) : BodyState :=
  if isCall && v.type.isNone then s else { s with values := s.values.push v }

/-- Emit what a record at a place was lowered to. One that was not lowered still defines its value,
which is undefined. -/
def emit (types : TypeTable) (location : Location) (isCall : Bool) (s : BodyState) :
    Except (Option TypeId) Lowered → Decoder BodyState
  | .ok (.value v) => pure (s.define isCall v)
  | .ok (.operation op) => do
    let data ← present (types.dataTypeOf op.type)
    pure
      { s.define isCall (op.value data s.ssaCount) with
        instructions := s.instructions.push (op.instruction data s.ssaCount location)
        ssaCount := s.ssaCount + 1 }
  | .ok (.store dst src type) =>
    pure
      { s.define isCall { type, kind := .register .unknown } with
        instructions :=
          s.instructions.push { opcode := .mov, location, dst := [dst], src := [src] } }
  | .error type => do
    let data ← present (types.dataTypeOf type)
    pure (s.define isCall (.undefined type data))

def lower (types : TypeTable) (isCall : Bool) (s : BodyState) (x : Decoder Lowered) :
    Decoder BodyState := do
  let location ← here
  s.emit types location isCall (← attempt x)

/-- A return. The value that it gives is ignored. -/
def ret (s : BodyState) (r : Record) : Decoder BodyState := do
  ignoreBeyond r 1
  reportIf (!r.operands.isEmpty) .returnValue
  pure { s with returned := true }

/-- The state after one more record of a body of `blockCount` blocks. Nothing comes after the
return. -/
def step (scope : FunctionScope) (blockCount : Nat) (s : BodyState) (r : Record) :
    Decoder BodyState :=
  if s.returned then reject (.recordAfterReturn blockCount)
  else
    match FunctionCode.ofNat? r.code.toNat with
    | some .ret => s.ret r
    | some code =>
      match lowering? scope s.values r code with
      | some x => s.lower scope.types (code = .call) x
      | none => reject (.instructionCode r.code)
    | none => reject (.instructionCode r.code)

end BodyState

structure FunctionBody where
  instructions : List Instruction := []
  ssaCount : UInt32 := 0
  deriving Repr

namespace FunctionBody

def isDefinition (types : TypeTable) (v : Value) : Option Bool := do
  let signature ← v.signature types
  pure (signature.isSome && v.function?.any fun decl => !decl.isPrototype)

def findDefinition (types : TypeTable) (values : Values) : Option (Option Nat) :=
  (List.range values.size).findM? fun i => do isDefinition types (← values[i]?)

def blockCount? (r : Record) : Option Nat :=
  match FunctionCode.ofNat? r.code.toNat, r.operands with
  | some .declareBlocks, count :: _ => if count.toNat < UInt32.size then some count.toNat else none
  | _, _ => none

/-- A body has a single block. -/
def checkBlockCount (r : Record) : Decoder Nat :=
  match blockCount? r with
  | none => reject .blockCountMissing
  | some 0 => reject .functionEmpty
  | some 1 => pure 1
  | some _ => reject .functionBranches

def decode (scope : FunctionScope) (values : Values) (block : Block) : Decoder FunctionBody := do
  let index ← orReject (← present (findDefinition scope.types values)) .definitionMissing
  let definition ← present values[index]?
  let signature ← present (definition.signature scope.types)
  rejectIf (signature.any fun (_, params) => !params.isEmpty) .functionParameters
  match block.records with
  | first :: second :: rest => do
    let blockCount ← checkBlockCount first
    let s ← foldRecords (fun s _ r => BodyState.step scope blockCount s r) 1 { values }
      (second :: rest)
    if s.returned then pure { instructions := s.instructions.toList, ssaCount := s.ssaCount }
    else reject .returnMissing
  | _ => reject .functionTooShort

end FunctionBody

end Dxil
