import Dxil.Function.Body
import Dxil.Module.Constants

/-!
# Dxil.Module.Functions

The function bodies of a module, with the constants that only they use. The values of a body end
with it.

* `Functions.decode` : a block, after everything in it.
-/

namespace Dxil

namespace Functions

structure State where
  pool : ConstantPool
  /-- The function body, once it was met. -/
  body : Option FunctionBody := none

/-- The body in a function block. A module has one at the most. -/
def decodeBody (scope : FunctionScope) (s : State) (block : Block) : Decoder FunctionBody :=
  match s.body with
  | some _ => reject .multipleFunctions
  | none => FunctionBody.decode scope s.pool.values block

mutual

/-- The state after a block at a depth. Constants that stand in the module itself are known
already. -/
def decode (scope : FunctionScope) : (level : Nat) → State → Block → Decoder State
  | level, s, .mk header records blocks => do
    let inner ← decodeAll scope (level + 1) s blocks
    setLine header.id
    setColumn 0
    match BlockKind.ofId? header.id with
    | some .constants =>
      if 2 ≤ level then
        let pool ← Constants.decode scope.types inner.pool (.mk header records blocks)
        pure { inner with pool }
      else pure inner
    | some .function => do
      let body ← decodeBody scope inner (.mk header records blocks)
      -- The values of the body, and the constants before it, go out of scope.
      pure
        { pool := { inner.pool with values := inner.pool.values.take s.pool.values.size }
          body := some body }
    | _ => pure inner

def decodeAll (scope : FunctionScope) : (level : Nat) → State → List Block → Decoder State
  | _, s, [] => pure s
  | level, s, block :: blocks => do
    let s ← decode scope level s block
    decodeAll scope level s blocks

end

end Functions

end Dxil
