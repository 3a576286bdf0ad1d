import Dxil.Function.Operation

/-!
# Dxil.Proofs.Shader.Machine

What the instructions on integers compute, on words of any width.

* `Datum` : a number of some bits.
* `Machine` : what the registers hold.
* `Opcode.results?` : the results of an instruction, in the order of its destinations.
* `Machine.exec?` : one instruction. `none` says that it is none of those on integers, or that an
  operand or a destination is not of the kind that it takes.
* `Machine.datum` : what a value of a function body stands for.
-/

namespace Dxil

structure Datum where
  width : Nat
  bits : BitVec width
  deriving DecidableEq

namespace Datum

def ofBool (b : Bool) : Datum := ⟨1, .ofBool b⟩

def word? (d : Datum) (width : Nat) : Option (BitVec width) :=
  if h : d.width = width then some (d.bits.cast h) else none

@[simp] theorem word?_mk {width : Nat} (x : BitVec width) :
    (⟨width, x⟩ : Datum).word? width = some x := by
  simp [word?]

end Datum

/-- What the components of registers hold: those of the single-assignment registers by number, and
those of the others, constants among them, by register. -/
structure Machine where
  ssa : UInt32 → (component : UInt32) → Datum
  storage : Register → (component : UInt32) → Datum

/-- A negated operand is negated modulo what its width can count. The other modifiers are for floats
only. -/
def SrcModifier.apply? {width : Nat} : SrcModifier → BitVec width → Option (BitVec width)
  | .none, x => some x
  | .neg, x => some (-x)
  | .abs, _ | .absNeg, _ => Option.none

/-- The results of an instruction on two words. A product has its high half first, and a division
its quotient. Only the low bits of the amount of a shift count. -/
def Opcode.results? {width : Nat} (opcode : Opcode) (x y : BitVec width) : Option (List Datum) :=
  match opcode with
  | .iAdd => some [⟨width, x + y⟩]
  | .iMul =>
    let product := x.signExtend (2 * width) * y.signExtend (2 * width)
    some [⟨width, (product >>> width).setWidth width⟩, ⟨width, product.setWidth width⟩]
  | .uDiv => if y = .ofNat width 0 then none else some [⟨width, x.udiv y⟩, ⟨width, x.umod y⟩]
  | .iDiv => if y = .ofNat width 0 then none else some [⟨width, x.sdiv y⟩, ⟨width, x.srem y⟩]
  | .iShl => some [⟨width, x.shiftLeft (y.toNat % width)⟩]
  | .uShr => some [⟨width, x.ushiftRight (y.toNat % width)⟩]
  | .iShr => some [⟨width, x.sshiftRight (y.toNat % width)⟩]
  | .and => some [⟨width, x &&& y⟩]
  | .or => some [⟨width, x ||| y⟩]
  | .xor => some [⟨width, x ^^^ y⟩]
  | .iEq => some [.ofBool (decide (x = y))]
  | .iNe => some [.ofBool (decide (x ≠ y))]
  | .iLt => some [.ofBool (x.slt y)]
  | .iGe => some [.ofBool (!x.slt y)]
  | .uLt => some [.ofBool (x.ult y)]
  | .uGe => some [.ofBool (!x.ult y)]
  | _ => none

namespace Machine

def contents (m : Machine) (r : Register) (component : UInt32) : Datum :=
  match r.type, r.indices with
  | .ssa, [index] => m.ssa index.offset component
  | _, _ => m.storage r component

/-- The word that an operand reads for the first component of a result. -/
def read? (m : Machine) (width : Nat) (src : SrcParam) : Option (BitVec width) := do
  let x ← (m.contents src.register (src.swizzle.component 0)).word? width
  src.modifier.apply? x

def assign (m : Machine) (number : UInt32) (d : Datum) : Machine :=
  { m with ssa := fun n c => if n = number ∧ c = 0 then d else m.ssa n c }

/-- Write a result to the first component of its destination, unless it is discarded. -/
def write? (m : Machine) (dst : DstParam) (d : Datum) : Option Machine :=
  match dst.register.type, dst.register.indices with
  | .null, _ => some m
  | .ssa, [index] => if dst.mask = WriteMask.x then some (m.assign index.offset d) else none
  | _, _ => none

def writeAll? (m : Machine) : List DstParam → List Datum → Option Machine
  | [], [] => some m
  | dst :: dsts, d :: ds => do
    let m ← m.write? dst d
    m.writeAll? dsts ds
  | _, _ => none

def exec? (m : Machine) (width : Nat) (i : Instruction) : Option Machine :=
  match i.src with
  | [a, b] => do
    let x ← m.read? width a
    let y ← m.read? width b
    let results ← i.opcode.results? x y
    m.writeAll? i.dst results
  | _ => none

/-- What a value stands for: the first component that it is read with. -/
def datum (m : Machine) (v : Value) : Datum :=
  m.contents v.source.register (v.source.swizzle.component 0)

end Machine

theorem Value.modifier_source (v : Value) : v.source.modifier = .none := by
  unfold Value.source
  cases v.kind <;> rfl

/-- The result `d` is the one of `results` that stands in a place. -/
def ResultPlace.Picks (d : Datum) (results : List Datum) : ResultPlace → Prop
  | only => results = [d]
  | first => ∃ other, results = [d, other]
  | second => ∃ other, results = [other, d]

namespace Machine

variable {m : Machine} {width : Nat}

theorem read?_source {v : Value} {x : BitVec width} (h : m.datum v = ⟨width, x⟩) :
    m.read? width v.source = some x := by
  rw [datum] at h
  simp [read?, h, v.modifier_source, SrcModifier.apply?]

theorem read?_neg_source {v : Value} {x : BitVec width} (h : m.datum v = ⟨width, x⟩) :
    m.read? width { v.source with modifier := .neg } = some (-x) := by
  rw [datum] at h
  simp [read?, h, SrcModifier.apply?]

@[simp] theorem write?_discarded (d : Datum) : m.write? .discarded d = some m := rfl

/-- The other result, if there is one, is discarded. -/
theorem writeAll?_destinations {dst : DstParam} {d : Datum} {m' : Machine} {place : ResultPlace}
    {results : List Datum} (hpicks : place.Picks d results) (h : m.write? dst d = some m') :
    m.writeAll? (place.destinations dst) results = some m' := by
  cases place with
  | only =>
    obtain rfl := hpicks
    simp [ResultPlace.destinations, writeAll?, h]
  | first =>
    obtain ⟨other, rfl⟩ := hpicks
    simp [ResultPlace.destinations, writeAll?, h]
  | second =>
    obtain ⟨other, rfl⟩ := hpicks
    simp [ResultPlace.destinations, writeAll?, h]

theorem exec?_instruction {op : Operation} {a b : SrcParam} {x y : BitVec width} {d : Datum}
    {results : List Datum} (hcomponents : op.components = 1) (hsrc : op.src = [a, b])
    (hx : m.read? width a = some x) (hy : m.read? width b = some y)
    (hresults : op.opcode.results? x y = some results) (hpicks : op.place.Picks d results)
    (data : DataType) (number : UInt32) (location : Location) :
    m.exec? width (op.instruction data number location) = some (m.assign number d) := by
  have hmask : WriteMask.ofRange 0 op.components = .x := by
    rw [hcomponents]
    decide
  have hwrite : m.write? { register := op.register data number, mask := .ofRange 0 op.components } d
      = some (m.assign number d) := by
    rw [hmask]
    rfl
  simp only [exec?, Operation.instruction, hsrc]
  simp [hx, hy, hresults, writeAll?_destinations hpicks hwrite]

theorem datum_value_assign {op : Operation} (hcomponents : op.components = 1) (data : DataType)
    (number : UInt32) (d : Datum) : (m.assign number d).datum (op.value data number) = d := by
  have hswizzle : (op.value data number).source.swizzle.component 0 = 0 := by
    simp only [Operation.value, Value.source, SrcParam.ofRegister, Operation.register, hcomponents]
    decide
  rw [datum, hswizzle]
  simp [Operation.value, Value.source, SrcParam.ofRegister, Operation.register, contents, assign]

theorem ssa_assign_of_ne {number n : UInt32} (h : n ≠ number) (d : Datum) (component : UInt32) :
    (m.assign number d).ssa n component = m.ssa n component :=
  if_neg fun hsame => h hsame.1

end Machine

end Dxil
