import Dxil.Proofs.Function.Body
import Dxil.Proofs.Shader.Machine

/-!
# Dxil.Proofs.Function.IntegerMeaning

Calculations with integers and comparisons of them keep their meaning when they are lowered.

The meaning is that of the numbers that the words stand for, signed or unsigned, cut to the width.
The machine of the shader computes with the words themselves, has no subtraction and no remainder of
its own, and compares in one direction only.

* `BinaryOp.value?`, `Predicate.holds?` : the meaning of an operation.
* `BinaryOp.exists_results`, `Predicate.results?_of_holds?` : the machine computes it.
* `BodyState.step_computes` : the instruction that a record is lowered to leaves it in the register
  of the record's value.
-/

namespace Dxil

/-! ## Meaning -/

/-- Signed division has no result by zero, nor where the quotient of the least integer by -1 would
be too large. -/
def DivisionUndefined {width : Nat} (x y : BitVec width) : Prop :=
  y.toInt = 0 ∨ x.toInt = -(Nat.pow 2 (width - 1) : Nat) ∧ y.toInt = -1

instance {width : Nat} (x y : BitVec width) : Decidable (DivisionUndefined x y) :=
  inferInstanceAs (Decidable (_ ∨ _))

/-- What an operation on integers gives, if it is defined. Division goes toward zero, and an
arithmetic shift to the right toward negative infinity. -/
def BinaryOp.value? {width : Nat} (op : BinaryOp) (x y : BitVec width) : Option (BitVec width) :=
  match op with
  | .add => some (.ofInt width (x.toInt + y.toInt))
  | .sub => some (.ofInt width (x.toInt - y.toInt))
  | .mul => some (.ofInt width (x.toInt * y.toInt))
  | .uDiv => if y.toNat = 0 then none else some (.ofNat width (x.toNat / y.toNat))
  | .sDiv => if DivisionUndefined x y then none else some (.ofInt width (x.toInt.tdiv y.toInt))
  | .uRem => if y.toNat = 0 then none else some (.ofNat width (x.toNat % y.toNat))
  | .sRem => if DivisionUndefined x y then none else some (.ofInt width (x.toInt.tmod y.toInt))
  | .shl => if y.toNat < width then some (.ofNat width (x.toNat * Nat.pow 2 y.toNat)) else none
  | .lShr => if y.toNat < width then some (.ofNat width (x.toNat / Nat.pow 2 y.toNat)) else none
  | .aShr =>
    if y.toNat < width then some (.ofInt width (x.toInt / (Nat.pow 2 y.toNat : Nat))) else none
  | .and => some (.ofNat width (x.toNat &&& y.toNat))
  | .or => some (.ofNat width (x.toNat ||| y.toNat))
  | .xor => some (.ofNat width (x.toNat ^^^ y.toNat))

/-- Whether a predicate holds of two integers; `none` if it is one on floats. -/
def Predicate.holds? {width : Nat} (p : Predicate) (x y : BitVec width) : Option Bool :=
  match p with
  | .intEq => some (decide (x.toNat = y.toNat))
  | .intNe => some (decide (x.toNat ≠ y.toNat))
  | .intUgt => some (decide (y.toNat < x.toNat))
  | .intUge => some (decide (y.toNat ≤ x.toNat))
  | .intUlt => some (decide (x.toNat < y.toNat))
  | .intUle => some (decide (x.toNat ≤ y.toNat))
  | .intSgt => some (decide (y.toInt < x.toInt))
  | .intSge => some (decide (y.toInt ≤ x.toInt))
  | .intSlt => some (decide (x.toInt < y.toInt))
  | .intSle => some (decide (x.toInt ≤ y.toInt))
  | _ => none

/-! ## The machine -/

/-- The lower half of a product is that of the signed numbers, and of the unsigned ones as well. -/
theorem setWidth_product {width : Nat} (x y : BitVec width) :
    (x.signExtend (2 * width) * y.signExtend (2 * width)).setWidth width =
      .ofInt width (x.toInt * y.toInt) := by
  have hself (v : BitVec width) : (v.signExtend (2 * width)).setWidth width = v := by
    ext i hi
    simp [hi, BitVec.getLsbD_signExtend]
    omega
  rw [BitVec.setWidth_mul _ _ (by omega), hself, hself, BitVec.ofInt_mul, BitVec.ofInt_toInt,
    BitVec.ofInt_toInt]

namespace Opcode

variable {width : Nat} {x y : BitVec width}

theorem results?_iAdd :
    iAdd.results? x y = some [⟨width, .ofInt width (x.toInt + y.toInt)⟩] := by
  rw [BitVec.ofInt_add, BitVec.ofInt_toInt, BitVec.ofInt_toInt]
  rfl

theorem results?_iAdd_neg :
    iAdd.results? x (-y) = some [⟨width, .ofInt width (x.toInt - y.toInt)⟩] := by
  rw [Int.sub_eq_add_neg, BitVec.ofInt_add, BitVec.ofInt_neg, BitVec.ofInt_toInt,
    BitVec.ofInt_toInt]
  rfl

theorem results?_iMul :
    ∃ high, iMul.results? x y = some [high, ⟨width, .ofInt width (x.toInt * y.toInt)⟩] := by
  rw [← setWidth_product]
  exact ⟨_, rfl⟩

theorem results?_uDiv (h : y.toNat ≠ 0) :
    uDiv.results? x y = some [⟨width, .ofNat width (x.toNat / y.toNat)⟩,
      ⟨width, .ofNat width (x.toNat % y.toNat)⟩] := by
  have hquotient : x.udiv y = .ofNat width (x.toNat / y.toNat) := by
    rw [← BitVec.toNat_udiv, BitVec.ofNat_toNat, BitVec.setWidth_eq]
    rfl
  have hremainder : x.umod y = .ofNat width (x.toNat % y.toNat) := by
    rw [← BitVec.toNat_umod, BitVec.ofNat_toNat, BitVec.setWidth_eq]
    rfl
  rw [← hquotient, ← hremainder]
  exact if_neg fun hzero => h (congrArg BitVec.toNat hzero)

theorem results?_iDiv (h : ¬ DivisionUndefined x y) :
    iDiv.results? x y = some [⟨width, .ofInt width (x.toInt.tdiv y.toInt)⟩,
      ⟨width, .ofInt width (x.toInt.tmod y.toInt)⟩] := by
  have hquotient : x.sdiv y = .ofInt width (x.toInt.tdiv y.toInt) := by
    apply BitVec.eq_of_toInt_eq
    rw [BitVec.toInt_sdiv, BitVec.toInt_ofInt]
  have hremainder : x.srem y = .ofInt width (x.toInt.tmod y.toInt) := by
    rw [← BitVec.toInt_srem, BitVec.ofInt_toInt]
  rw [← hquotient, ← hremainder]
  refine if_neg fun hzero => h (.inl ?_)
  rw [hzero, BitVec.toInt_zero]

section

variable (h : y.toNat < width)
include h

theorem results?_iShl :
    iShl.results? x y = some [⟨width, .ofNat width (x.toNat * Nat.pow 2 y.toNat)⟩] := by
  have hshift : x.shiftLeft y.toNat = .ofNat width (x.toNat * Nat.pow 2 y.toNat) := by
    apply BitVec.eq_of_toNat_eq
    rw [BitVec.toNat_ofNat]
    exact BitVec.toNat_shiftLeft.trans (congrArg (· % _) (Nat.shiftLeft_eq _ _))
  simp only [results?, Nat.mod_eq_of_lt h, hshift]

theorem results?_uShr :
    uShr.results? x y = some [⟨width, .ofNat width (x.toNat / Nat.pow 2 y.toNat)⟩] := by
  have hshift : (x.ushiftRight y.toNat).toNat = x.toNat / Nat.pow 2 y.toNat :=
    (BitVec.toNat_ushiftRight x y.toNat).trans (Nat.shiftRight_eq_div_pow _ _)
  rw [← hshift, BitVec.ofNat_toNat, BitVec.setWidth_eq]
  simp only [results?, Nat.mod_eq_of_lt h]

theorem results?_iShr :
    iShr.results? x y =
      some [⟨width, .ofInt width (x.toInt / (Nat.pow 2 y.toNat : Nat))⟩] := by
  have hshift : (x.sshiftRight y.toNat).toInt = x.toInt / (Nat.pow 2 y.toNat : Nat) :=
    BitVec.toInt_sshiftRight.trans (Int.shiftRight_eq_div_pow _ _)
  rw [← hshift, BitVec.ofInt_toInt]
  simp only [results?, Nat.mod_eq_of_lt h]

end

theorem results?_and :
    and.results? x y = some [⟨width, .ofNat width (x.toNat &&& y.toNat)⟩] := by
  rw [← BitVec.toNat_and, BitVec.ofNat_toNat, BitVec.setWidth_eq]
  rfl

theorem results?_or :
    or.results? x y = some [⟨width, .ofNat width (x.toNat ||| y.toNat)⟩] := by
  rw [← BitVec.toNat_or, BitVec.ofNat_toNat, BitVec.setWidth_eq]
  rfl

theorem results?_xor :
    xor.results? x y = some [⟨width, .ofNat width (x.toNat ^^^ y.toNat)⟩] := by
  rw [← BitVec.toNat_xor, BitVec.ofNat_toNat, BitVec.setWidth_eq]
  rfl

end Opcode

/-! ## Operations -/

def BinaryOp.second {width : Nat} (op : BinaryOp) (y : BitVec width) : BitVec width :=
  if op = .sub then -y else y

theorem BinaryOp.exists_results {width : Nat} {op : BinaryOp} {x y z : BitVec width}
    (h : op.value? x y = some z) :
    ∃ results, op.intOpcode.results? x (op.second y) = some results ∧
      (op.place op.intOpcode).Picks ⟨width, z⟩ results := by
  cases op with
  | add =>
    cases h
    exact ⟨_, Opcode.results?_iAdd, rfl⟩
  | sub =>
    cases h
    exact ⟨_, Opcode.results?_iAdd_neg, rfl⟩
  | mul =>
    cases h
    obtain ⟨high, hresults⟩ := Opcode.results?_iMul (x := x) (y := y)
    exact ⟨_, hresults, high, rfl⟩
  | uDiv | uRem =>
    obtain ⟨hne, hz⟩ := Option.ite_none_left_eq_some.mp h
    cases hz
    exact ⟨_, Opcode.results?_uDiv hne, _, rfl⟩
  | sDiv | sRem =>
    obtain ⟨hdefined, hz⟩ := Option.ite_none_left_eq_some.mp h
    cases hz
    exact ⟨_, Opcode.results?_iDiv hdefined, _, rfl⟩
  | shl =>
    obtain ⟨hlt, hz⟩ := Option.ite_none_right_eq_some.mp h
    cases hz
    exact ⟨_, Opcode.results?_iShl hlt, rfl⟩
  | lShr =>
    obtain ⟨hlt, hz⟩ := Option.ite_none_right_eq_some.mp h
    cases hz
    exact ⟨_, Opcode.results?_uShr hlt, rfl⟩
  | aShr =>
    obtain ⟨hlt, hz⟩ := Option.ite_none_right_eq_some.mp h
    cases hz
    exact ⟨_, Opcode.results?_iShr hlt, rfl⟩
  | and =>
    cases h
    exact ⟨_, Opcode.results?_and, rfl⟩
  | or =>
    cases h
    exact ⟨_, Opcode.results?_or, rfl⟩
  | xor =>
    cases h
    exact ⟨_, Opcode.results?_xor, rfl⟩

theorem Predicate.exists_opcode? {p : Predicate} (h : p.isFloat = false) :
    ∃ opcode swapped, p.opcode? false = some (opcode, swapped) := by
  cases p <;> first | exact ⟨_, _, rfl⟩ | cases h

theorem Predicate.results?_of_holds? {width : Nat} {p : Predicate} {isDouble : Bool}
    {opcode : Opcode} {swapped : Bool} (hopcode : p.opcode? isDouble = some (opcode, swapped))
    {x y : BitVec width} {b : Bool} (h : p.holds? x y = some b) :
    opcode.results? (if swapped then y else x) (if swapped then x else y) =
      some [.ofBool b] := by
  cases p with
  | intEq | intNe =>
    cases hopcode
    cases h
    simp [Opcode.results?, BitVec.toNat_inj]
  | intUgt | intUlt | intSgt | intSlt =>
    cases hopcode
    cases h
    simp [Opcode.results?, BitVec.ult_eq_decide, BitVec.slt_eq_decide]
  | intUge | intUle | intSge | intSle =>
    cases hopcode
    cases h
    simp [Opcode.results?, BitVec.ult_eq_decide, BitVec.slt_eq_decide, ← decide_not]
  | _ => cases h

/-- An operation on two integers that a record may stand for. -/
inductive IntegerOp where
  | calculation (op : BinaryOp)
  | comparison (p : Predicate)

def IntegerOp.value? {width : Nat} (x y : BitVec width) : IntegerOp → Option Datum
  | .calculation op => (op.value? x y).map (Datum.mk width)
  | .comparison p => (p.holds? x y).map Datum.ofBool

/-- The instruction of `o` sets its register to what `op` gives on the words of two values. -/
def Operation.Computes (o : Operation) (op : IntegerOp) (a b : Value) : Prop :=
  ∀ (width : Nat) (m : Machine) (x y : BitVec width) (d : Datum), m.datum a = ⟨width, x⟩ →
    m.datum b = ⟨width, y⟩ → op.value? x y = some d → ∀ data number location,
      m.exec? width (o.instruction data number location) = some (m.assign number d)

theorem BinaryOp.operation_computes (op : BinaryOp) (flags : UInt64) (a b : Value) :
    (op.operation op.intOpcode flags a b).Computes (.calculation op) a b := by
  intro width m x y d hx hy hvalue data number location
  obtain ⟨z, hz, rfl⟩ := Option.map_eq_some_iff.mp hvalue
  obtain ⟨results, hresults, hpicks⟩ := exists_results hz
  have hsecond :
      m.read? width (if op = .sub then { b.source with modifier := .neg } else b.source) =
        some (op.second y) := by
    unfold second
    split
    · exact Machine.read?_neg_source hy
    · exact Machine.read?_source hy
  exact Machine.exec?_instruction rfl rfl (Machine.read?_source hx) hsecond hresults hpicks data
    number location

theorem Predicate.operation_computes {p : Predicate} {isDouble : Bool} {opcode : Opcode}
    {swapped : Bool} (hopcode : p.opcode? isDouble = some (opcode, swapped)) (flags : UInt64)
    (type : Option TypeId) (a b : Value) :
    (p.operation opcode swapped flags type a b).Computes (.comparison p) a b := by
  intro width m x y d hx hy hvalue data number location
  obtain ⟨holds, hholds, rfl⟩ := Option.map_eq_some_iff.mp hvalue
  have hresults := results?_of_holds? hopcode hholds
  have hpicks : ResultPlace.only.Picks (.ofBool holds) [.ofBool holds] := rfl
  have hx := Machine.read?_source hx
  have hy := Machine.read?_source hy
  cases swapped with
  | false => exact Machine.exec?_instruction rfl rfl hx hy hresults hpicks data number location
  | true => exact Machine.exec?_instruction rfl rfl hy hx hresults hpicks data number location

/-! ## Records -/

/-- The number by which a record asks for an operation. -/
def BinaryOp.number : BinaryOp → Nat
  | add => 0
  | sub => 1
  | mul => 2
  | uDiv => 3
  | sDiv => 4
  | uRem => 5
  | sRem => 6
  | shl => 7
  | lShr => 8
  | aShr => 9
  | and => 10
  | or => 11
  | xor => 12

theorem BinaryOp.ofNat?_number (op : BinaryOp) : ofNat? op.number = some op := by
  cases op <;> rfl

def Predicate.integerNumber? : Predicate → Option Nat
  | intEq => some 32
  | intNe => some 33
  | intUgt => some 34
  | intUge => some 35
  | intUlt => some 36
  | intUle => some 37
  | intSgt => some 38
  | intSge => some 39
  | intSlt => some 40
  | intSle => some 41
  | _ => none

theorem Predicate.ofNat?_integerNumber? {p : Predicate} {n : Nat} (h : p.integerNumber? = some n) :
    ofNat? n = some p ∧ p.isFloat = false := by
  cases p <;> cases h <;> exact ⟨rfl, rfl⟩

/-- A record stands for an operation. For a comparison, which gives a truth value, the module must
have a type of one bit. -/
inductive IntegerOp.EncodedBy (types : TypeTable) (r : Record) : IntegerOp → Prop where
  | calculation {code : UInt64} {op : BinaryOp} (hkind : r.code = 2)
      (hcode : r.operands[2]? = some code) (hop : code.toNat = op.number) :
      EncodedBy types r (.calculation op)
  | comparison {code : UInt64} {p : Predicate} (hkind : r.code = 28)
      (hcode : r.operands[2]? = some code) (hp : p.integerNumber? = some code.toNat)
      (hbool : types.boolType.bind types.get? = some (.int 1)) :
      EncodedBy types r (.comparison p)

theorem TypeTable.dataTypeOf_int {types : TypeTable} {type : Option TypeId} {width : Nat}
    (h : type.bind types.get? = some (.int width)) :
    types.dataTypeOf type = some (Ty.int width).dataType := by
  obtain ⟨id, rfl, hget⟩ := Option.bind_eq_some_iff.mp h
  simp [dataTypeOf, scalar, scalarId, hget, Ty.isAggregate, walk, Ty.next?]

section

variable {scope : FunctionScope} {values : Values} {r : Record} {a b : Value} {width : Nat}
  (ha : Refers scope values r 0 a) (hb : Refers scope values r 1 b)
  (htype : a.type.bind scope.types.get? = some (.int width)) (hwidth : width = 32 ∨ width = 64)
  {code : UInt64} (hcode : r.operands[2]? = some code)
include ha hb htype hwidth hcode

theorem Lowers.calculation {op : BinaryOp} (hop : BinaryOp.ofNat? code.toNat = some op) :
    Lowers scope values r .binary
      (.operation (op.operation op.intOpcode (r.operands.getD 3 0) a b)) := by
  have hoperands : (a.type.bind scope.types.get?).bind Ty.operandClass? = some .int := by
    rw [htype]
    rcases hwidth with rfl | rfl <;> rfl
  exact .binary ha hb hcode hop hoperands rfl

theorem Lowers.integerComparison {p : Predicate} (hp : Predicate.ofNat? code.toNat = some p)
    (hinteger : p.isFloat = false) {opcode : Opcode} {swapped : Bool}
    (hopcode : p.opcode? false = some (opcode, swapped)) (hbool : scope.types.boolType.isSome) :
    Lowers scope values r .compare
      (.operation (p.operation opcode swapped (r.operands.getD 3 0) scope.types.boolType a b)) := by
  have hnumber : Ty.isArithmeticInteger (.int width) = true := by
    rcases hwidth with rfl | rfl <;> rfl
  refine .comparison ha hb hcode hp htype (.inl hnumber) ?_ ?_ hbool
  · rw [hnumber, hinteger]
    rfl
  · simpa using hopcode

end

namespace BodyState

variable {scope : FunctionScope} {s : BodyState} {r : Record}

theorem exists_step_of_lowers {code : FunctionCode} {o : Operation} {data : DataType}
    (hreturned : s.returned = false) (hcode : FunctionCode.ofNat? r.code.toNat = some code)
    (hmath : code.isMath = true) (hl : Lowers scope s.values r code (.operation o))
    (hdata : scope.types.dataTypeOf o.type = some data) (blockCount : Nat) (p : Progress) :
    ∃ s' p', s.step scope blockCount r p = .ok s' p' ∧
      s'.instructions = s.instructions.push (o.instruction data s.ssaCount p.location) ∧
      s'.values = s.values.push (o.value data s.ssaCount) := by
  obtain ⟨x, hx⟩ : ∃ x, lowering? scope s.values r code = some x := by
    cases code with
    | binary | compare => exact ⟨_, rfl⟩
    | _ => cases hmath
  have habides := Abides.lowering hx
  obtain ⟨l, p', hrun⟩ := habides.exists_ok (fun _ hup => hup.math hmath _ hl)
    (fun hdangles => hdangles.2 hmath _ hl) p
  obtain rfl := Lowers.unique hmath (habides.gives p l p' hrun) hl
  have hattempt : attempt x p = .ok (.ok (.operation o)) p' := by
    unfold attempt
    rw [hrun]
  have hcall : code ≠ .call := by
    rintro rfl
    cases hmath
  refine ⟨{ s.define (code = .call) (o.value data s.ssaCount) with
    instructions := s.instructions.push (o.instruction data s.ssaCount p.location)
    ssaCount := s.ssaCount + 1 }, p', ?_, rfl, ?_⟩
  · rw [step_of_lowering hreturned hcode hx]
    unfold lower
    rw [bind_of_ok (show here p = .ok p.location p from rfl), bind_of_ok hattempt, emit, hdata]
    rfl
  · simp [define, hcall]

/-- What `op` gives on the words of `a` and `b` is, after the instruction `i`, in the
single-assignment register of `v`, and no other register has changed. -/
structure Refines (s : BodyState) (op : IntegerOp) (width : Nat) (a b : Value) (i : Instruction)
    (v : Value) : Prop where
  destination : ∃ register dst, v.kind = .register register ∧ register.type = .ssa ∧
    dst ∈ i.dst ∧ dst.register = register
  computes : ∀ (m : Machine) (x y : BitVec width) (d : Datum), m.datum a = ⟨width, x⟩ →
    m.datum b = ⟨width, y⟩ → op.value? x y = some d →
    ∃ m', m.exec? width i = some m' ∧ m'.datum v = d ∧ m'.storage = m.storage ∧
      ∀ n, n ≠ s.ssaCount → m'.ssa n = m.ssa n

theorem refines_of_computes {o : Operation} {op : IntegerOp} {a b : Value}
    (hcomponents : o.components = 1) (h : o.Computes op a b) (width : Nat) (data : DataType)
    (location : Location) :
    s.Refines op width a b (o.instruction data s.ssaCount location) (o.value data s.ssaCount) where
  destination := by
    refine ⟨_, ⟨o.register data s.ssaCount, .ofRange 0 o.components⟩, rfl, rfl, ?_, rfl⟩
    unfold Operation.instruction ResultPlace.destinations
    cases o.place <;> simp
  computes m x y d hx hy hvalue :=
    ⟨m.assign s.ssaCount d, h width m x y d hx hy hvalue data s.ssaCount location,
      Machine.datum_value_assign hcomponents data s.ssaCount d, rfl,
      fun _ hn => funext fun component => Machine.ssa_assign_of_ne hn d component⟩

/-- A record for an operation on two integers is lowered to an instruction that leaves in the
register of the record's value what the operation gives on those integers. -/
theorem step_computes {width : Nat} (hwidth : width = 32 ∨ width = 64) {op : IntegerOp}
    (hreturned : s.returned = false) (hop : op.EncodedBy scope.types r) {a b : Value}
    (ha : Refers scope s.values r 0 a) (hb : Refers scope s.values r 1 b)
    (htype : a.type.bind scope.types.get? = some (.int width)) (blockCount : Nat) (p : Progress) :
    ∃ s' p' i v, s.step scope blockCount r p = .ok s' p' ∧
      s'.instructions = s.instructions.push i ∧ s'.values = s.values.push v ∧
      s.Refines op width a b i v := by
  cases hop with
  | @calculation code op hkind hcode hnumber =>
    have hop : BinaryOp.ofNat? code.toNat = some op := hnumber ▸ op.ofNat?_number
    have hkind : FunctionCode.ofNat? r.code.toNat = some .binary := by rw [hkind]; rfl
    obtain ⟨s', p', hrun, hi, hv⟩ := exists_step_of_lowers hreturned hkind rfl
      (.calculation ha hb htype hwidth hcode hop) (TypeTable.dataTypeOf_int htype) blockCount p
    have hcomputes := op.operation_computes (r.operands.getD 3 0) a b
    exact ⟨s', p', _, _, hrun, hi, hv, refines_of_computes rfl hcomputes width _ _⟩
  | @comparison code predicate hkind hcode hnumber hbool =>
    obtain ⟨hp, hinteger⟩ := Predicate.ofNat?_integerNumber? hnumber
    obtain ⟨opcode, swapped, hopcode⟩ := predicate.exists_opcode? hinteger
    have hisSome : scope.types.boolType.isSome = true := by
      obtain ⟨id, hid, -⟩ := Option.bind_eq_some_iff.mp hbool
      rw [hid]
      rfl
    have hkind : FunctionCode.ofNat? r.code.toNat = some .compare := by rw [hkind]; rfl
    obtain ⟨s', p', hrun, hi, hv⟩ := exists_step_of_lowers hreturned hkind rfl
      (.integerComparison ha hb htype hwidth hcode hp hinteger hopcode hisSome)
      (TypeTable.dataTypeOf_int hbool) blockCount p
    have hcomputes := Predicate.operation_computes hopcode (r.operands.getD 3 0)
      scope.types.boolType a b
    exact ⟨s', p', _, _, hrun, hi, hv, refines_of_computes rfl hcomputes width _ _⟩

end BodyState

def integerScope : FunctionScope :=
  { types := { types := #[.int 1, .int 32], boolType := some 0 }, descriptors := [], inputs := []
    outputs := [], inputParams := [], outputParams := [], bound := 3 }

def wordConstant (x : UInt32) : Value :=
  { type := some 1
    kind := .register { type := .immConst, data := .uint, immediate := .words x 0 0 0 } }

/-- A body that has come to the integers -7 and 2. -/
def integerState : BodyState := { values := #[wordConstant 0xfffffff9, wordConstant 2] }

def Immediate.datum : Immediate → Datum
  | words x _ _ _ => ⟨32, x.toBitVec⟩
  | quads x _ => ⟨64, x.toBitVec⟩

def Machine.ofConstants : Machine :=
  { ssa := fun _ _ => .ofBool false, storage := fun r _ => r.immediate.datum }

def remainderRecord : Record := { code := 2, operands := [2, 1, 6] }

def greaterRecord : Record := { code := 28, operands := [1, 2, 38] }

/-- What is left when -7 is divided by 2 is -1, which is the second result of the division, and 2 is
greater than -7, which is decided with the operands swapped. -/
theorem BodyState.step_computes_remainder :
    (∃ s' p' i v, integerState.step integerScope 1 remainderRecord
        { location := { source := defaultSourceName } } = .ok s' p' ∧
      s'.instructions = integerState.instructions.push i ∧ s'.values = integerState.values.push v ∧
      ∃ m', Machine.ofConstants.exec? 32 i = some m' ∧ m'.datum v = ⟨32, 0xffffffff#32⟩) ∧
    ∃ s' p' i v, integerState.step integerScope 1 greaterRecord
        { location := { source := defaultSourceName } } = .ok s' p' ∧
      s'.instructions = integerState.instructions.push i ∧ s'.values = integerState.values.push v ∧
      ∃ m', Machine.ofConstants.exec? 32 i = some m' ∧ m'.datum v = .ofBool true := by
  have hminus (r : Record) (i : Nat) (h : r.operands[i]? = some 2) :
      Refers integerScope integerState.values r i (wordConstant 0xfffffff9) :=
    ⟨2, h, by decide, rfl⟩
  have htwo (r : Record) (i : Nat) (h : r.operands[i]? = some 1) :
      Refers integerScope integerState.values r i (wordConstant 2) :=
    ⟨1, h, by decide, rfl⟩
  have hremainder : IntegerOp.EncodedBy integerScope.types remainderRecord (.calculation .sRem) :=
    .calculation rfl rfl rfl
  have hgreater : IntegerOp.EncodedBy integerScope.types greaterRecord (.comparison .intSgt) :=
    .comparison rfl rfl rfl rfl
  constructor
  · obtain ⟨s', p', i, v, hstep, hi, hv, hrefines⟩ := step_computes (.inl rfl) rfl hremainder
      (hminus remainderRecord 0 rfl) (htwo remainderRecord 1 rfl) rfl 1 _
    obtain ⟨m', hexec, hd, -⟩ :=
      hrefines.computes .ofConstants 0xfffffff9#32 2#32 _ rfl rfl rfl
    refine ⟨s', p', i, v, hstep, hi, hv, m', hexec, hd.trans ?_⟩
    decide
  · obtain ⟨s', p', i, v, hstep, hi, hv, hrefines⟩ := step_computes (.inl rfl) rfl hgreater
      (htwo greaterRecord 0 rfl) (hminus greaterRecord 1 rfl) rfl 1 _
    obtain ⟨m', hexec, hd, -⟩ :=
      hrefines.computes .ofConstants 2#32 0xfffffff9#32 _ rfl rfl rfl
    refine ⟨s', p', i, v, hstep, hi, hv, m', hexec, hd.trans ?_⟩
    decide

end Dxil
