import Dxil.Proofs.Function.Emission

/-!
# Dxil.Proofs.Function.Precision

Calculations with floats and comparisons of them may be rearranged only if a flag of their record
says so, and are precise otherwise. Records without any flags are the exception.

* `Record.mathFlags` : the flags of a record.
* `BodyState.EmitsFloat` : the instruction that a record on floats is lowered to.
* `precise_iff` : which flags make it precise.
* `not_precise_without_flags` : the record that should be precise and is not.
-/

namespace Dxil

/-- The flags of a calculation or comparison. To leave them out means none. -/
def Record.mathFlags (r : Record) : UInt64 := r.operands.getD 3 0

/-- The instruction is to be computed as it is written. -/
def Instruction.IsPrecise (i : Instruction) : Prop := i.flags &&& preciseX ≠ 0

instance (i : Instruction) : Decidable i.IsPrecise := inferInstanceAs (Decidable (_ ≠ _))

/-- The first operand of a record is a float of some width. -/
def OnFloats (scope : FunctionScope) (values : Values) (r : Record) : Prop :=
  ∃ a width, Refers scope values r 0 a ∧ a.type.bind scope.types.get? = some (.float width)

/-- In state `s`, a calculation with floats or a comparison of them is lowered to `i`. -/
structure BodyState.EmitsFloat (scope : FunctionScope) (s : BodyState) (r : Record)
    (i : Instruction) : Prop where
  code : FunctionCode.ofNat? r.code.toNat = some .binary ∨
    FunctionCode.ofNat? r.code.toNat = some .compare
  floats : OnFloats scope s.values r
  emitted : ∃ blockCount s' p p', s.step scope blockCount r p = .ok s' p' ∧
    s'.instructions = s.instructions.push i

/-! ## Flags -/

/-- Flags that are left when some are cleared. -/
def ClearedFrom (flags' flags : UInt64) : Prop := flags' &&& flags = flags'

theorem ClearedFrom.and_eq_zero {flags' flags flag : UInt64} (h : ClearedFrom flags' flags)
    (hflag : flags &&& flag = 0) : flags' &&& flag = 0 := by
  rw [← h, UInt64.and_assoc, hflag, UInt64.and_zero]

theorem floatPrecision_and_preciseX {flags : UInt64} :
    floatPrecision flags &&& preciseX ≠ 0 ↔ flags ≠ 0 ∧ flags &&& rearrangeFlag = 0 := by
  unfold floatPrecision
  split
  · exact iff_of_true (by decide) ‹_›
  · exact iff_of_false (by decide) ‹_›

theorem BinaryOp.isFloatArithmetic_of_opcode? {op : BinaryOp} {operands : OperandClass}
    {opcode : Opcode} (hclass : operands = .float ∨ operands = .double)
    (h : op.opcode? operands = some opcode) : opcode.isFloatArithmetic = true := by
  rcases hclass with rfl | rfl <;> cases op <;> cases h <;> rfl

theorem Ty.operandClass?_float (width : Nat) :
    (float width).operandClass? = some .float ∨ (float width).operandClass? = some .double := by
  unfold operandClass?
  split <;> simp_all

/-! ## Lowering -/

theorem Lowers.flags_eq {scope : FunctionScope} {values : Values} {r : Record}
    {code : FunctionCode} {op : Operation} (h : Lowers scope values r code (.operation op))
    (hcode : code = .binary ∨ code = .compare) (hfloats : OnFloats scope values r) :
    op.flags = floatPrecision r.mathFlags := by
  obtain ⟨a, width, ha, htype⟩ := hfloats
  rcases hcode with rfl | rfl
  · cases h with
    | binary ha' _ _ _ hclass hopcode =>
      obtain rfl := ha.unique ha'
      rw [htype, Option.bind_some] at hclass
      refine if_pos (BinaryOp.isFloatArithmetic_of_opcode? ?_ hopcode)
      rcases Ty.operandClass?_float width with h | h
      · exact .inl (Option.some.inj (hclass.symm.trans h))
      · exact .inr (Option.some.inj (hclass.symm.trans h))
  · cases h with
    | comparison ha' _ _ _ htype' _ hkind =>
      obtain rfl := ha.unique ha'
      cases htype.symm.trans htype'
      exact if_pos (Bool.not_eq_eq_eq_not.mp hkind.symm)

namespace BodyState

variable {scope : FunctionScope} {s : BodyState} {r : Record} {i : Instruction}

theorem lowers_of_push {types : TypeTable} {code : FunctionCode} {isCall : Bool}
    {x : Decoder Lowered} (hx : lowering? scope s.values r code = some x) {s' : BodyState}
    {p p' : Progress} (h : s.lower types isCall x p = .ok s' p')
    (hpush : s'.instructions = s.instructions.push i) :
    ∃ l, Lowers scope s.values r code l ∧ s.Emitted p.location isCall (.ok l) (some i) s' := by
  have hlist := congrArg Array.toList hpush
  rw [Array.toList_push] at hlist
  obtain ⟨result, emitted, hattempt, hemitted⟩ := emitted_of_lower h
  rw [hemitted.instructions] at hlist
  have hsome : emitted.toList = [i] := List.append_cancel_left hlist
  obtain rfl : emitted = some i := by simpa [Option.toList_eq_singleton_iff] using hsome
  rcases of_attempt_ok hattempt with ⟨l, hxp, rfl⟩ | ⟨type, -, rfl⟩
  · exact ⟨l, (Abides.lowering hx).gives p l p' hxp, hemitted⟩
  · cases hemitted

theorem EmitsFloat.exists_operation (h : s.EmitsFloat scope r i) :
    ∃ code op data location, (code = .binary ∨ code = .compare) ∧
      Lowers scope s.values r code (.operation op) ∧
      i = op.instruction data s.ssaCount location := by
  obtain ⟨blockCount, s', p, p', hstep, hpush⟩ := h.emitted
  obtain ⟨code, hmath, hcode⟩ : ∃ code, (code = .binary ∨ code = .compare) ∧
      FunctionCode.ofNat? r.code.toNat = some code := by
    rcases h.code with hcode | hcode
    · exact ⟨_, .inl rfl, hcode⟩
    · exact ⟨_, .inr rfl, hcode⟩
  revert hstep
  refine step_cases (P := fun x => x p = .ok s' p' → _) scope blockCount s r
    (fun f _ _ hreject => by cases hreject) (fun hret => ?_) fun code' x hcode' hx hlower => ?_
  · rcases hmath with rfl | rfl <;> cases hcode.symm.trans hret
  · cases hcode.symm.trans hcode'
    obtain ⟨l, hl, hemitted⟩ := lowers_of_push hx hlower hpush
    cases hemitted with
    | operation op data => exact ⟨code, op, data, p.location, hmath, hl, rfl⟩
    | store =>
      cases hl
      simp at hmath

theorem EmitsFloat.flags_eq (h : s.EmitsFloat scope r i) :
    i.flags = floatPrecision r.mathFlags := by
  obtain ⟨code, op, data, location, hcode, hl, rfl⟩ := h.exists_operation
  exact hl.flags_eq hcode h.floats

theorem EmitsFloat.isPrecise_iff (h : s.EmitsFloat scope r i) :
    i.IsPrecise ↔ r.mathFlags ≠ 0 ∧ r.mathFlags &&& rearrangeFlag = 0 := by
  rw [Instruction.IsPrecise, h.flags_eq]
  exact floatPrecision_and_preciseX

end BodyState

/-- An instruction on floats is precise exactly if its record has flags, and not the one that it may
be rearranged. So with any flags at all that one decides, and to clear others, or it, makes no
instruction less precise as long as a flag is left. -/
theorem precise_iff {scope : FunctionScope} {s : BodyState} {r : Record} {i : Instruction}
    (h : s.EmitsFloat scope r i) :
    (i.IsPrecise ↔ r.mathFlags ≠ 0 ∧ r.mathFlags &&& rearrangeFlag = 0) ∧
    ∀ scope' s' r' i', BodyState.EmitsFloat scope' s' r' i' → r'.mathFlags ≠ 0 →
      ClearedFrom r'.mathFlags r.mathFlags → i.IsPrecise → i'.IsPrecise := by
  refine ⟨h.isPrecise_iff, fun scope' s' r' i' h' hflags hcleared hprecise => ?_⟩
  obtain ⟨-, hrearrange⟩ := h.isPrecise_iff.mp hprecise
  exact h'.isPrecise_iff.mpr ⟨hflags, hcleared.and_eq_zero hrearrange⟩

def floatScope : FunctionScope :=
  { types := { types := #[.float 32] }, descriptors := [], inputs := [], outputs := []
    inputParams := [], outputParams := [], bound := 2 }

def floatState : BodyState :=
  { values := #[{ type := some 0, kind := .register { type := .immConst, data := .float } }] }

def floatSum (flags : List UInt64) : Record := { code := 2, operands := [1, 1, 0] ++ flags }

def floatSumInstruction (flags : List UInt64) : Instruction :=
  let source : SrcParam := .ofRegister { type := .immConst, data := .float }
  { opcode := .add
    location := { source := defaultSourceName }
    flags := floatPrecision (flags.headD 0)
    dst :=
      [{ register := { type := .ssa, data := .float, indices := [{ offset := 0 }] }, mask := .x }]
    src := [source, source] }

theorem onFloats_floatSum (flags : List UInt64) :
    OnFloats floatScope floatState.values (floatSum flags) :=
  ⟨_, 32, ⟨1, rfl, by decide, rfl⟩, rfl⟩

theorem emitsFloat_without_flags :
    floatState.EmitsFloat floatScope (floatSum []) (floatSumInstruction []) :=
  ⟨.inl rfl, onFloats_floatSum [],
    ⟨1, _, { location := { source := defaultSourceName } }, _, rfl, rfl⟩⟩

/-- With the flag that all operands are numbers. -/
theorem emitsFloat_with_flag :
    floatState.EmitsFloat floatScope (floatSum [2]) (floatSumInstruction [2]) :=
  ⟨.inl rfl, onFloats_floatSum [2],
    ⟨1, _, { location := { source := defaultSourceName } }, _, rfl, rfl⟩⟩

theorem precise_iff_with_flag :
    floatState.EmitsFloat floatScope (floatSum [2]) (floatSumInstruction [2]) ∧
      ((floatSumInstruction [2]).IsPrecise ↔
        (floatSum [2]).mathFlags ≠ 0 ∧ (floatSum [2]).mathFlags &&& rearrangeFlag = 0) ∧
      (floatSumInstruction [2]).IsPrecise :=
  ⟨emitsFloat_with_flag, (precise_iff emitsFloat_with_flag).1,
    (precise_iff emitsFloat_with_flag).1.mpr (by decide)⟩

/-- Without flags an instruction is not precise, although none says that it may be rearranged. So to
clear its last flag makes an instruction less precise. -/
theorem not_precise_without_flags :
    (¬ ∀ scope s r i, BodyState.EmitsFloat scope s r i →
      (i.IsPrecise ↔ r.mathFlags &&& rearrangeFlag = 0)) ∧
    ¬ ∀ scope s r r' i i', BodyState.EmitsFloat scope s r i →
      BodyState.EmitsFloat scope s r' i' → ClearedFrom r'.mathFlags r.mathFlags →
      i.IsPrecise → i'.IsPrecise := by
  constructor
  · intro h
    have hprecise := (h _ _ _ _ emitsFloat_without_flags).mpr (by decide)
    revert hprecise
    decide
  · intro h
    have hprecise := h _ _ _ _ _ _ emitsFloat_with_flag emitsFloat_without_flags rfl (by decide)
    revert hprecise
    decide

end Dxil
