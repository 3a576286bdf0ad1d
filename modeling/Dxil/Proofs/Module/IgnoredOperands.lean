import Dxil.Proofs.Module.Globals
import Dxil.Proofs.Module.Metadata
import Dxil.Proofs.Module.Trimming
import Dxil.Proofs.Module.TypeRecords

/-!
# Dxil.Proofs.Module.IgnoredOperands

The records of types, constants, globals and metadata: operands that are reported as ignored are not
read.

* `TypeBuilder.ignores_add`, `Constants.ignores_add`, `Globals.ignores_add`, `Metadata.ignores_add`.

Where a record has operands too many, it is decoded as the record of its first operands, after the
report. That nothing else is reported about ignored operands is known of the decoder already.
-/

namespace Dxil

/-! ## Types -/

theorem Settles.quiet {α : Type} {x : Decoder α} {o : Option α} (hx : Settles False x o) :
    Abides .quiet x fun _ => True :=
  Abides.weaken hx ⟨fun _ h => h.elim, fun _ => Finding.not_isIgnoredOperands_of_isError,
    fun _ => trivial, fun _ _ => trivial, False.elim⟩ fun _ _ => trivial

namespace TypeBuilder

variable (b : TypeBuilder) (count : Nat) (r : Record)

theorem add_of_lt {code : TypeCode} {most : Nat} (hcode : TypeCode.ofNat? r.code.toNat = some code)
    (hmost : code.most? = some most) (h : most < r.operands.length) :
    add count b r = (do ignoreBeyond r most; add count b (r.first most)) := by
  unfold add
  rw [Record.first_code, hcode]
  cases code <;> cases hmost
  case void | half | float | double =>
    simp only [plain, Record.ignoreBeyond_first (Nat.le_refl 0), pure_bind]
  case integer =>
    simp only [integer, Record.checkOperands_of_lt (Nat.le_refl 1) h,
      Record.checkOperands_first (Nat.le_refl 1) h, pure_bind, Record.operand_first Nat.one_pos]
  case pointer =>
    have hleast : 1 ≤ 2 := by decide
    simp only [pointer, Record.checkOperands_of_lt hleast h, Record.checkOperands_first hleast h,
      pure_bind, Record.operand_first Nat.two_pos, Record.getD_first _ Nat.one_lt_two]
  case array | vector =>
    simp only [sequence, Record.checkOperands_of_lt (Nat.le_refl 2) h,
      Record.checkOperands_first (Nat.le_refl 2) h, bind_assoc, pure_bind,
      Record.operand_first Nat.two_pos, Record.operand_first Nat.one_lt_two]

theorem ignores_add : Ignores 0 (add count b) r := by
  cases hmost : (TypeCode.ofNat? r.code.toNat).bind TypeCode.most? with
  | none =>
    refine (Settles.typeBuilderAdd count b r fun code most hcode hsome _ => ?_).quiet.ignores
    rw [hcode, Option.bind_some, hsome] at hmost
    cases hmost
  | some most =>
    obtain ⟨code, hcode, hmost⟩ := Option.bind_eq_some_iff.mp hmost
    refine Trims.ignores (Nat.zero_le most) (.of_count (Settles.typeBuilderAdd count b
      (r.first most) fun code' most' hcode' hmost' hlt => ?_).quiet
      (add_of_lt b count r hcode hmost))
    cases hcode.symm.trans hcode'
    cases hmost.symm.trans hmost'
    exact Nat.not_lt.mpr (Nat.min_le_left _ _) (Record.length_first ▸ hlt)

end TypeBuilder

/-! ## Constants -/

namespace Constants

variable (types : TypeTable) (i : Nat) (r : Record)

theorem integer_of_lt (type : Ty) (zero : Register) (h : 1 < r.operands.length) :
    integer type zero i r = (do ignoreBeyond r 1; integer type zero i (r.first 1)) := by
  simp only [integer, Record.checkOperands_of_lt (Nat.le_refl 1) h,
    Record.checkOperands_first (Nat.le_refl 1) h, pure_bind, Record.operand_first Nat.one_pos]

theorem float_of_lt (type : Ty) (zero : Register) (h : 1 < r.operands.length) :
    float type zero i r = (do ignoreBeyond r 1; float type zero i (r.first 1)) := by
  simp only [float, Record.checkOperands_of_lt (Nat.le_refl 1) h,
    Record.checkOperands_first (Nat.le_refl 1) h, pure_bind, Record.operand_first Nat.one_pos]

theorem add_of_lt {s : State} (hcode : ConstantCode.ofNat? r.code.toNat = some .setType)
    (h : 1 < r.operands.length) :
    add types s i r = (do ignoreBeyond r 1; add types s i (r.first 1)) := by
  simp only [add, Record.first_code, hcode, if_true, Record.checkOperands_of_lt (Nat.le_refl 1) h,
    Record.checkOperands_first (Nat.le_refl 1) h, pure_bind, Record.operand_first Nat.one_pos]

/-- A record of the current type, which is looked up before the operands are counted. -/
theorem trims_define (id : TypeId) (zero : Register) (pool : ConstantPool)
    (hset : ConstantCode.ofNat? r.code.toNat ≠ some .setType) :
    ∃ most, Trims (r.operands.length - most) (define types id zero pool i r)
      (define types id zero pool i (r.first most)) := by
  have htype : Abides .quiet (types.typeOf id) fun _ => True :=
    (Abides.typeOf fun _ => trivial).mono fun _ _ => trivial
  by_cases hnone : ∀ code, ConstantCode.ofNat? r.code.toNat = some code → code.most? = none
  · refine ⟨0, .of_quiet (.constantDefine trivial (fun code most hcode hsome => ?_) i
      fun _ => trivial)⟩
    rw [hnone code hcode] at hsome
    cases hsome
  · simp only [Classical.not_forall] at hnone
    obtain ⟨code, hcode, hmost⟩ := hnone
    cases code with
    | integer =>
      refine ⟨1, ?_⟩
      simp only [define, Record.first_code, hcode]
      exact .after htype fun type _ => (Trims.of_count (x := integer type zero i)
        (.constantInteger trivial i (Terms.counts_first _ r 1))
        (integer_of_lt i r type zero)).andThen (R := fun _ => True) fun _ => .pure trivial
    | float =>
      refine ⟨1, ?_⟩
      simp only [define, Record.first_code, hcode]
      exact .after htype fun type _ => (Trims.of_count (x := float type zero i)
        (.constantFloat trivial i (Terms.counts_first _ r 1))
        (float_of_lt i r type zero)).andThen (R := fun _ => True) fun _ => .pure trivial
    | undef =>
      refine ⟨0, ?_⟩
      simp only [define, Record.first_code, hcode]
      rw [Record.ignoreBeyond_first (Nat.le_refl 0)]
      exact .after htype fun type _ =>
        .ignoreBeyond (Q := fun _ => True) (.pure trivial) fun _ => rfl
    | setType => exact absurd hcode hset
    | _ => exact absurd rfl hmost

theorem ignores_add (s : State) : Ignores 0 (add types s i) r := by
  by_cases hcode : ConstantCode.ofNat? r.code.toNat = some .setType
  · refine Trims.ignores (Nat.zero_le 1) (.of_count (.constantsAdd trivial
      (fun code most hcode' hmost => ?_) i fun _ => trivial) (add_of_lt types i r hcode))
    cases hcode.symm.trans hcode'
    cases hmost
    exact Terms.counts_first _ r 1
  · cases hcurrent : s.current with
    | none =>
      refine Abides.ignores (Q := fun _ => True) ?_
      simp only [add, hcode, if_false, hcurrent]
      exact .reject rfl trivial
    | some current =>
      obtain ⟨id, zero⟩ := current
      obtain ⟨most, h⟩ := trims_define types i r id zero s.pool hcode
      refine Trims.ignores (Nat.zero_le most) ?_
      simp only [add, Record.first_code, hcode, if_false, hcurrent]
      exact h.andThen (R := fun _ => True) fun _ => .pure trivial

end Constants

/-! ## Globals -/

namespace Globals

variable (types : TypeTable) (s : State) (r : Record)

theorem checkVersion_of_lt (h : 1 < r.operands.length) :
    checkVersion r = (do ignoreBeyond r 1; checkVersion (r.first 1)) := by
  simp only [checkVersion, Record.checkOperands_of_lt (Nat.le_refl 1) h,
    Record.checkOperands_first (Nat.le_refl 1) h, pure_bind, Record.operand_first Nat.one_pos]

theorem declareFunction_of_lt (symbols : SymbolTable) (h : 15 < r.operands.length) :
    declareFunction types symbols s r =
      (do ignoreBeyond r 15; declareFunction types symbols s (r.first 15)) := by
  have hleast : 8 ≤ 15 := by decide
  have hskip : [1, 3, 4].forM (skipOperand (r.first 15)) = [1, 3, 4].forM (skipOperand r) :=
    Record.skipOperands_first (by decide)
  simp only [declareFunction, Record.checkOperands_of_lt hleast h,
    Record.checkOperands_first hleast h, pure_bind, Record.operand_first, Nat.reduceLT, hskip]

theorem declareVariable_of_lt (h : 13 < r.operands.length) :
    declareVariable types s r =
      (do ignoreBeyond r 13; declareVariable types s (r.first 13)) := by
  have hleast : 6 ≤ 13 := by decide
  have hskip : [3, 5].forM (skipOperand (r.first 13)) = [3, 5].forM (skipOperand r) :=
    Record.skipOperands_first (by decide)
  simp only [declareVariable, Record.checkOperands_of_lt hleast h,
    Record.checkOperands_first hleast h, pure_bind, Record.operand_first, Nat.reduceLT, hskip]

theorem ignores_add (symbols : SymbolTable) : Ignores 0 (add types symbols s) r := by
  cases hcode : ModuleCode.ofNat? r.code.toNat with
  | none =>
    refine Abides.ignores (Q := fun _ => True) ?_
    simp only [add, hcode]
    exact .pure trivial
  | some code =>
    cases code with
    | version =>
      refine Trims.ignores (Nat.zero_le 1) ?_
      simp only [add, Record.first_code, hcode]
      exact (Trims.of_count (.checkVersion trivial (Terms.counts_first _ r 1))
        (checkVersion_of_lt r)).andThen (R := fun _ => True) fun _ => .pure trivial
    | globalVar =>
      refine Trims.ignores (Nat.zero_le 13) ?_
      simp only [add, Record.first_code, hcode]
      exact .of_count
        (.declareVariable trivial (fun _ => trivial) (Terms.counts_first _ r 13) hcode)
        (declareVariable_of_lt types s r)
    | function =>
      refine Trims.ignores (Nat.zero_le 15) ?_
      simp only [add, Record.first_code, hcode]
      exact .orReport rfl (.of_count (.declareFunction trivial (fun _ => trivial) symbols trivial
        (Terms.counts_first _ r 15) hcode) (declareFunction_of_lt types s r symbols))

end Globals

/-! ## Metadata -/

namespace Metadata

variable (types : TypeTable) (values : Values) (count : Nat) (s : State) (r : Record)

theorem add_of_lt (hcode : MetadataCode.ofNat? r.code.toNat = some .value)
    (h : 2 < r.operands.length) :
    add types values count s r = (do ignoreBeyond r 2; add types values count s (r.first 2)) := by
  simp only [add, Record.first_code, hcode, value, Record.checkOperands_of_lt (Nat.le_refl 2) h,
    Record.checkOperands_first (Nat.le_refl 2) h, pure_bind, Record.operand_first, Nat.reduceLT]

theorem ignores_add : Ignores 0 (add types values count s) r := by
  by_cases hcode : MetadataCode.ofNat? r.code.toNat = some .value
  · refine Trims.ignores (Nat.zero_le 2) (.of_count (.metadataAdd trivial (fun _ => trivial) rfl
      fun code most hcode' hmost => ?_) (add_of_lt types values count s r hcode))
    cases hcode.symm.trans hcode'
    cases hmost
    exact Terms.counts_first _ r 2
  · refine (Abides.metadataAdd trivial (fun _ => trivial) rfl
      fun code most hcode' hmost => ?_).ignores
    cases code with
    | value => exact absurd hcode' hcode
    | _ => cases hmost

end Metadata

end Dxil
