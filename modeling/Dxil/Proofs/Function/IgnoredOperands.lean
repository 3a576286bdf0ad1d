import Dxil.Proofs.Bits.Local
import Dxil.Proofs.Function.Body
import Dxil.Proofs.Module.IgnoredOperands

/-!
# Dxil.Proofs.Function.IgnoredOperands

The records of function bodies, and with them all records: operands that are reported as ignored are
not read, but for loads.

* `Trims.valueAt` : a reference that can be resolved reads one operand.
* `trims_lowerBinary` and the like : the records that count their operands.
* `ignored_operands_unread` : the law, for every kind of record and every state.
* `ignored_operand_read_by_load` : the load that an ignored operand changes.
-/

namespace Dxil

variable {scope : FunctionScope} {values : Values} {r : Record}

/-! ## References -/

section

variable {known : Option TypeId} {i n : Nat} {v : Value}

theorem Refers.first (h : Refers scope values r i v) (hi : i < n) :
    Refers scope values (r.first n) i v := by
  obtain ⟨distance, hget, hv⟩ := h
  refine ⟨distance, ?_, hv⟩
  rw [Record.first, List.getElem?_take_of_lt hi, hget]

/-- A reference that can be resolved reads one operand, so more than the operands up to it may be
missing. -/
theorem Trims.valueAt {α : Type} {m : Nat} {f g : Value × Nat → Decoder α} (h : i < n)
    (hf : ∀ v, Refers scope values r i v → Trims m (f (v, i + 1)) (g (v, i + 1))) :
    Trims m (valueAt scope values r known i >>= f)
      (valueAt scope values (r.first n) known i >>= g) := by
  refine .after_of_ok (.valueAt fun _ => trivial) ?_ ?_
  · rintro p ⟨v, _⟩ p' hrun
    obtain ⟨rfl, hv, rfl⟩ := refers_of_valueAt hrun
    exact valueAt_of_refers (hv.first h) known p'
  · rintro ⟨v, _⟩ ⟨hv, rfl⟩
    exact hf v hv

end

/-! ## Records that count their operands -/

section

variable (scope : FunctionScope) (values : Values) (r : Record)

theorem trims_lowerBinary :
    Trims (r.operands.length - 4) (lowerBinary scope values r)
      (lowerBinary scope values (r.first 4)) := by
  unfold lowerBinary
  refine .valueAt (by decide) fun a _ => .typed (.valueAt (by decide) fun b _ => ?_)
  simp only [Nat.reduceAdd]
  rw [Record.operand_first (by decide), Record.getD_first 0 (by decide)]
  exact .checkOperands (by decide) (Nat.le_refl 4) (fun hlen => .bind (.operand (by omega))
    fun code _ => .mono (.calculate (fun _ _ h => h) (fun _ => trivial) fun _ => trivial)
      fun _ _ => trivial) fun _ => rfl

theorem trims_lowerCast :
    Trims (r.operands.length - 3) (lowerCast scope values r)
      (lowerCast scope values (r.first 3)) := by
  unfold lowerCast
  refine .valueAt (by decide) fun v hv => ?_
  simp only [Record.operand_first, Nat.reduceLT, Nat.reduceAdd]
  exact .checkOperands (by decide) (Nat.le_refl 3) (fun hlen => .bind (.operand (by omega))
    fun operand hoperand => .bind (.lookup trivial) fun id hid => .bind (.operand (by omega))
    fun code hcode => .typed (.castTo trivial hv hoperand hid hcode (fun _ => trivial)
      fun _ => trivial)) fun _ => rfl

theorem trims_lowerComparison :
    Trims (r.operands.length - 4) (lowerComparison scope values r)
      (lowerComparison scope values (r.first 4)) := by
  unfold lowerComparison
  refine .typed (.valueAt (by decide) fun a _ => .valueAt (by decide) fun b _ => ?_)
  simp only [Nat.reduceAdd]
  rw [Record.operand_first (by decide), Record.getD_first 0 (by decide)]
  exact .checkOperands (by decide) (Nat.le_refl 4) (fun hlen => .bind (.operand (by omega))
    fun code _ => .mono (.compareValues (fun _ _ h => h) (fun _ => trivial) (fun _ => trivial)
      fun _ => trivial) fun _ _ => trivial) fun _ => rfl

theorem trims_lowerSelect :
    Trims (r.operands.length - 3) (lowerSelect scope values r)
      (lowerSelect scope values (r.first 3)) := by
  unfold lowerSelect
  refine .valueAt (by decide) fun ifTrue _ => .typed (.valueAt (by decide) fun ifFalse _ =>
    .valueAt (by decide) fun condition _ => ?_)
  simp only [Nat.reduceAdd]
  rw [Record.ignoreBeyond_first (Nat.le_refl 3), pure_bind]
  exact .ignoreBeyond (.selectValue (fun _ _ h => h) trivial fun _ => trivial) fun _ => rfl

/-- A load recognises its type by the number of all operands. Where some are ignored it takes the
type for the alignment and the alignment for the flag, as if the last operand were missing too. -/
theorem trims_lowerLoad :
    Trims (r.operands.length - 4) (lowerLoad scope values r)
      (lowerLoad scope values (r.first 3)) := by
  unfold lowerLoad
  refine .valueAt (by decide) fun pointer _ => .after (.requireRegister trivial pointer)
    fun register _ => .after (.requirePointer trivial fun _ => trivial) fun pointee _ => ?_
  simp only [Nat.reduceAdd]
  refine .checkOperands (Nat.le_refl 3) (by decide) (fun hlen => .typed (.loadNumber
    (fun _ _ h => h) trivial (by omega) fun _ => trivial)) fun hmore => ?_
  have hlength : (r.first 3).operands.length = 3 := by
    rw [Record.length_first]
    omega
  unfold loadNumber skipLoadType
  rw [if_neg (by omega), if_neg (by omega)]
  simp only [pure_bind, Record.operand_first, Record.skipOperand_first, Nat.reduceLT,
    Nat.reduceAdd]

end

/-! ## Steps -/

namespace BodyState

variable (s : BodyState) (blockCount : Nat)

theorem trims_ret : Trims (r.operands.length - 1) (s.ret r) (s.ret (r.first 1)) := by
  unfold ret
  rw [Record.ignoreBeyond_first (Nat.le_refl 1), pure_bind]
  refine .ignoreBeyond (.bind (.reportIf rfl) fun _ _ => .pure rfl) fun hmore => ?_
  have hempty : (r.first 1).operands.isEmpty = r.operands.isEmpty := by
    cases hoperands : r.operands <;> simp [Record.first, hoperands]
  rw [hempty]

theorem trims_step {code : FunctionCode} {x y : Decoder Lowered} {n kept : Nat}
    (hreturned : s.returned = false) (hcode : FunctionCode.ofNat? r.code.toNat = some code)
    (hx : lowering? scope s.values r code = some x)
    (hy : lowering? scope s.values (r.first kept) code = some y) (h : Trims n x y) :
    Trims n (s.step scope blockCount r) (s.step scope blockCount (r.first kept)) := by
  rw [step_of_lowering hreturned hcode hx, step_of_lowering (r := r.first kept) hreturned hcode hy]
  exact .after .here fun location _ => h.attempt.andThen fun _ =>
    .mono (.bodyEmit (fun _ => trivial) s location _) fun _ _ => trivial

theorem quiet_step (hret : FunctionCode.ofNat? r.code.toNat ≠ some .ret)
    (hcounts : ∀ code, FunctionCode.ofNat? r.code.toNat = some code → code.countsOperands = false) :
    Abides .quiet (s.step scope blockCount r) fun _ => True := by
  refine step_cases (P := fun x => Abides .quiet x fun _ => True) scope blockCount s r
    (fun f hf _ => .reject hf trivial) (fun hcode => absurd hcode hret) fun code x hcode hx => ?_
  refine (Abides.bodyLower hcode hx (fun f hf => ?_) (fun f hf => ?_) fun _ => trivial).mono
    fun _ _ => trivial
  · obtain ⟨-, hquiet | hcounted⟩ := hf
    · exact hquiet
    · rw [hcounts code hcode] at hcounted
      cases hcounted
  · obtain herror | ⟨-, hunhandled⟩ := hf
    · exact Finding.not_isIgnoredOperands_of_isError herror
    · exact Finding.not_isIgnoredOperands_of_isUnhandled hunhandled

theorem ignores_of_returned (h : s.returned = true) (lost : Nat) :
    Ignores lost (step scope blockCount s) r := by
  refine Abides.ignores (Q := fun _ => True) ?_
  rw [step, if_pos h]
  exact .reject rfl trivial

theorem ignores_step (hcode : FunctionCode.ofNat? r.code.toNat ≠ some .load) :
    Ignores 0 (step scope blockCount s) r := by
  cases hreturned : s.returned with
  | true => exact ignores_of_returned s blockCount hreturned 0
  | false =>
    cases hkind : FunctionCode.ofNat? r.code.toNat with
    | none => exact (quiet_step s blockCount (by simp [hkind]) (by simp [hkind])).ignores
    | some kind =>
      cases kind with
      | ret =>
        refine Trims.ignores (Nat.zero_le 1) ?_
        simp only [step, hreturned, Record.first_code, hkind]
        exact trims_ret s
      | binary =>
        exact Trims.ignores (Nat.zero_le 4) (trims_step s blockCount hreturned hkind rfl rfl
          (trims_lowerBinary scope s.values r))
      | cast =>
        exact Trims.ignores (Nat.zero_le 3) (trims_step s blockCount hreturned hkind rfl rfl
          (trims_lowerCast scope s.values r))
      | compare =>
        exact Trims.ignores (Nat.zero_le 4) (trims_step s blockCount hreturned hkind rfl rfl
          (trims_lowerComparison scope s.values r))
      | select =>
        exact Trims.ignores (Nat.zero_le 3) (trims_step s blockCount hreturned hkind rfl rfl
          (trims_lowerSelect scope s.values r))
      | load => exact absurd hkind hcode
      | _ =>
        refine (quiet_step s blockCount (by simp [hkind]) ?_).ignores
        rw [hkind]
        rintro _ ⟨⟩
        rfl

theorem ignores_step_load (hcode : FunctionCode.ofNat? r.code.toNat = some .load) :
    Ignores 1 (step scope blockCount s) r := by
  cases hreturned : s.returned with
  | true => exact ignores_of_returned s blockCount hreturned 1
  | false =>
    exact Trims.ignores (show 1 ≤ 4 by decide) (trims_step s blockCount hreturned hcode rfl rfl
      (trims_lowerLoad scope s.values r))

end BodyState

/-- Operands that are reported as ignored are not read, in the records of types, constants, globals,
metadata and function bodies: without them the record does the same, and reports the same but for
that. A load is different. It loses one operand more, since it recognises its type by the number of
all operands and then takes it for the alignment. -/
theorem ignored_operands_unread (r : Record) :
    (∀ count b, Ignores 0 (TypeBuilder.add count b) r) ∧
      (∀ types s i, Ignores 0 (Constants.add types s i) r) ∧
      (∀ types symbols s, Ignores 0 (Globals.add types symbols s) r) ∧
      (∀ types values count s, Ignores 0 (Metadata.add types values count s) r) ∧
      (FunctionCode.ofNat? r.code.toNat ≠ some .load → ∀ scope blockCount s,
        Ignores 0 (BodyState.step scope blockCount s) r) ∧
      (FunctionCode.ofNat? r.code.toNat = some .load → ∀ scope blockCount s,
        Ignores 1 (BodyState.step scope blockCount s) r) :=
  ⟨fun count b => TypeBuilder.ignores_add b count r,
    fun types s i => Constants.ignores_add types i r s,
    fun types symbols s => Globals.ignores_add types s r symbols,
    fun types values count s => Metadata.ignores_add types values count s r,
    fun hcode _ blockCount s => BodyState.ignores_step s blockCount hcode,
    fun hcode _ blockCount s => BodyState.ignores_step_load s blockCount hcode⟩

def variableScope : FunctionScope :=
  { types := { types := #[.int 32, .pointer 0 0] }, descriptors := [], inputs := [], outputs := []
    inputParams := [], outputParams := [], bound := 2 }

def variableState : BodyState :=
  let register : Register := { type := .idxTemp, data := .uint, indices := [{ offset := 0 }] }
  { values := #[{ type := some 0, kind := .register { type := .immConst, data := .uint } },
      { type := some 1, kind := .register register }] }

/-- What a record does to the module with one variable, before anything is reported. -/
def stepVariable (r : Record) : Outcome BodyState :=
  variableState.step variableScope 1 r { location := { source := defaultSourceName } }

/-- A load of the variable, of type 0 and with alignment 5, and with an operand too many. -/
def longLoad : Record := { code := 20, operands := [1, 0, 5, 0, 9] }

/-- The number added to itself, with an operand too many. -/
def longSum : Record := { code := 2, operands := [2, 2, 0, 1, 9] }

def firstType (r : Record) : Outcome TypeBuilder :=
  TypeBuilder.add 1 {} r { location := { source := defaultSourceName } }

/-- Integers of 32 bits, with two operands too many. -/
def longWidth : Record := { code := 7, operands := [32, 8, 9] }

theorem reports_longLoad :
    Outcome.Reports (stepVariable longLoad) { location := { source := defaultSourceName } }
      (.ignoredOperands 1) :=
  ⟨0, { source := defaultSourceName }, Nat.zero_le _, by decide +kernel⟩

theorem reports_longSum :
    Outcome.Reports (stepVariable longSum) { location := { source := defaultSourceName } }
      (.ignoredOperands 1) :=
  ⟨0, { source := defaultSourceName }, Nat.zero_le _, by decide +kernel⟩

theorem reports_longWidth :
    Outcome.Reports (firstType longWidth) { location := { source := defaultSourceName } }
      (.ignoredOperands 2) :=
  ⟨0, { source := defaultSourceName }, Nat.zero_le _, by decide +kernel⟩

theorem ignored_operands_unread_longLoad :
    (∃ before location after,
      (Outcome.progress (stepVariable longLoad)).reports =
        #[] ++ before ++ #[⟨location, .ignoredOperands 1⟩] ++ after ∧
      stepVariable { code := 20, operands := [1, 0, 5] } =
        Outcome.setReports (#[] ++ before ++ after) (stepVariable longLoad)) ∧
    (∃ before location after,
      (Outcome.progress (stepVariable longSum)).reports =
        #[] ++ before ++ #[⟨location, .ignoredOperands 1⟩] ++ after ∧
      stepVariable { code := 2, operands := [2, 2, 0, 1] } =
        Outcome.setReports (#[] ++ before ++ after) (stepVariable longSum)) ∧
    ∃ before location after,
      (Outcome.progress (firstType longWidth)).reports =
        #[] ++ before ++ #[⟨location, .ignoredOperands 2⟩] ++ after ∧
      firstType { code := 7, operands := [32] } =
        Outcome.setReports (#[] ++ before ++ after) (firstType longWidth) := by
  refine ⟨?_, ?_, ?_⟩
  · exact (ignored_operands_unread longLoad).2.2.2.2.2 rfl variableScope 1 variableState _ 1
      reports_longLoad
  · exact (ignored_operands_unread longSum).2.2.2.2.1 (by decide) variableScope 1 variableState _ 1
      reports_longSum
  · exact (ignored_operands_unread longWidth).1 1 {} _ 2 reports_longWidth

/-- The alignments at which the instructions so far read. -/
def Outcome.alignments : Outcome BodyState → List UInt32
  | .ok s _ => s.instructions.toList.flatMap fun i => i.src.map fun src => src.register.alignment
  | .error _ _ => []

theorem Outcome.alignments_setReports (reports : Array Report) (o : Outcome BodyState) :
    alignments (setReports reports o) = alignments o := by
  cases o <;> rfl

/-- The operand too many, which is reported as ignored, changes the alignment of the load. -/
theorem ignored_operand_read_by_load :
    ¬ ∀ scope blockCount s r, Ignores 0 (BodyState.step scope blockCount s) r := by
  intro h
  obtain ⟨_, _, _, -, hrun⟩ := h variableScope 1 variableState longLoad _ 1 reports_longLoad
  have hsame : Outcome.alignments (stepVariable (longLoad.without 1)) =
      Outcome.alignments (stepVariable longLoad) :=
    (congrArg Outcome.alignments hrun).trans (Outcome.alignments_setReports _ _)
  revert hsame
  decide +kernel

end Dxil
