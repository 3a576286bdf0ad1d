import Dxil.Module.Budget
import Dxil.Proofs.Module.Constants
import Dxil.Proofs.Module.TypeRecords

/-!
# Dxil.Proofs.Module.ConstantRecords

The values of a constants block are what its records say, each of the type that was set last.

* `signRotated` : the integer that an operand stands for.
* `toNat_decodeRotated` : decoding gives that integer in as many bits as its type has.
* `Constants.currentType` : the type that some records set last.
* `Value.DefinedBy` : what a record says of its value.
* `Constants.State.Follows.step` : what one record does to the pool.
* `Constants.decode_extendedBy` : what a block does to the pool.
-/

namespace Dxil

/-! ## Integers -/

/-- The integer that an operand stands for: the sign is in bit 0 and the magnitude above it. A sign
without a magnitude is the least integer of the width. -/
def signRotated (operand : UInt64) (width : Nat) : Int :=
  if operand = 1 then -(Nat.pow 2 (width - 1) : Nat)
  else if operand.toNat % 2 = 1 then -(operand.toNat / 2 : Nat)
  else (operand.toNat / 2 : Nat)

/-- The operand's integer in 64 bits, before it is cut to the width. -/
def decodeWide (operand : UInt64) (width : Nat) : UInt64 :=
  if operand = 1 then (1 : UInt64) <<< UInt64.ofNat (min (max width 1) 64 - 1)
  else if operand &&& 1 = 1 then -(operand >>> 1)
  else operand >>> 1

theorem toNat_decodeRotated_eq (operand : UInt64) {width : Nat} (hwidth : width ≤ 64) :
    (decodeRotated operand width).toNat = (decodeWide operand width).toNat % Nat.pow 2 width := by
  change (if 64 ≤ width then decodeWide operand width
    else UInt64.ofNat ((decodeWide operand width).toNat % Nat.pow 2 width)).toNat = _
  have hlt := (decodeWide operand width).toNat_lt
  by_cases hlarge : 64 ≤ width
  · obtain rfl : width = 64 := Nat.le_antisymm hwidth hlarge
    rw [if_pos hlarge]
    exact (Nat.mod_eq_of_lt hlt).symm
  · rw [if_neg hlarge]
    exact UInt64.toNat_ofNat_of_lt' (Nat.lt_of_le_of_lt (Nat.mod_le _ _) hlt)

theorem and_one_eq_one_iff (operand : UInt64) : operand &&& 1 = 1 ↔ operand.toNat % 2 = 1 := by
  rw [← UInt64.toNat_inj, UInt64.toNat_and]
  change operand.toNat &&& 1 = 1 ↔ _
  rw [Nat.and_one_is_mod]

theorem toNat_shiftRight_one (operand : UInt64) : (operand >>> 1).toNat = operand.toNat / 2 := by
  rw [UInt64.toNat_shiftRight]
  exact Nat.shiftRight_eq_div_pow operand.toNat 1

theorem toNat_one_shiftLeft {n : Nat} (h : n < 64) :
    ((1 : UInt64) <<< UInt64.ofNat n).toNat = Nat.pow 2 n := by
  have hn : n < UInt64.size := Nat.lt_trans h (by decide)
  rw [UInt64.toNat_shiftLeft, UInt64.toNat_ofNat_of_lt' hn, Nat.mod_eq_of_lt h]
  change (1 <<< n) % UInt64.size = _
  rw [Nat.one_shiftLeft]
  exact Nat.mod_eq_of_lt (Nat.pow_lt_pow_right (by decide) h)

/-- In 64 bits the integer is off by a multiple of what its width can count. -/
theorem exists_decodeWide_eq (operand : UInt64) {width : Nat} (hpos : 0 < width)
    (hwidth : width ≤ 64) :
    ∃ k : Nat, ((decodeWide operand width).toNat : Int) =
      signRotated operand width + (Nat.pow 2 width * k : Nat) := by
  unfold decodeWide signRotated
  by_cases hone : operand = 1
  · -- The least integer is half of what the width can count below zero, and as much above it.
    refine ⟨1, ?_⟩
    have hshift : min (max width 1) 64 - 1 = width - 1 := by omega
    have hhalf : Nat.pow 2 width = Nat.pow 2 (width - 1) * 2 := by
      obtain ⟨n, rfl⟩ := Nat.exists_eq_succ_of_ne_zero (Nat.ne_zero_of_lt hpos)
      rfl
    rw [if_pos hone, if_pos hone, hshift, toNat_one_shiftLeft (by omega), hhalf]
    omega
  · rw [if_neg hone, if_neg hone]
    by_cases hodd : operand.toNat % 2 = 1
    · -- Negation wraps round at 64 bits, which any smaller width divides.
      refine ⟨Nat.pow 2 (64 - width), ?_⟩
      have hne : operand.toNat ≠ 1 := fun h => hone (UInt64.toNat_inj.mp h)
      have hlt : operand.toNat < UInt64.size := operand.toNat_lt
      have hfull : Nat.pow 2 width * Nat.pow 2 (64 - width) = UInt64.size :=
        (Nat.pow_add 2 width (64 - width)).symm.trans
          (congrArg (Nat.pow 2) (Nat.add_sub_cancel' hwidth))
      have hneg : (-(operand >>> 1)).toNat = UInt64.size - operand.toNat / 2 := by
        rw [UInt64.toNat_neg, toNat_shiftRight_one]
        exact Nat.mod_eq_of_lt (by omega)
      rw [if_pos ((and_one_eq_one_iff operand).mpr hodd), if_pos hodd, hneg, hfull]
      omega
    · refine ⟨0, ?_⟩
      rw [if_neg fun h => hodd ((and_one_eq_one_iff operand).mp h), if_neg hodd,
        toNat_shiftRight_one]
      rfl

theorem toNat_decodeRotated (operand : UInt64) {width : Nat} (hpos : 0 < width)
    (hwidth : width ≤ 64) :
    ((decodeRotated operand width).toNat : Int) =
      signRotated operand width % (Nat.pow 2 width : Nat) := by
  obtain ⟨k, hk⟩ := exists_decodeWide_eq operand hpos hwidth
  rw [toNat_decodeRotated_eq operand hwidth, Int.natCast_emod, hk, Int.natCast_mul,
    Int.add_mul_emod_self_left]

/-! ## What records say -/

def Constants.currentType (records : List Record) : Option TypeId :=
  (records.filter fun r => !ValueBudget.definesConstant r).getLast?.bind fun r =>
    r.operands[0]?.map UInt64.toNat

/-- A constant is as large as the kind of its register says. -/
structure Register.HasImmediate (r : Register) : Prop where
  words : r.type = .immConst → ∃ x y z w, r.immediate = .words x y z w
  quads : r.type = .immConst64 → ∃ x y, r.immediate = .quads x y

/-- What a record says of its value, under the current type `id` and after the values `earlier`. -/
structure Value.DefinedBy (types : TypeTable) (earlier : Values) (id : TypeId) (r : Record)
    (v : Value) : Prop where
  type : r.isElementAddress = false → v.type = some id
  address : r.isElementAddress = true → v.AddressedBy types earlier r
  integer : ConstantCode.ofNat? r.code.toNat = some .integer →
    ∃ width operand register value, types.get? id = some (.int width) ∧
      r.operands[0]? = some operand ∧ v.kind = .register register ∧
      register.uint64Value? = some value ∧
      (value.toNat : Int) = signRotated operand width % (Nat.pow 2 width : Nat)
  immediate : ∀ register, v.kind = .register register → register.HasImmediate

/-- The pool after the records of a block: the values before it, and one for each record that
defines a value. -/
structure ConstantPool.ExtendedBy (types : TypeTable) (pool : ConstantPool)
    (records : List Record) (pool' : ConstantPool) : Prop where
  size : pool'.values.size = pool.values.size + records.countP ValueBudget.definesConstant
  earlier : ∀ k < pool.values.size, pool'.values[k]? = pool.values[k]?
  values : ∀ before r, before ++ [r] <+: records → ValueBudget.definesConstant r = true →
    ∃ id v, Constants.currentType before = some id ∧ id < types.size ∧
      pool'.values[pool.values.size + before.countP ValueBudget.definesConstant]? = some v ∧
      v.DefinedBy types
        (pool'.values.take (pool.values.size + before.countP ValueBudget.definesConstant)) id r

/-! ## Numbers -/

section

variable {types : TypeTable} {id : TypeId} {zero : Register} {type : Ty} {width : Nat}

theorem Ty.isInteger_dataType_int (width : Nat) : (Ty.int width).dataType.isInteger = true := by
  unfold Ty.dataType
  split <;> simp_all [DataType.isInteger]

theorem Constants.hasImmediate_zero (type : Ty) : (Constants.zero type).HasImmediate := by
  unfold Constants.zero
  split
  · exact ⟨nofun, nofun⟩
  · split
    · exact ⟨nofun, fun _ => ⟨_, _, rfl⟩⟩
    · exact ⟨fun _ => ⟨_, _, _, _, rfl⟩, nofun⟩

namespace Register.ZeroOf

variable (hz : zero.ZeroOf types id)
include hz

theorem immediate : zero.HasImmediate := by
  obtain ⟨_, element, -, -, rfl⟩ := hz
  exact Constants.hasImmediate_zero element

theorem hasImmediate (htype : types.get? id = some type) (hwidth : type.width? = some width)
    (value : UInt64) :
    HasImmediate { zero with immediate := Constants.immediate width value } := by
  rw [hz.eq_zero htype hwidth, Constants.zero_of_width hwidth, Constants.immediate]
  split
  · exact ⟨nofun, fun _ => ⟨value, 0, rfl⟩⟩
  · exact ⟨fun _ => ⟨_, _, _, _, rfl⟩, nofun⟩

theorem uint64Value?_eq (htype : types.get? id = some (.int width)) {value : UInt64}
    (hvalue : value.toNat < Nat.pow 2 width) :
    uint64Value? { zero with immediate := Constants.immediate width value } = some value := by
  have hinteger := Ty.isInteger_dataType_int width
  rw [hz.eq_zero htype rfl, Constants.zero_of_width rfl]
  unfold uint64Value? isConstant Constants.immediate
  by_cases hlarge : 32 < width
  · simp [if_pos hlarge, hinteger]
  · have hsmall : Nat.pow 2 width ≤ Nat.pow 2 32 :=
      Nat.pow_le_pow_right (by decide) (Nat.le_of_not_lt hlarge)
    have hback : value.toUInt32.toUInt64 = value := by
      rw [← UInt64.toNat_inj, UInt32.toNat_toUInt64, UInt64.toNat_toUInt32]
      exact Nat.mod_eq_of_lt (Nat.lt_of_lt_of_le hvalue hsmall)
    simp only [if_neg hlarge, hinteger, hback]
    rfl

end Register.ZeroOf

theorem TypeTable.WellFormed.width_le (ht : types.WellFormed)
    (htype : types.get? id = some (.int width)) : 0 < width ∧ width ≤ 64 := by
  have hproper : width ∈ [1, 8, 16, 32, 64] := of_decide_eq_true (ht.proper id _ htype)
  simp only [List.mem_cons, List.not_mem_nil, or_false] at hproper
  omega

end

/-! ## One record -/

namespace Value.DefinedBy

variable {types : TypeTable} {earlier : Values} {id : TypeId} {r : Record}

theorem of_kind {kind : ValueKind}
    (hcode : ConstantCode.ofNat? r.code.toNat ∉ [some .gep, some .inBoundsGep, some .integer])
    (himmediate : ∀ register, kind = .register register → register.HasImmediate) :
    DefinedBy types earlier id r { type := some id, kind } := by
  refine ⟨fun _ => rfl, fun h => absurd ?_ hcode, fun h => absurd ?_ hcode, himmediate⟩
  · exact List.mem_append_left [some .integer] (of_decide_eq_true h)
  · simp [h]

theorem of_register {register : Register}
    (hcode : ConstantCode.ofNat? r.code.toNat ∉ [some .gep, some .inBoundsGep, some .integer])
    (himmediate : register.HasImmediate) :
    DefinedBy types earlier id r { type := some id, kind := .register register } := by
  refine of_kind hcode ?_
  rintro _ ⟨⟩
  exact himmediate

theorem of_addressedBy {v : Value} (hcode : r.isElementAddress = true)
    (h : v.AddressedBy types earlier r) : v.DefinedBy types earlier id r := by
  refine ⟨fun hno => ?_, fun _ => h, fun hinteger => ?_, fun register hregister => ?_⟩
  · rw [hcode] at hno
    cases hno
  · simp [Record.isElementAddress, hinteger] at hcode
  · cases h with
    | element _ _ _ array_global _ _ _ _ _ _ _ _ kind =>
      rw [kind] at hregister
      cases hregister
      -- The register of an element is that of the array, with one more index.
      refine ⟨fun h => ?_, fun h => ?_⟩
      · cases array_global.symm.trans h
      · cases array_global.symm.trans h

end Value.DefinedBy

theorem Value.DefinedBy.of_integer {types : TypeTable} {earlier : Values} {id : TypeId} {r : Record}
    {zero : Register} {width : Nat} {operand : UInt64} (ht : types.WellFormed)
    (hz : zero.ZeroOf types id) (hcode : ConstantCode.ofNat? r.code.toNat = some .integer)
    (htype : types.get? id = some (.int width)) (hoperand : r.operands[0]? = some operand) :
    DefinedBy types earlier id r
      { type := some id
        kind := .register { zero with
          immediate := Constants.immediate width (decodeRotated operand width) } } := by
  obtain ⟨hpos, hle⟩ := ht.width_le htype
  refine ⟨fun _ => rfl, fun h => ?_, fun _ => ?_, ?_⟩
  · simp [Record.isElementAddress, hcode] at h
  · refine ⟨width, operand, _, _, htype, hoperand, rfl, hz.uint64Value?_eq htype ?_,
      toNat_decodeRotated operand hpos hle⟩
    rw [toNat_decodeRotated_eq operand hle]
    exact Nat.mod_lt _ (Nat.two_pow_pos width)
  · rintro _ ⟨⟩
    exact hz.hasImmediate htype rfl _

theorem Constants.Adds.definedBy {types : TypeTable} {id : TypeId} {zero : Register}
    {pool pool' : ConstantPool} {r : Record} (ht : types.WellFormed) (hz : zero.ZeroOf types id)
    (h : Adds types id zero pool r pool') :
    ∃ v, pool'.values = pool.values.push v ∧ v.DefinedBy types pool.values id r := by
  cases h with
  | null hcode => exact ⟨_, rfl, .of_register (by rw [hcode]; decide) hz.immediate⟩
  | integer hcode htype hoperand => exact ⟨_, rfl, .of_integer ht hz hcode htype hoperand⟩
  | half hcode => exact ⟨_, rfl, .of_register (by rw [hcode]; decide) hz.immediate⟩
  | float bits hcode htype =>
    exact ⟨_, rfl, .of_register (by rw [hcode]; decide) (hz.hasImmediate htype rfl bits)⟩
  | data hcode => exact ⟨_, rfl, .of_kind (by rw [hcode]; decide) nofun⟩
  | address hcode haddress => exact ⟨_, rfl, .of_addressedBy hcode haddress⟩
  | undefined hcode =>
    refine ⟨_, rfl, .of_register (fun hmem => hcode ?_) ⟨nofun, nofun⟩⟩
    simp only [List.mem_cons, List.not_mem_nil, or_false] at hmem ⊢
    rcases hmem with h | h | h <;> simp [h]

/-! ## Records in turn -/

theorem Constants.currentType_concat (done : List Record) (r : Record) :
    Constants.currentType (done ++ [r]) =
      if ValueBudget.definesConstant r then Constants.currentType done
      else r.operands[0]?.map UInt64.toNat := by
  unfold Constants.currentType
  cases hr : ValueBudget.definesConstant r with
  | true => simp [hr]
  | false => simp [hr]

namespace ConstantPool.ExtendedBy

variable {types : TypeTable} {pool pool' pool'' : ConstantPool} {done : List Record} {r : Record}

theorem refl : pool.ExtendedBy types [] pool :=
  ⟨rfl, fun _ _ => rfl, fun before r hprefix => by simp at hprefix⟩

theorem skip (h : pool.ExtendedBy types done pool')
    (hr : ValueBudget.definesConstant r = false) : pool.ExtendedBy types (done ++ [r]) pool' := by
  refine ⟨?_, h.earlier, forall_concat_prefix h.values fun hr' => ?_⟩
  · rw [h.size, countP_concat_of_neg hr]
  · rw [hr] at hr'
    cases hr'

theorem push {id : TypeId} {v : Value} (h : pool.ExtendedBy types done pool')
    (hr : ValueBudget.definesConstant r = true) (hid : Constants.currentType done = some id)
    (hlt : id < types.size) (hpush : pool''.values = pool'.values.push v)
    (hv : v.DefinedBy types pool'.values id r) : pool.ExtendedBy types (done ++ [r]) pool'' := by
  have hsize := h.size
  refine ⟨?_, fun k hk => ?_, forall_concat_prefix (fun before r' hprefix hr' => ?_) fun _ => ?_⟩
  · rw [hpush, Array.size_push, hsize, countP_concat_of_pos hr, Nat.add_assoc]
  · rw [hpush, Array.getElem?_push_lt (by omega), ← h.earlier k hk, Array.getElem?_eq_getElem]
  · obtain ⟨id', v', hid', hlt', hget, hv'⟩ := h.values before r' hprefix hr'
    have hposition := (Array.getElem?_eq_some_iff.mp hget).1
    refine ⟨id', v', hid', hlt', ?_, ?_⟩
    · rw [hpush, Array.getElem?_push, if_neg (Nat.ne_of_lt hposition), hget]
    · rw [hpush, Array.take_eq_extract, Array.extract_push_of_le (Nat.le_of_lt hposition)]
      exact hv'
  · refine ⟨id, v, hid, hlt, ?_, ?_⟩
    · rw [hpush, ← hsize, Array.getElem?_push_size]
    · rw [hpush, ← hsize, Array.take_eq_extract, Array.extract_push_of_le (Nat.le_refl _),
        Array.extract_size]
      exact hv

end ConstantPool.ExtendedBy

namespace Constants

/-- The pool of the records so far, and the type that they set last with its zero. -/
structure State.Follows (types : TypeTable) (pool : ConstantPool) (done : List Record) (s : State) :
    Prop where
  pool : pool.ExtendedBy types done s.pool
  current : ∀ id zero, s.current = some (id, zero) →
    currentType done = some id ∧ id < types.size ∧ zero.ZeroOf types id

variable {types : TypeTable} {pool : ConstantPool} {done : List Record} {s : State}

theorem State.Follows.step {s' : State} {r : Record} (ht : types.WellFormed)
    (h : s.Follows types pool done) (hstep : Step types s r s') :
    s'.Follows types pool (done ++ [r]) := by
  cases hstep with
  | setType hcode hoperand hid hzero =>
    have hr : ValueBudget.definesConstant r = false := decide_eq_false fun h => h hcode
    refine ⟨h.pool.skip hr, ?_⟩
    rintro _ _ ⟨⟩
    refine ⟨?_, hid, hzero⟩
    rw [currentType_concat, hr, hoperand]
    rfl
  | define hcode hcurrent hadds =>
    have hr : ValueBudget.definesConstant r = true := decide_eq_true hcode
    obtain ⟨hid, hlt, hz⟩ := h.current _ _ hcurrent
    obtain ⟨v, hpush, hv⟩ := hadds.definedBy ht hz
    refine ⟨h.pool.push hr hid hlt hpush hv, ?_⟩
    rw [currentType_concat, hr]
    exact h.current

theorem gives_decode_extendedBy (ht : types.WellFormed) (pool : ConstantPool) (block : Block) :
    Gives (decode types pool block) (pool.ExtendedBy types block.records) := by
  refine .after fun _ => (Gives.foldRecords_done (State.Follows types pool)
    (fun done i r s h => (Gives.constantsAdd types s i r).mono fun _ hstep => h.step ht hstep)
    ⟨.refl, ?_⟩ block.records).bind fun s h => .pure h.pool
  rintro _ _ ⟨⟩

/-- A constants block leaves the values before it as they are and adds one for each record but
those that set a type, in order. Each is of the type that was set last, unless it is the address of
an array element, which is of the type of pointers to such elements. An integer is held modulo what
its width can count, and a constant in as many bits as the kind of its register says. -/
theorem decode_extendedBy {root : Block} {start : Progress} {types : TypeTable}
    (ht : (TypeTable.decode root).run' start = some types) {pool pool' : ConstantPool}
    {block : Block} {p p' : Progress} (h : decode types pool block p = .ok pool' p') :
    pool.ExtendedBy types block.records pool' :=
  gives_decode_extendedBy (TypeTable.wellFormed_of_decode ht) pool block p pool' p' h

/-- The address of an element, under a type that is not its own, a negative integer of 64 bits and
the least of 8 bits. -/
theorem decode_extendedBy_retyped :
    let header : BlockHeader :=
      { id := BlockKind.module.id, width := 3, start := 0, length := 0, level := 0 }
    let typeRecords : List Record :=
      [⟨7, [32]⟩, ⟨11, [4, 0]⟩, ⟨8, [1, 3]⟩, ⟨8, [0, 3]⟩, ⟨7, [64]⟩, ⟨7, [8]⟩]
    let root : Block :=
      .mk header [] [.mk { header with id := BlockKind.type.id, level := 1 } typeRecords []]
    let types : TypeTable :=
      { types := #[.int 32, .array 0 4, .pointer 1 3, .pointer 0 3, .int 64, .int 8] }
    let start : Progress := { location := { source := "" } }
    let array : Register := { type := .idxTemp, data := .uint, indices := [{ offset := 0 }] }
    let pool : ConstantPool := { values := #[{ type := some 2, kind := .register array }] }
    let records : List Record := [⟨1, [0]⟩, ⟨4, [0]⟩, ⟨4, [6]⟩, ⟨20, [0, 2, 0, 0, 1, 0, 2]⟩,
      ⟨1, [4]⟩, ⟨4, [7]⟩, ⟨1, [5]⟩, ⟨4, [1]⟩]
    let block : Block := .mk { header with id := BlockKind.constants.id, level := 1 } records []
    (TypeTable.decode root).run' start = some types ∧
      ∃ pool' p', decode types pool block start = .ok pool' p' ∧ pool'.values.size = 6 ∧
        (∃ v, pool'.values[3]? = some v ∧ v.AddressedBy types (pool'.values.take 3)
          ⟨20, [0, 2, 0, 0, 1, 0, 2]⟩) ∧
        (∃ v register value, pool'.values[4]? = some v ∧ v.type = some 4 ∧
          v.kind = .register register ∧ register.uint64Value? = some value ∧
          value.toNat = 0xfffffffffffffffd) ∧
        ∃ v register value, pool'.values[5]? = some v ∧ v.type = some 5 ∧
          v.kind = .register register ∧ register.uint64Value? = some value ∧
          value.toNat = 128 := by
  intro header typeRecords root types start array pool records block
  have ht : (TypeTable.decode root).run' start = some types := by decide +kernel
  have hsome : ((decode types pool block).run' start).isSome = true := by decide +kernel
  refine ⟨ht, ?_⟩
  cases hrun : decode types pool block start with
  | error e p' =>
    rw [run'_of_error hrun] at hsome
    cases hsome
  | ok pool' p' =>
    have hextended := decode_extendedBy ht hrun
    have hinteger : ∀ before operand width id, before ++ [⟨4, [operand]⟩] <+: records →
        currentType before = some id → types.get? id = some (.int width) →
        ∃ v register value,
          pool'.values[1 + before.countP ValueBudget.definesConstant]? = some v ∧
            v.type = some id ∧ v.kind = .register register ∧
            register.uint64Value? = some value ∧
            (value.toNat : Int) = signRotated operand width % (Nat.pow 2 width : Nat) := by
      intro before operand width id hprefix hid hwidth
      obtain ⟨id', v, hid', -, hget, hv⟩ := hextended.values before _ hprefix rfl
      cases hid.symm.trans hid'
      obtain ⟨width', operand', register, value, hwidth', hoperand, hkind, hvalue, heq⟩ :=
        hv.integer rfl
      cases hwidth.symm.trans hwidth'
      cases hoperand
      exact ⟨v, register, value, hget, hv.type rfl, hkind, hvalue, heq⟩
    refine ⟨pool', p', rfl, hextended.size, ?_, ?_, ?_⟩
    · obtain ⟨_, v, -, -, hget, hv⟩ := hextended.values (records.take 3) _ ⟨records.drop 4, rfl⟩ rfl
      exact ⟨v, hget, hv.address rfl⟩
    · obtain ⟨v, register, value, hget, htype, hkind, hvalue, heq⟩ :=
        hinteger (records.take 5) 7 64 4 ⟨records.drop 6, rfl⟩ rfl rfl
      exact ⟨v, register, value, hget, htype, hkind, hvalue, Int.ofNat.inj heq⟩
    · obtain ⟨v, register, value, hget, htype, hkind, hvalue, heq⟩ :=
        hinteger (records.take 7) 1 8 5 ⟨[], rfl⟩ rfl rfl
      exact ⟨v, register, value, hget, htype, hkind, hvalue, Int.ofNat.inj heq⟩

end Constants

end Dxil
