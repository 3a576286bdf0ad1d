import Dxil.Proofs.Module.Constants
import Dxil.Proofs.Module.TypeWalk

/-!
# Dxil.Proofs.Module.ConstantArrays

The data of constant arrays. Arrays inside arrays are laid out flat, so that a record has to hold as
many numbers as all dimensions together make, exactly. Dimensions may be as large as 32 bits allow
and are multiplied up to a limit; arrays may also contain themselves.

* `TypeTable.ArrayOf` : arrays of numbers, with the exact product of their dimensions.
* `TypeTable.ArrayOf.flatten_eq`, `TypeTable.WellFormed.arrayOf_of_flatten` : flattening finds these
  and no others.
* `Constants.define_data_iff` : which records are data of a type, and what they add.
-/

namespace Dxil

namespace TypeTable

/-- An array of numbers, or of such arrays in turn, and how many numbers there are in all. -/
inductive ArrayOf (t : TypeTable) (number : Ty) : TypeId → (count : Nat) → Prop
  | numbers {id element : TypeId} {size : UInt32} (array : t.get? id = some (.array element size))
      (last : t.get? element = some number) (numeric : number.isNumeric = true) :
      t.ArrayOf number id size.toNat
  | arrays {id element : TypeId} {size : UInt32} {count : Nat}
      (array : t.get? id = some (.array element size)) (inner : t.ArrayOf number element count) :
      t.ArrayOf number id (size.toNat * count)

variable {t : TypeTable} {number : Ty} {id last : TypeId} {count total acc steps : Nat}

/-- Nothing is lost by cutting off one factor before the other is known, unless that is zero. -/
theorem min_mul_min {a b limit : Nat} (hb : 0 < b) :
    min (min a limit * b) limit = min (a * b) limit := by
  rcases Nat.le_total a limit with ha | ha
  · rw [Nat.min_eq_left ha]
  · have hlimit : limit ≤ limit * b := Nat.le_mul_of_pos_right limit hb
    have hproduct : limit ≤ a * b := Nat.le_trans hlimit (Nat.mul_le_mul_right b ha)
    rw [Nat.min_eq_right ha, Nat.min_eq_right hlimit, Nat.min_eq_right hproduct]

theorem ArrayOf.pos (ht : t.WellFormed) (h : t.ArrayOf number id count) : 0 < count := by
  induction h with
  | numbers array last numeric => exact of_decide_eq_true (ht.proper _ _ array)
  | arrays array _ ih => exact Nat.mul_pos (of_decide_eq_true (ht.proper _ _ array)) ih

theorem ArrayOf.exists_array (h : t.ArrayOf number id count) :
    ∃ element size, t.get? id = some (.array element size) := by
  cases h with
  | numbers array => exact ⟨_, _, array⟩
  | arrays array => exact ⟨_, _, array⟩

theorem flatten_of_array {element : TypeId} {size : UInt32}
    (h : t.get? id = some (.array element size)) :
    t.flatten (steps + 1) id acc =
      t.flatten steps element (min (acc * size.toNat) (UInt64.size - 1)) := by
  simp [flatten, h]

/-- Arrays of numbers are on a walk to those numbers. In as many steps, or more, flattening comes to
them, and with the product of the dimensions up to the limit. -/
theorem ArrayOf.flatten_eq (ht : t.WellFormed) (h : t.ArrayOf number id count) :
    ∃ n last, t.Walks n id last ∧ t.get? last = some number ∧ number.isNumeric = true ∧
      ∀ steps acc, n ≤ steps →
        t.flatten steps id acc = some (last, min (acc * count) (UInt64.size - 1)) := by
  induction h with
  | @numbers id element size array last numeric =>
    refine ⟨1, element, .step (.arrayElement size array) (.done element), last, numeric, ?_⟩
    intro steps acc hsteps
    obtain ⟨steps, rfl⟩ := Nat.exists_eq_succ_of_ne_zero (Nat.ne_zero_of_lt hsteps)
    have harray : number.isArray = false := by
      cases number <;> simp_all [Ty.isNumeric, Ty.isArray]
    rw [flatten_of_array array, flatten_of_get? last harray]
  | @arrays id element size count array inner ih =>
    obtain ⟨n, last, hwalks, hlast, hnumeric, hflatten⟩ := ih
    refine ⟨n + 1, last, .step (.arrayElement size array) hwalks, hlast, hnumeric, ?_⟩
    intro steps acc hsteps
    obtain ⟨steps, rfl⟩ := Nat.exists_eq_succ_of_ne_zero (Nat.ne_zero_of_lt hsteps)
    rw [flatten_of_array array, hflatten steps _ (Nat.le_of_succ_le_succ hsteps),
      min_mul_min (inner.pos ht), Nat.mul_assoc]

namespace WellFormed

variable (ht : t.WellFormed)
include ht

/-- The table has enough types for all steps: the walk to the numbers stops there. -/
theorem exists_flatten_eq (h : t.ArrayOf number id count) :
    ∃ last, t.get? last = some number ∧ number.isNumeric = true ∧ last ≠ id ∧
      t.flatten t.size id 1 = some (last, min count (UInt64.size - 1)) := by
  obtain ⟨n, last, hwalks, hlast, hnumeric, hflatten⟩ := h.flatten_eq ht
  have hnext : number.next? = none := by cases number <;> simp_all [Ty.isNumeric, Ty.next?]
  have hn := hwalks.lt_size ((ht.not_leads_iff hlast).mpr hnext) (lt_of_get? hlast)
  refine ⟨last, hlast, hnumeric, ?_, ?_⟩
  · rintro rfl
    obtain ⟨element, size, harray⟩ := h.exists_array
    rw [hlast] at harray
    cases harray
    cases hnumeric
  · rw [hflatten t.size 1 (Nat.le_of_lt hn), Nat.one_mul]

/-- Where flattening comes to numbers, it has passed arrays of them, or it has not moved. -/
theorem arrayOf_of_flatten (h : t.flatten steps id acc = some (last, total))
    (hlast : t.get? last = some number) (hnumeric : number.isNumeric = true) :
    last = id ∨
      ∃ count, t.ArrayOf number id count ∧ total = min (acc * count) (UInt64.size - 1) := by
  have hgeneral : (last = id ∧ total = acc) ∨
      ∃ count, t.ArrayOf number id count ∧ total = min (acc * count) (UInt64.size - 1) := by
    induction steps generalizing id acc with
    | zero =>
      cases h
      exact .inl ⟨rfl, rfl⟩
    | succ steps ih =>
      obtain ⟨type, hget, -⟩ := Option.bind_eq_some_iff.mp h
      cases harray : type.isArray with
      | false =>
        rw [flatten_of_get? hget harray] at h
        cases h
        exact .inl ⟨rfl, rfl⟩
      | true =>
        cases type with
        | array element size =>
          rw [flatten_of_array hget] at h
          rcases ih h with ⟨rfl, rfl⟩ | ⟨count, hinner, rfl⟩
          · exact .inr ⟨size.toNat, .numbers hget hlast hnumeric, rfl⟩
          · refine .inr ⟨size.toNat * count, .arrays hget hinner, ?_⟩
            rw [min_mul_min (hinner.pos ht), Nat.mul_assoc]
        | _ => cases harray
  exact hgeneral.imp_left fun h => h.1

end WellFormed

end TypeTable

/-! ## Records of data -/

namespace ConstantArray

variable {types : TypeTable} {number number' : Ty} {id : TypeId} {operands : List UInt64}

theorem TakesNumbers.unique (h : TakesNumbers types id operands number)
    (h' : TakesNumbers types id operands number') : number = number' := by
  obtain ⟨last, hflatten, -, hlast, -⟩ := h
  obtain ⟨last', hflatten', -, hlast', -⟩ := h'
  obtain ⟨rfl, -⟩ := Prod.mk.inj (Option.some.inj (hflatten.symm.trans hflatten'))
  exact Option.some.inj (hlast.symm.trans hlast')

/-- Numbers of an array are taken if there are as many as the array holds. A product that was cut
off is no number of operands. -/
theorem takesNumbers_iff (ht : types.WellFormed) (hlength : operands.length < UInt32.size) :
    TakesNumbers types id operands number ↔
      types.ArrayOf number id operands.length ∧ number.isBool = false := by
  have hlimit : UInt32.size < UInt64.size - 1 := by decide
  constructor
  · rintro ⟨last, hflatten, hne, hlast, hnumeric, hbool⟩
    obtain hsame | ⟨count, harray, hcount⟩ := ht.arrayOf_of_flatten hflatten hlast hnumeric
    · exact absurd hsame hne
    · obtain rfl : count = operands.length := by omega
      exact ⟨harray, hbool⟩
  · rintro ⟨harray, hbool⟩
    obtain ⟨last, hlast, hnumeric, hne, hflatten⟩ := ht.exists_flatten_eq harray
    rw [Nat.min_eq_left (by omega)] at hflatten
    exact ⟨last, hflatten, hne, hlast, hnumeric, hbool⟩

theorem ofOperands_or_rejected (hc : types.Closed) (hid : id < types.size) (index : Nat)
    (operands : List UInt64) (p : Progress) :
    (∃ array, ofOperands types id index operands p = .ok array p ∧
      ∃ number, TakesNumbers types id operands number ∧ array = ofNumbers number index operands) ∨
    (∀ number, ¬ TakesNumbers types id operands number) ∧ ∃ f : Finding, f.isError = true ∧
      ofOperands types id index operands p = .error (.invalid none) (p.add ⟨p.location, f⟩) :=
  Abides.ok_or_rejected (.constantArray index (fun hno => ⟨rfl, hno⟩)
    fun hnot => hnot ⟨hc, hid⟩) p

/-- The array holds the operands, as numbers of a type, and is at a position among the arrays. -/
structure Holds (array : ConstantArray) (number : Ty) (index : Nat) (operands : List UInt64) :
    Prop where
  register : index < UInt32.size → array.register.toNat = index
  dataType : array.dataType = number.dataType
  componentCount : array.componentCount = 1
  elementCount : array.elementCount.toNat = operands.length
  /-- All bits of numbers that have 64, and otherwise the low ones. -/
  data : array.data = if number.width? = some 64 then .quads operands
    else .words (operands.map UInt64.toUInt32)

theorem holds_ofNumbers (hlength : operands.length < UInt32.size) (index : Nat) :
    (ofNumbers number index operands).Holds number index operands :=
  ⟨fun hindex => UInt32.toNat_ofNat_of_lt' hindex, rfl, rfl, UInt32.toNat_ofNat_of_lt' hlength, rfl⟩

end ConstantArray

theorem Constants.define_of_data {types : TypeTable} {id : TypeId} {r : Record}
    (hid : id < types.size) (hcode : ConstantCode.ofNat? r.code.toNat = some .data)
    (zero : Register) (pool : ConstantPool) (i : Nat) :
    Constants.define types id zero pool i r =
      (ConstantArray.ofOperands types id pool.arrays.size r.operands >>= fun array =>
        pure { pool.push id (.array pool.arrays.size) with arrays := pool.arrays.push array }) := by
  obtain ⟨type, hget⟩ := TypeTable.get?_of_lt hid
  unfold Constants.define
  simp only [TypeTable.typeOf, hget, present, pure_bind, hcode]

/-- In every table that decoding gives, a record is data of a type exactly if the type is an array
of numbers, or of such arrays in turn, the numbers are not single bits, and there are as many
operands as the dimensions make. It then adds one array, which holds the operands. Otherwise there
is an error, and no pool with or without an array. -/
theorem Constants.define_data_iff {root : Block} {start : Progress} {types : TypeTable}
    (ht : (TypeTable.decode root).run' start = some types) {id : TypeId} (hid : id < types.size)
    {r : Record} (hcode : ConstantCode.ofNat? r.code.toNat = some .data)
    (hlength : r.operands.length < UInt32.size) (zero : Register) (pool : ConstantPool) (i : Nat)
    (p : Progress) :
    ((∃ pool' p', Constants.define types id zero pool i r p = .ok pool' p') ↔
      ∃ number count, types.ArrayOf number id count ∧ number.isBool = false ∧
        count = r.operands.length) ∧
    (∀ number, types.ArrayOf number id r.operands.length → number.isBool = false →
      ∃ array, array.Holds number pool.arrays.size r.operands ∧
        Constants.define types id zero pool i r p =
          .ok { values := pool.values.push { type := some id, kind := .array pool.arrays.size }
                arrays := pool.arrays.push array } p) ∧
    (∀ e p', Constants.define types id zero pool i r p = .error e p' →
      e = .invalid none ∧ ∃ f, f.isError = true ∧ p' = p.add ⟨p.location, f⟩) := by
  replace ht := TypeTable.wellFormed_of_decode ht
  rw [Constants.define_of_data hid hcode]
  have htakes : ∀ number, ConstantArray.TakesNumbers types id r.operands number ↔
      types.ArrayOf number id r.operands.length ∧ number.isBool = false :=
    fun _ => ConstantArray.takesNumbers_iff ht hlength
  obtain ⟨array, hrun, number, hnumbers, rfl⟩ | ⟨hnone, f, hf, hrun⟩ :=
    ConstantArray.ofOperands_or_rejected ht.toClosed hid pool.arrays.size r.operands p
  · rw [bind_of_ok hrun]
    refine ⟨⟨fun _ => ⟨number, _, ((htakes number).mp hnumbers).1, ((htakes number).mp hnumbers).2,
      rfl⟩, fun _ => ⟨_, p, rfl⟩⟩, fun number' harray hbool => ?_, ?_⟩
    · obtain rfl := hnumbers.unique ((htakes number').mpr ⟨harray, hbool⟩)
      exact ⟨_, ConstantArray.holds_ofNumbers hlength pool.arrays.size, rfl⟩
    · rintro _ _ ⟨⟩
  · rw [bind_of_error hrun]
    refine ⟨⟨?_, ?_⟩, fun number harray hbool => ?_, ?_⟩
    · rintro ⟨_, _, ⟨⟩⟩
    · rintro ⟨number, _, harray, hbool, rfl⟩
      exact absurd ((htakes number).mpr ⟨harray, hbool⟩) (hnone number)
    · exact absurd ((htakes number).mpr ⟨harray, hbool⟩) (hnone number)
    · rintro _ _ ⟨⟩
      exact ⟨rfl, f, hf, rfl⟩

/-- Six numbers of 64 bits for two arrays of three, and for an array whose dimensions make more than
64 bits can count. -/
theorem Constants.define_data_iff_nested :
    let header : BlockHeader :=
      { id := BlockKind.module.id, width := 3, start := 0, length := 0, level := 0 }
    let records : List Record :=
      [⟨11, [2, 1]⟩, ⟨11, [3, 2]⟩, ⟨7, [64]⟩, ⟨11, [0, 4]⟩, ⟨11, [0, 5]⟩, ⟨11, [0, 2]⟩]
    let root : Block :=
      .mk header [] [.mk { header with id := BlockKind.type.id, level := 1 } records []]
    let types : TypeTable :=
      { types := #[.array 1 2, .array 2 3, .int 64, .array 4 0xffffffff, .array 5 0xffffffff,
          .array 2 0xffffffff] }
    let start : Progress := { location := { source := "" } }
    let r : Record := ⟨22, [1, 0xffffffffffffffff, 3, 4, 5, 6]⟩
    (TypeTable.decode root).run' start = some types ∧ 0 < types.size ∧ 3 < types.size ∧
      ConstantCode.ofNat? r.code.toNat = some .data ∧ r.operands.length < UInt32.size ∧
      (∃ pool array, Constants.define types 0 .unknown { } 0 r start = .ok pool start ∧
        pool.arrays = #[array] ∧ array.elementCount.toNat = 6 ∧ array.data = .quads r.operands) ∧
      ∃ p' f, Constants.define types 3 .unknown { } 0 r start = .error (.invalid none) p' ∧
        f.isError = true ∧ p' = start.add ⟨start.location, f⟩ := by
  intro header records root types start r
  have ht : (TypeTable.decode root).run' start = some types := by decide +kernel
  have hcode : ConstantCode.ofNat? r.code.toNat = some .data := by decide
  have hlength : r.operands.length < UInt32.size := by decide
  refine ⟨ht, by decide, by decide, hcode, hlength, ?_, ?_⟩
  · have harray : types.ArrayOf (.int 64) 0 (UInt32.toNat 2 * UInt32.toNat 3) :=
      .arrays rfl (.numbers rfl rfl rfl)
    obtain ⟨-, hok, -⟩ := Constants.define_data_iff ht (by decide : 0 < types.size) hcode hlength
      .unknown { } 0 start
    obtain ⟨array, hholds, hrun⟩ := hok (.int 64) harray rfl
    exact ⟨_, array, hrun, rfl, hholds.elementCount, hholds.data⟩
  · obtain ⟨-, -, herror⟩ := Constants.define_data_iff ht (by decide : 3 < types.size) hcode hlength
      .unknown { } 0 start
    have hnone : (Constants.define types 3 .unknown { } 0 r).run' start |>.isNone := by
      decide +kernel
    cases hrun : Constants.define types 3 .unknown { } 0 r start with
    | ok pool p' =>
      rw [run'_of_ok hrun] at hnone
      cases hnone
    | error e p' =>
      obtain ⟨rfl, f, hf, hp'⟩ := herror e p' hrun
      exact ⟨p', f, rfl, hf, hp'⟩

end Dxil
