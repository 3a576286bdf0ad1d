import Dxil.Module.Globals
import Dxil.Proofs.Module.TypeTable

/-!
# Dxil.Proofs.Module.Constants

The values of module scope: functions, pointers to register arrays, constants and constant data.

* `Register.Static`, `Value.Static` : what they look like.
* `Value.Complete` : a value with the types that the records that use it look for. Only an error
  leaves others.
* `ConstantPool.Sound` : a pool of such values.
* `Constants.Adds`, `Constants.Step` : what a record of a constants block can do.
* `Abides.constantsAdd` : it does nothing else.
* `Ensures.constantsDecode` : a constants block adds only such values.
-/

namespace Dxil

/-- A constant, or what stands for one that is undefined or unknown. -/
structure Register.Constant (r : Register) : Prop where
  type : r.type ∈ [.immConst, .immConst64, .undef, .invalid]
  indices : r.indices = []

/-- A constant, or an element or the whole of one of `temps` register arrays, at a
fixed index. -/
inductive Register.Static (temps : Nat) (r : Register) : Prop where
  | constant (constant : r.Constant)
  | temp (type : r.type = .idxTemp) (first : RegisterIndex) (rest : List RegisterIndex)
      (indices : r.indices = first :: rest) (length : rest.length ≤ 1)
      (offset : first.offset.toNat < temps) (fixed : ∀ i ∈ r.indices, i.relative = none)

theorem Register.Static.mono {m n : Nat} {r : Register} (h : r.Static m) (hmn : m ≤ n) :
    r.Static n := by
  cases h with
  | constant constant => exact .constant constant
  | temp type first rest indices length offset fixed =>
    exact .temp type first rest indices length (Nat.lt_of_lt_of_le offset hmn) fixed

/-- A register holds the value, or a resource. -/
def Value.isReadable (v : Value) : Bool := v.isRegister || v.isHandle

/-- The element type of an array or vector, and otherwise the type itself. -/
def TypeTable.element? (t : TypeTable) : Ty → Option Ty
  | .array element _ | .vector element _ => t.get? element
  | type => some type

/-- The null of a type that is no number. Nothing is known of it. -/
def Value.IsUnknownNull (types : TypeTable) (v : Value) : Prop :=
  ∃ id type element, v = { type := some id, kind := .register .unknown } ∧
    types.get? id = some type ∧ type.isArray = false ∧ types.element? type = some element ∧
    element.isNumeric = false

/-- What no register holds is no number. -/
def Value.Typed (types : TypeTable) (v : Value) : Prop :=
  v.isReadable = false → ∃ type, v.type.bind types.get? = some type ∧ type.isNumeric = false

/-- A value of module scope, beside `temps` register arrays and `arrays` constant arrays. -/
structure Value.Static (types : TypeTable) (temps arrays : Nat) (v : Value) : Prop where
  type : types.Defines v.type
  register : ∀ r, v.kind = .register r → r.Static temps
  array : ∀ i, v.kind = .array i → i < arrays
  handle : ∀ r, v.kind ≠ .handle r
  typed : v.Typed types
  unknown : ∀ r, v.kind = .register r → r.type = .invalid → v.IsUnknownNull types

theorem Value.Static.mono {types : TypeTable} {temps temps' arrays arrays' : Nat} {v : Value}
    (h : v.Static types temps arrays) (htemps : temps ≤ temps') (harrays : arrays ≤ arrays') :
    v.Static types temps' arrays' :=
  ⟨h.type, fun r hr => (h.register r hr).mono htemps,
    fun i hi => Nat.lt_of_lt_of_le (h.array i hi) harrays, h.handle, h.typed, h.unknown⟩

theorem Value.static_register {types : TypeTable} {temps arrays : Nat} {id : TypeId}
    {r : Register} (hid : id < types.size) (hr : r.Static temps)
    (hunknown : r.type = .invalid →
      Value.IsUnknownNull types { type := some id, kind := .register r }) :
    Value.Static types temps arrays { type := some id, kind := .register r } := by
  refine ⟨TypeTable.defines_some hid, ?_, ?_, ?_, nofun, ?_⟩
  · rintro _ ⟨⟩
    exact hr
  · rintro _ ⟨⟩
  · rintro _ ⟨⟩
  · rintro _ ⟨⟩
    exact hunknown

/-- A value has a type, and a function points to a function type. -/
structure Value.Complete (types : TypeTable) (v : Value) : Prop where
  type : v.type.isSome = true
  function : ∀ decl, v.function? = some decl → v.signature types ≠ some none

def Values.Complete (types : TypeTable) (values : Values) : Prop := ∀ v ∈ values, v.Complete types

theorem Values.Complete.push {types : TypeTable} {values : Values} {v : Value}
    (h : values.Complete types) (hv : v.Complete types) :
    Values.Complete types (values.push v) := by
  intro v' hmem
  rcases Array.mem_push.mp hmem with hmem | rfl
  · exact h v' hmem
  · exact hv

namespace ConstantPool

/-- Every value of the pool is a complete value of module scope, and there are `least` constant
arrays or more. Arrays outlive the values that refer to them. -/
structure Sound (types : TypeTable) (temps least : Nat) (p : ConstantPool) : Prop where
  values : ∀ v ∈ p.values, v.Static types temps p.arrays.size
  complete : p.values.Complete types
  arrays : least ≤ p.arrays.size

variable {types : TypeTable} {temps least : Nat} {p : ConstantPool}

theorem Sound.push {id : TypeId} {register : Register} (h : p.Sound types temps least)
    (hv : Value.Static types temps p.arrays.size { type := some id, kind := .register register }) :
    (p.push id (.register register)).Sound types temps least := by
  refine ⟨fun v hmem => ?_, h.complete.push ⟨rfl, nofun⟩, h.arrays⟩
  rcases Array.mem_push.mp hmem with hmem | rfl
  · exact h.values v hmem
  · exact hv

theorem Sound.pushArray {id : TypeId} {type : Ty} (h : p.Sound types temps least)
    (hid : types.get? id = some type) (htype : type.isArray = true) (array : ConstantArray) :
    Sound types temps least
      { p.push id (.array p.arrays.size) with arrays := p.arrays.push array } := by
  refine ⟨fun v hmem => ?_, h.complete.push ⟨rfl, nofun⟩, Nat.le_trans h.arrays (by simp)⟩
  simp only [Array.size_push]
  rcases Array.mem_push.mp hmem with hmem | rfl
  · exact (h.values v hmem).mono (Nat.le_refl _) (by omega)
  · refine ⟨TypeTable.defines_some (TypeTable.lt_of_get? hid), nofun, ?_, nofun,
      fun _ => ⟨type, hid, ?_⟩, nofun⟩
    · rintro _ ⟨⟩
      exact Nat.lt_succ_self _
    · cases type with
      | array => rfl
      | _ => cases htype

end ConstantPool

theorem Values.mem_of_at? {values : Values} {index : UInt64} {v : Value}
    (h : values.at? index = some v) : v ∈ values :=
  Array.mem_of_getElem? h

namespace Register

theorem length_setIndexCount (r : Register) (n : Nat) :
    (r.setIndexCount n).indices.length = min n maxIndices := by
  simp only [setIndexCount, List.length_take, List.length_append, List.length_replicate]
  omega

theorem setIndex?_of_lt {r : Register} {i : Nat} (index : RegisterIndex)
    (h : i < r.indices.length) :
    r.setIndex? i index = some { r with indices := r.indices.set i index } :=
  if_pos h

def withElement (r : Register) (index : RegisterIndex) : Register :=
  { r with indices := [r.indices.headD RegisterIndex.zero, index] }

theorem setIndex?_setIndexCount (r : Register) (index : RegisterIndex) :
    (r.setIndexCount 2).setIndex? 1 index = some (r.withElement index) := by
  rw [setIndex?_of_lt index (by rw [length_setIndexCount]; decide)]
  match h : r.indices with
  | [] => simp [setIndexCount, withElement, h, maxIndices]
  | [a] => simp [setIndexCount, withElement, h, maxIndices]
  | a :: b :: rest => simp [setIndexCount, withElement, h, maxIndices]

theorem Static.withElement {temps : Nat} {r : Register} (h : r.Static temps)
    (htype : r.type = .idxTemp) {index : RegisterIndex} (hindex : index.relative = none) :
    (r.withElement index).Static temps := by
  cases h with
  | constant constant => simpa [htype] using constant.type
  | temp type first rest indices length offset fixed =>
    refine .temp type first [index] (by simp [Register.withElement, indices]) (by simp) offset ?_
    have hfirst := fixed first (by simp [indices])
    simp [Register.withElement, indices, hfirst, hindex]

end Register

/-! ## Records -/

/-- The number of operands of a record that warns of more. -/
def ConstantCode.most? : ConstantCode → Option Nat
  | undef => some 0
  | setType | integer | float => some 1
  | _ => none

/-- The zero that belongs to a type: that of its element. -/
def Register.ZeroOf (types : TypeTable) (id : TypeId) (zero : Register) : Prop :=
  ∃ type element, types.get? id = some type ∧ types.element? type = some element ∧
    zero = Constants.zero element

def Record.isElementAddress (r : Record) : Bool :=
  ConstantCode.ofNat? r.code.toNat ∈ [some .gep, some .inBoundsGep]

/-- The address of an element of a global array, as a record asks for it. The array is behind a
pointer among the earlier values, and so are the zero and the index that lead to the element. The
type is that of pointers to the element, in the address space of the array. -/
inductive Value.AddressedBy (types : TypeTable) (earlier : Values) (r : Record) (v : Value) : Prop
  | element {t₀ t₁ t₂ base zero index space : UInt64} {array : Value} {register : Register}
      {arrayPointer arrayType elementType pointer : TypeId} {count offset : UInt32}
      (operands : r.operands.drop (r.operands.length % 2) = [t₀, base, t₁, zero, t₂, index])
      (array_at : earlier.at? base = some array)
      (array_kind : array.kind = .register register)
      (array_global : register.type = .idxTemp)
      (array_type : array.type = some arrayPointer)
      (points : types.get? arrayPointer = some (.pointer arrayType space))
      (elements : types.get? arrayType = some (.array elementType count))
      (zero_at : (earlier.at? zero).bind Value.constantUint? = some 0)
      (index_at : (earlier.at? index).bind Value.constantUint? = some offset)
      (bound : offset < count)
      (type : v.type = some pointer)
      (pointer_type : types.get? pointer = some (.pointer elementType space))
      (kind : v.kind = .register (register.withElement
        { offset, inBounds := ConstantCode.ofNat? r.code.toNat = some .inBoundsGep }))

namespace ConstantArray

def ofNumbers (number : Ty) (index : Nat) (operands : List UInt64) : ConstantArray where
  register := UInt32.ofNat index
  dataType := number.dataType
  componentCount := 1
  elementCount := UInt32.ofNat operands.length
  data :=
    if number.width? = some 64 then .quads operands else .words (operands.map UInt64.toUInt32)

/-- Flattening a type comes to numbers elsewhere, as many as there are operands. -/
def TakesNumbers (types : TypeTable) (id : TypeId) (operands : List UInt64) (number : Ty) : Prop :=
  ∃ last, types.flatten types.size id 1 = some (last, operands.length) ∧ last ≠ id ∧
    types.get? last = some number ∧ number.isNumeric = true ∧ number.isBool = false

theorem TakesNumbers.isArray {types : TypeTable} {id : TypeId} {operands : List UInt64}
    {number type : Ty} (h : TakesNumbers types id operands number)
    (htype : types.get? id = some type) : type.isArray = true := by
  obtain ⟨last, hflatten, hne, -⟩ := h
  cases harray : type.isArray with
  | true => rfl
  | false =>
    rw [TypeTable.flatten_of_get? htype harray, Option.some.injEq, Prod.mk.injEq] at hflatten
    exact absurd hflatten.1.symm hne

end ConstantArray

namespace Constants

/-- What a record of the current type `id`, whose zero is `zero`, can do to the pool. -/
inductive Adds (types : TypeTable) (id : TypeId) (zero : Register) (pool : ConstantPool)
    (r : Record) : ConstantPool → Prop where
  | null {type : Ty} (hcode : ConstantCode.ofNat? r.code.toNat = some .null)
      (htype : types.get? id = some type) (harray : type.isArray = false) :
      Adds types id zero pool r (pool.push id (.register zero))
  | integer {width : Nat} {operand : UInt64}
      (hcode : ConstantCode.ofNat? r.code.toNat = some .integer)
      (htype : types.get? id = some (.int width)) (hoperand : r.operands[0]? = some operand) :
      Adds types id zero pool r (pool.push id (.register
        { zero with immediate := immediate width (decodeRotated operand width) }))
  | half (hcode : ConstantCode.ofNat? r.code.toNat = some .float)
      (htype : types.get? id = some (.float 16)) :
      Adds types id zero pool r (pool.push id (.register zero))
  | float {width : Nat} (bits : UInt64) (hcode : ConstantCode.ofNat? r.code.toNat = some .float)
      (htype : types.get? id = some (.float width)) :
      Adds types id zero pool r (pool.push id (.register
        { zero with immediate := immediate width bits }))
  | data {number : Ty} (hcode : ConstantCode.ofNat? r.code.toNat = some .data)
      (hnumbers : ConstantArray.TakesNumbers types id r.operands number) :
      Adds types id zero pool r
        { pool.push id (.array pool.arrays.size) with
          arrays := pool.arrays.push (.ofNumbers number pool.arrays.size r.operands) }
  | address {pointer : TypeId} {register : Register} (hcode : r.isElementAddress = true)
      (h : Value.AddressedBy types pool.values r
        { type := some pointer, kind := .register register }) :
      Adds types id zero pool r (pool.push pointer (.register register))
  | undefined (hcode : ConstantCode.ofNat? r.code.toNat ∉
        [some .null, some .integer, some .float, some .data, some .gep, some .inBoundsGep]) :
      Adds types id zero pool r (pool.push id (.register { zero with type := .undef }))

inductive Step (types : TypeTable) (s : State) (r : Record) : State → Prop where
  | setType {operand : UInt64} {zero : Register}
      (hcode : ConstantCode.ofNat? r.code.toNat = some .setType)
      (hoperand : r.operands[0]? = some operand) (hid : operand.toNat < types.size)
      (hzero : zero.ZeroOf types operand.toNat) :
      Step types s r { s with current := some (operand.toNat, zero) }
  | define {id : TypeId} {zero : Register} {pool : ConstantPool}
      (hcode : ConstantCode.ofNat? r.code.toNat ≠ some .setType)
      (hcurrent : s.current = some (id, zero)) (hadds : Adds types id zero s.pool r pool) :
      Step types s r { s with pool }

theorem Adds.push {types : TypeTable} {id : TypeId} {zero : Register} {pool pool' : ConstantPool}
    {r : Record} (h : Adds types id zero pool r pool') :
    ∃ v, pool'.values = pool.values.push v := by
  cases h <;> exact ⟨_, rfl⟩

end Constants

namespace Abides

variable {T : Terms} {types : TypeTable} {r : Record}

theorem elementType {type : Ty} (hd : (¬ ∀ ref ∈ type.references, ref < types.size) → T.dangles) :
    Abides T (Constants.elementType types type) fun element =>
      types.element? type = some element := by
  cases type with
  | array element | vector element =>
    exact typeOf fun hnot => hd fun href => hnot (href element (by simp [Ty.references]))
  | _ => exact .pure rfl

theorem constantTemplate {id : TypeId} (hd : ¬ (types.Closed ∧ id < types.size) → T.dangles) :
    Abides T (Constants.template types id) (Register.ZeroOf types id) := by
  refine (typeOf fun hnot => hd fun h => hnot h.2).bind fun type htype =>
    (elementType fun hnot => hd fun h => hnot (h.1.references id type htype)).bind
    fun element helement => .pure ⟨type, element, htype, helement, rfl⟩

section

variable (hno : T.leaves none)
include hno

theorem constantInteger {type : Ty} {zero : Register} (i : Nat) (hcounts : T.Counts r 1) :
    Abides T (Constants.integer type zero i r) fun register =>
      ∃ width operand, type = .int width ∧ r.operands[0]? = some operand ∧ register =
        { zero with immediate := Constants.immediate width (decodeRotated operand width) } := by
  refine (checkOperands r 1 1 (fun _ => hno) hcounts).bind fun _ hlen => (operand (by omega)).bind
    fun operand hoperand => ?_
  split
  · exact .pure ⟨_, operand, rfl, hoperand, rfl⟩
  · exact .reject rfl hno

theorem constantFloat {type : Ty} {zero : Register} (i : Nat) (hcounts : T.Counts r 1) :
    Abides T (Constants.float type zero i r) fun register =>
      (type = .float 16 ∧ register = zero) ∨ ∃ width bits, type = .float width ∧
        register = { zero with immediate := Constants.immediate width bits } := by
  refine (checkOperands r 1 1 (fun _ => hno) hcounts).bind fun _ hlen => (operand (by omega)).bind
    fun bits _ => ?_
  split
  · exact .pure (.inl ⟨rfl, rfl⟩)
  · exact .pure (.inr ⟨_, bits, rfl, rfl⟩)
  · exact .pure (.inr ⟨_, bits, rfl, rfl⟩)
  · exact .reject rfl hno

theorem gepBase {base : Value} (hd : ¬ types.Defines base.type → T.dangles) :
    Abides T (Constants.gepBase types base) fun e =>
      base.kind = .register e.2.2 ∧ e.2.2.type = .idxTemp ∧
        ∃ id, base.type = some id ∧ types.get? id = some (.pointer e.1 e.2.1) := by
  refine (typeOf? hd).bind fun type htype => ?_
  split
  · rename_i hkind
    obtain ⟨id, hid, hget⟩ := Option.bind_eq_some_iff.mp htype.1.symm
    exact (rejectIf rfl fun _ => hno).bind fun _ htemp =>
      .pure ⟨hkind, by simpa using htemp, id, hid, hget⟩
  · exact .reject rfl hno

theorem gepElement {array : TypeId} (offset : UInt32) (hd : ¬ array < types.size → T.dangles) :
    Abides T (Constants.gepElement types array offset) fun element =>
      ∃ count, types.get? array = some (.array element count) ∧ offset < count := by
  refine (typeOf hd).bind fun type htype => ?_
  split
  · exact (rejectIf rfl fun _ => hno).bind fun _ hbound =>
      .pure ⟨_, htype, by simpa using hbound⟩
  · exact .reject rfl hno

theorem constantGep {values : Values} {inBounds : Bool}
    (hcode : inBounds = decide (ConstantCode.ofNat? r.code.toNat = some .inBoundsGep))
    (hd : ¬ (types.Closed ∧ ∀ v ∈ values, types.Defines v.type) → T.dangles) :
    Abides T (Constants.gep types values inBounds r.operands) fun e =>
      Value.AddressedBy types values r { type := some e.1, kind := .register e.2 } := by
  subst hcode
  unfold Constants.gep
  split
  · rename_i hoperands
    refine (orReject rfl fun _ => hno).bind fun array harray => (gepBase hno fun hnot =>
      hd fun h => hnot (h.2 array (Values.mem_of_at? harray))).bind fun e he => ?_
    obtain ⟨arrayType, space, register⟩ := e
    obtain ⟨hkind, htemp, pointer, hpointer, hpoints⟩ := he
    refine (rejectIf rfl fun _ => hno).bind fun _ hzero => (orReject rfl fun _ => hno).bind
      fun offset hoffset => (gepElement hno offset fun hnot => hd fun h => hnot ?_).bind
      fun element helement => ?_
    · exact h.1.references pointer _ hpoints arrayType (by simp [Ty.references])
    obtain ⟨count, harrayType, hbound⟩ := helement
    have hset := register.setIndex?_setIndexCount
      { offset, inBounds := decide (ConstantCode.ofNat? r.code.toNat = some .inBoundsGep) }
    refine (lookupPointer rfl hno fun hnot => hd fun h => hnot ?_).bind fun type htype =>
      (present fun hnone => ?_).bind fun register' hregister => .pure ?_
    · exact h.1.references arrayType _ harrayType element (by simp [Ty.references])
    · cases hset.symm.trans hnone
    · cases hset.symm.trans hregister
      exact .element hoperands harray hkind htemp hpointer hpoints harrayType (by simpa using hzero)
        hoffset hbound rfl htype rfl
  · exact .reject rfl hno

end

theorem constantArray {id : TypeId} {operands : List UInt64} (index : Nat)
    (hno : (∀ number, ¬ ConstantArray.TakesNumbers types id operands number) → T.leaves none)
    (hd : ¬ (types.Closed ∧ id < types.size) → T.dangles) :
    Abides T (ConstantArray.ofOperands types id index operands) fun array =>
      ∃ number, ConstantArray.TakesNumbers types id operands number ∧
        array = .ofNumbers number index operands := by
  refine (present fun hnone => hd fun h => ?_).bind fun ⟨last, total⟩ hflatten =>
    (typeOf fun hnot => hd fun h => hnot ?_).bind fun number hnumber => ?_
  · obtain ⟨_, hsome, -⟩ := h.1.flatten types.size 1 h.2
    cases hsome.symm.trans hnone
  · obtain ⟨_, hsome, hlt⟩ := h.1.flatten types.size 1 h.2
    cases hsome.symm.trans hflatten
    exact hlt
  -- There is one type that flattening comes to, and one number of elements.
  have hreject : ¬ (last ≠ id ∧ number.isNumeric = true ∧ number.isBool = false ∧
      total = operands.length) → T.leaves none := by
    refine fun hnot => hno ?_
    rintro number' ⟨last', hflatten', hne, hget, hnumeric, hbool⟩
    cases hflatten.symm.trans hflatten'
    cases hnumber.symm.trans hget
    exact hnot ⟨hne, hnumeric, hbool, rfl⟩
  refine (rejectIf rfl fun hdata => hreject ?_).bind fun _ hdata =>
    (rejectIf rfl fun hbool => hreject ?_).bind fun _ hbool =>
    (rejectIf rfl fun hsize => hreject ?_).bind fun _ hsize => .pure ?_
  · rintro ⟨hne, hnumeric, -⟩
    simp [hne, hnumeric] at hdata
  · rintro ⟨-, -, hbool', -⟩
    simp [hbool'] at hbool
  · rintro ⟨-, -, -, htotal⟩
    exact hsize htotal
  · obtain rfl : total = operands.length := Decidable.not_not.mp hsize
    simp only [not_or, Bool.not_eq_true, Bool.not_eq_false'] at hdata hbool
    exact ⟨number, ⟨last, hflatten, hdata.1, hnumber, hdata.2, hbool⟩, rfl⟩

section

variable (hno : T.leaves none)
  (hcounts : ∀ code most, ConstantCode.ofNat? r.code.toNat = some code → code.most? = some most →
    T.Counts r most)
include hno hcounts

theorem constantDefine {id : TypeId} {zero : Register} {pool : ConstantPool} (i : Nat)
    (hd : ¬ (types.Closed ∧ id < types.size ∧ ∀ v ∈ pool.values, types.Defines v.type) →
      T.dangles) :
    Abides T (Constants.define types id zero pool i r) (Constants.Adds types id zero pool r) := by
  have hgep : ∀ inBounds code, ConstantCode.ofNat? r.code.toNat = some code →
      r.isElementAddress = true → inBounds = decide (some code = some ConstantCode.inBoundsGep) →
      Abides T (Constants.gep types pool.values inBounds r.operands >>= fun e =>
        Pure.pure (pool.push e.1 (.register e.2))) (Constants.Adds types id zero pool r) := by
    intro inBounds code hcode haddress heq
    refine (constantGep hno (by rw [hcode, heq]) fun hnot => hd fun h => hnot ⟨h.1, h.2.2⟩).bind
      fun e he => .pure (.address haddress he)
  refine (typeOf fun hnot => hd fun h => hnot h.2.1).bind fun type htype => ?_
  cases hcode : ConstantCode.ofNat? r.code.toNat with
  | none => exact .pure (.undefined (by rw [hcode]; decide))
  | some code =>
    cases code with
    | setType | string => exact .pure (.undefined (by rw [hcode]; decide))
    | undef =>
      exact (ignoreBeyond r 0 (hcounts _ 0 hcode rfl)).bind fun _ _ =>
        .pure (.undefined (by rw [hcode]; decide))
    | null =>
      dsimp only
      split <;> rename_i harray
      · exact .reject rfl hno
      · exact .pure (.null hcode htype (Bool.eq_false_iff.mpr harray))
    | integer =>
      refine (constantInteger hno i (hcounts _ 1 hcode rfl)).bind fun register hregister => .pure ?_
      obtain ⟨width, operand, rfl, hoperand, rfl⟩ := hregister
      exact .integer hcode htype hoperand
    | float =>
      refine (constantFloat hno i (hcounts _ 1 hcode rfl)).bind fun register hregister => .pure ?_
      obtain ⟨rfl, rfl⟩ | ⟨width, bits, rfl, rfl⟩ := hregister
      · exact .half hcode htype
      · exact .float bits hcode htype
    | data =>
      refine (constantArray _ (fun _ => hno) fun hnot => hd fun h => hnot ⟨h.1, h.2.1⟩).bind
        fun array harray => .pure ?_
      obtain ⟨number, hnumbers, rfl⟩ := harray
      exact .data hcode hnumbers
    | gep => exact hgep false .gep hcode (by simp [Record.isElementAddress, hcode]) rfl
    | inBoundsGep =>
      exact hgep true .inBoundsGep hcode (by simp [Record.isElementAddress, hcode]) rfl

theorem constantsAdd {s : Constants.State} (i : Nat)
    (hd : ¬ (types.Closed ∧ (∀ id zero, s.current = some (id, zero) → id < types.size) ∧
      ∀ v ∈ s.pool.values, types.Defines v.type) → T.dangles) :
    Abides T (Constants.add types s i r) (Constants.Step types s r) := by
  unfold Constants.add
  split <;> rename_i hcode
  · refine (checkOperands r 1 1 (fun _ => hno) (hcounts _ 1 hcode rfl)).bind fun _ hlen =>
      (operand (by omega)).bind fun operand hoperand => (lookup hno).bind fun id hid => ?_
    obtain ⟨rfl, hlt⟩ := hid
    exact (constantTemplate fun hnot => hd fun h => hnot ⟨h.1, hlt⟩).bind fun zero hzero =>
      .pure (.setType hcode hoperand hlt hzero)
  · split
    · exact .reject rfl hno
    · rename_i id zero hcurrent
      exact (constantDefine hno hcounts i fun hnot => hd fun h =>
        hnot ⟨h.1, h.2.1 id zero hcurrent, h.2.2⟩).bind fun pool hpool =>
        .pure (.define hcode hcurrent hpool)

end

end Abides

/-! ## Zeros -/

namespace Constants

variable {types : TypeTable} {id : TypeId} {zero : Register} {type : Ty} {width : Nat}

theorem zero_of_width (h : type.width? = some width) :
    Constants.zero type = if 32 < width then
      { type := .immConst64, data := type.dataType, immediate := .quads 0 0 }
    else { type := .immConst, data := type.dataType } := by
  rw [Constants.zero, h]

theorem zero_of_not_isNumeric (h : type.isNumeric = false) : Constants.zero type = .unknown := by
  cases type with
  | int | float => cases h
  | _ => rfl

theorem constant_zero (type : Ty) : (Constants.zero type).Constant := by
  unfold Constants.zero
  split
  · exact ⟨by simp [Register.unknown], rfl⟩
  · split
    · exact ⟨by simp, rfl⟩
    · exact ⟨by simp, rfl⟩

end Constants

namespace Register.ZeroOf

variable {types : TypeTable} {id : TypeId} {zero : Register} {type : Ty} {width : Nat}

theorem constant (h : zero.ZeroOf types id) : zero.Constant := by
  obtain ⟨_, element, -, -, rfl⟩ := h
  exact Constants.constant_zero element

theorem eq_zero (h : zero.ZeroOf types id) (htype : types.get? id = some type)
    (hwidth : type.width? = some width) : zero = Constants.zero type := by
  obtain ⟨type', element, htype', helement, rfl⟩ := h
  cases htype.symm.trans htype'
  cases type with
  | int | float =>
    cases helement
    rfl
  | _ => cases hwidth

theorem type_ne_invalid (h : zero.ZeroOf types id) (htype : types.get? id = some type)
    (hwidth : type.width? = some width) : zero.type ≠ .invalid := by
  rw [h.eq_zero htype hwidth, Constants.zero_of_width hwidth]
  split <;> simp

theorem isUnknownNull (h : zero.ZeroOf types id) (htype : types.get? id = some type)
    (harray : type.isArray = false) (hunknown : zero.type = .invalid) :
    Value.IsUnknownNull types { type := some id, kind := .register zero } := by
  obtain ⟨type', element, htype', helement, rfl⟩ := h
  cases htype.symm.trans htype'
  cases hnumeric : element.isNumeric with
  | false =>
    rw [Constants.zero_of_not_isNumeric hnumeric]
    exact ⟨id, type, element, rfl, htype, harray, helement, hnumeric⟩
  | true =>
    obtain ⟨width, hwidth⟩ : ∃ width, element.width? = some width := by
      cases element with
      | int | float => exact ⟨_, rfl⟩
      | _ => cases hnumeric
    rw [Constants.zero_of_width hwidth] at hunknown
    split at hunknown <;> cases hunknown

end Register.ZeroOf

/-! ## Blocks -/

namespace Constants

/-- The current type is a type of the table, with its zero. -/
structure State.Sound (types : TypeTable) (temps least : Nat) (s : State) : Prop where
  pool : s.pool.Sound types temps least
  current : ∀ id zero, s.current = some (id, zero) → id < types.size ∧ zero.ZeroOf types id

variable {types : TypeTable} {temps least : Nat} {id : TypeId} {zero : Register}
  {pool pool' : ConstantPool} {r : Record} {s s' : State}

theorem Adds.sound (h : Adds types id zero pool r pool') (hp : pool.Sound types temps least)
    (hid : id < types.size) (hzero : zero.ZeroOf types id) : pool'.Sound types temps least := by
  have hconstant := hzero.constant
  -- A number in the place of the zero is as known as that.
  have hnumber : ∀ {type width register}, types.get? id = some type → type.width? = some width →
      register.type = zero.type → register.indices = zero.indices →
      (pool.push id (.register register)).Sound types temps least := by
    intro type width register htype hwidth hkind hindices
    refine hp.push (Value.static_register hid (.constant ⟨?_, ?_⟩) fun hunknown => ?_)
    · rw [hkind]
      exact hconstant.type
    · rw [hindices, hconstant.indices]
    · exact absurd (hkind.symm.trans hunknown) (hzero.type_ne_invalid htype hwidth)
  cases h with
  | null hcode htype harray =>
    exact hp.push (Value.static_register hid (.constant hconstant)
      (hzero.isUnknownNull htype harray))
  | integer hcode htype hoperand => exact hnumber htype rfl rfl rfl
  | half hcode htype => exact hnumber htype rfl rfl rfl
  | float bits hcode htype => exact hnumber htype rfl rfl rfl
  | data hcode hnumbers =>
    obtain ⟨type, htype⟩ := TypeTable.get?_of_lt hid
    exact hp.pushArray htype (hnumbers.isArray htype) _
  | address hcode haddress =>
    cases haddress with
    | element _ array_at array_kind array_global _ _ _ _ _ _ type pointer_type kind =>
      cases type
      cases kind
      have hstatic := (hp.values _ (Values.mem_of_at? array_at)).register _ array_kind
      exact hp.push (Value.static_register (TypeTable.lt_of_get? pointer_type)
        (hstatic.withElement array_global rfl)
        fun hunknown => absurd (array_global.symm.trans hunknown) (by decide))
  | undefined hcode =>
    exact hp.push (Value.static_register hid (.constant ⟨by simp, hconstant.indices⟩) nofun)

theorem Step.sound (h : Step types s r s') (hs : s.Sound types temps least) :
    s'.Sound types temps least := by
  cases h with
  | setType hcode hoperand hid hzero =>
    refine ⟨hs.pool, ?_⟩
    rintro _ _ ⟨⟩
    exact ⟨hid, hzero⟩
  | define hcode hcurrent hadds =>
    obtain ⟨hid, hzero⟩ := hs.current _ _ hcurrent
    exact ⟨hadds.sound hs.pool hid hzero, hs.current⟩

end Constants

namespace Ensures

variable {E : GivesUp} {types : TypeTable} {temps least : Nat}

theorem constantsAdd (hc : types.Closed) {s : Constants.State} (hs : s.Sound types temps least)
    (i : Nat) (r : Record) :
    Ensures E (Constants.add types s i r) (Constants.Step types s r) := by
  refine (Abides.constantsAdd (T := .safe) ⟨rfl, trivial⟩ (fun _ _ _ _ _ _ => trivial) i
    fun hnot => hnot ⟨hc, fun id zero h => (hs.current id zero h).1, fun v hv => ?_⟩).ensures
      Terms.within_safe
  exact (hs.pool.values v hv).type

theorem constantsDecode (hc : types.Closed) {pool : ConstantPool}
    (hp : pool.Sound types temps least) (block : Block) :
    Ensures E (Constants.decode types pool block) (ConstantPool.Sound types temps least) := by
  refine (setLine _).bind fun _ _ => ?_
  refine (foldRecords (fun _ _ s => s.Sound types temps least) (fun i r _ _ hs =>
    (constantsAdd hc hs i r).mono fun _ hstep => hstep.sound hs) ⟨hp, by simp⟩).bind
    fun s hs => .pure hs.pool

theorem constantsDecodeAll (hc : types.Closed) {pool : ConstantPool}
    (hp : pool.Sound types temps least) (blocks : List Block) :
    Ensures E (Constants.decodeAll types pool blocks) (ConstantPool.Sound types temps least) := by
  induction blocks generalizing pool with
  | nil => exact .pure hp
  | cons block blocks ih =>
    exact (constantsDecode hc hp block).bind fun pool' hp' => ih hp'

end Ensures

theorem Gives.constantsAdd (types : TypeTable) (s : Constants.State) (i : Nat) (r : Record) :
    Gives (Constants.add types s i r) (Constants.Step types s r) :=
  (Abides.constantsAdd (T := .any) trivial (fun _ _ _ _ _ _ => trivial) i fun _ => trivial).gives

end Dxil
