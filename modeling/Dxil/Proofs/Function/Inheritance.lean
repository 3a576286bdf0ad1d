import Dxil.Proofs.Function.Lowering
import Dxil.Proofs.Shader.Mentions

/-!
# Dxil.Proofs.Function.Inheritance

Where the registers in the result of a record come from.

* `Value.All ψ` : every register that is mentioned by the register of a value is as `ψ` says.
* `Index.IsAddress` : the index is that of an address.
* `Lasting ψ` : what lowering changes in a register leaves `ψ` true of it.
* `MakesHandle`, `ReadsInput`, `WritesOutput` : the calls by which new registers come in.
* `Lowers.writesOutput` : only outputs are stored to.
* `Lowers.inherits` : all other registers in the result of a record come from the values that it
  refers to.
-/

namespace Dxil

/-! ## Values -/

/-- `ψ` holds of all registers that the register of the value mentions, if it has one. -/
structure Value.All (ψ : Register → Prop) (v : Value) : Prop where
  register : ∀ r, v.kind = .register r → r.All ψ
  handle : ∀ r, v.kind = .handle r → r.All ψ

namespace Value

variable {ψ : Register → Prop} {v : Value}

theorem all_register {type : Option TypeId} {r : Register} (h : r.All ψ) :
    Value.All ψ { type, kind := .register r } := by
  refine ⟨?_, ?_⟩
  · rintro _ ⟨⟩
    exact h
  · rintro _ ⟨⟩

theorem all_handle {type : Option TypeId} {r : Register} (h : r.All ψ) :
    Value.All ψ { type, kind := .handle r } := by
  refine ⟨?_, ?_⟩
  · rintro _ ⟨⟩
  · rintro _ ⟨⟩
    exact h

theorem All.source (h : v.All ψ) (hread : v.isReadable = true ∨ ψ .unknown) :
    v.source.register.All ψ := by
  have hunknown (hkind : v.isReadable = false) : Register.unknown.All ψ := by
    refine Register.all_of_fixed ?_ (by simp [Register.unknown])
    exact hread.resolve_left (by simp [hkind])
  unfold Value.source
  cases hkind : v.kind with
  | register r => exact h.register r hkind
  | handle r => exact h.handle r hkind
  | function decl | array index =>
    exact hunknown (by simp [isReadable, isRegister, register?, isHandle, hkind])

theorem All.ofAddress (h : v.All ψ) : Index.All ψ (RegisterIndex.ofAddress v) := by
  unfold RegisterIndex.ofAddress
  cases v.constantUint? with
  | some offset => exact Index.all_of_fixed rfl
  | none =>
    by_cases hregister : (v.isRegister && !v.isUndef) = true
    · simp only [hregister, if_true]
      rintro _ ⟨⟩
      rw [Bool.and_eq_true] at hregister
      exact h.source (.inl (by simp [isReadable, hregister.1]))
    · simp only [hregister]
      exact Index.all_of_fixed rfl

/-- The number that a call takes an argument for. -/
abbrev number (v : Value) : UInt32 := v.constantUint?.getD noConstant

end Value

/-! ## Calls that bring in registers -/

variable {scope : FunctionScope} {values : Values} {r : Record}

/-- A call makes a handle to an index of the descriptor with a number. -/
structure MakesHandle (scope : FunctionScope) (values : Values) (r : Record) (id : UInt32)
    (index : Value) : Prop where
  call : ∃ type resource number nonUniform,
    Calls scope values r .createHandle type [resource, number, index, nonUniform] ∧
      number.number = id
  descriptor : ∃ kind, ∃ d ∈ scope.descriptors, d.matches kind id index = true

/-- An element of a signature is accessed in `register`, at a row and a column. -/
structure Accesses (sig : Signature) (params : List DstParam) (element row column : Value)
    (e : SignatureElement) (register : Register) : Prop where
  named : sig[element.number.toNat]? = some e
  component : column.number.toNat < vec4Size
  located : ∃ param, params[element.number.toNat]? = some param ∧
    e.atRow? param.register (.ofAddress row) = some register

structure ReadsInput (scope : FunctionScope) (values : Values) (r : Record)
    (element row column : Value) (e : SignatureElement) (src : SrcParam) : Prop where
  call : ∃ type last, Calls scope values r .loadInput type [element, row, column, last]
  access : Accesses scope.inputs scope.inputParams element row column e src.register
  swizzle : src.swizzle = .broadcast column.number

structure WritesOutput (scope : FunctionScope) (values : Values) (r : Record)
    (element row column : Value) (e : SignatureElement) (dst : DstParam) : Prop where
  call : ∃ type value, Calls scope values r .storeOutput type [element, row, column, value]
  access : Accesses scope.outputs scope.outputParams element row column e dst.register
  mask : dst.mask = .ofComponent column.number.toNat

section

variable {sig : Signature} {params : List DstParam} {element row column : Value}
  {e : SignatureElement} {register : Register}

/-- The element is named by the last index, and the row by the one before it. -/
theorem Accesses.register_eq (h : Accesses sig params element row column e register)
    {type : RegisterType} (hparams : params = sig.params type) :
    register.type = type ∧ register.indices =
      (if e.isArray then [RegisterIndex.ofAddress row] else []) ++
        [{ offset := element.number }] := by
  subst hparams
  obtain ⟨param, hparam, hregister⟩ := h.located
  rw [Signature.getElem?_params h.named] at hparam
  cases hparam
  rw [e.atRow?_param] at hregister
  cases hregister
  exact ⟨rfl, by rw [UInt32.ofNat_toNat]⟩

theorem Accesses.all_indices (h : Accesses sig params element row column e register)
    {type : RegisterType} (hparams : params = sig.params type) {ψ : Register → Prop}
    (hrow : row.All ψ) : ∀ index ∈ register.indices, index.All ψ := by
  intro index hindex
  rw [(h.register_eq hparams).2, List.mem_append] at hindex
  rcases hindex with hindex | hindex
  · by_cases harray : e.isArray = true
    · rw [if_pos harray, List.mem_singleton] at hindex
      subst hindex
      exact hrow.ofAddress
    · rw [if_neg harray] at hindex
      cases hindex
  · obtain rfl := List.mem_singleton.mp hindex
    exact Index.all_of_fixed rfl

end

/-! ## Results -/

/-- The index is relative to what an address is read from, if it is relative at all. -/
def Index.IsAddress (index : RegisterIndex) : Prop :=
  ∃ v : Value, index.relative = (RegisterIndex.ofAddress v).relative

theorem Index.isAddress_ofAddress (v : Value) : (RegisterIndex.ofAddress v).IsAddress := ⟨v, rfl⟩

/-- Lowering takes a register over with other data, sets an element of an array, and sets the row of
a buffer. -/
structure Lasting (ψ : Register → Prop) : Prop where
  congr : ∀ {a b : Register}, ψ a → b.type = a.type → b.indices = a.indices → ψ b
  element : ∀ {a : Register} {index : RegisterIndex}, ψ a → index.IsAddress →
    a.indices.length ≤ 1 → ψ (a.withElement index)
  row : ∀ {a : Register} {index : RegisterIndex}, ψ a → index.IsAddress →
    ψ { a with indices := a.indices.set 2 index }

namespace Register.All

variable {ψ : Register → Prop} {register : Register}

theorem congr (h : register.All ψ) (hψ : Lasting ψ) {register' : Register}
    (htype : register'.type = register.type) (hindices : register'.indices = register.indices) :
    register'.All ψ :=
  h.withIndices (hψ.congr (all_iff.mp h).1 htype hindices) fun _ hindex => .inl (hindices ▸ hindex)

theorem withElement (h : register.All ψ) (hψ : Lasting ψ) (hwhole : register.indices.length ≤ 1)
    {index : RegisterIndex} (haddress : index.IsAddress) (hindex : index.All ψ) :
    (register.withElement index).All ψ := by
  refine h.withIndices (hψ.element (all_iff.mp h).1 haddress hwhole) fun i hi => ?_
  rcases List.mem_cons.mp hi with rfl | hi
  · cases hindices : register.indices with
    | nil => exact .inr (Index.all_of_fixed rfl)
    | cons first rest => exact .inl List.mem_cons_self
  · obtain rfl := List.mem_singleton.mp hi
    exact .inr hindex

theorem setRow (h : register.All ψ) (hψ : Lasting ψ) {index : RegisterIndex}
    (haddress : index.IsAddress) (hindex : index.All ψ) :
    Register.All ψ { register with indices := register.indices.set 2 index } := by
  refine h.withIndices (hψ.row (all_iff.mp h).1 haddress) fun i hi => ?_
  rcases List.mem_or_eq_of_mem_set hi with hi | rfl
  · exact .inl hi
  · exact .inr hindex

end Register.All

namespace Lowered

/-- Every register in the result is as `ψ` says, but for inputs and outputs, which are accessed as
the record calls for. -/
def Inherits (scope : FunctionScope) (values : Values) (r : Record) (ψ : Register → Prop) :
    Lowered → Prop
  | .value v => v.All ψ
  | .operation op => ∀ src ∈ op.src, src.register.All ψ ∨
      ∃ element row column e, ReadsInput scope values r element row column e src
  | .store dst src _ =>
    (∃ element row column e, WritesOutput scope values r element row column e dst) ∧
      src.register.All ψ

end Lowered

namespace Lowers

variable {code : FunctionCode} {l : Lowered} {ψ : Register → Prop}

theorem writesOutput {dst : DstParam} {src : SrcParam} {type : Option TypeId}
    (h : Lowers scope values r code (.store dst src type)) :
    ∃ element row column e, WritesOutput scope values r element row column e dst := by
  cases h with
  | storeOutput hcall hi he hparam hcolumn _ hregister =>
    subst hi
    exact ⟨_, _, _, _, ⟨_, _, hcall⟩, ⟨he, hcolumn, _, hparam, hregister⟩, rfl⟩

/-- Handles and accesses to signatures apart, lowering makes up no register but one that is unknown,
where it reads an operand of a calculation that no register holds. -/
theorem inherits (hψ : Lasting ψ) (hv : ∀ v ∈ values, v.All ψ)
    (hhandle : ∀ id index nonUniform, MakesHandle scope values r id index →
      ψ (.constantBuffer id (.ofAddress index) nonUniform))
    (hread : code = .binary ∨ code = .compare → ∀ i v, i < 2 → Refers scope values r i v →
      v.isReadable = true ∨ ψ .unknown)
    (h : Lowers scope values r code l) : l.Inherits scope values r ψ := by
  have register : ∀ {v : Value} {i : Nat} {register : Register}, Refers scope values r i v →
      v.kind = .register register → register.All ψ :=
    fun hmem hkind => (hv _ hmem.mem).register _ hkind
  cases h with
  | @binary a b _ _ op _ ha hb =>
    have hsource := (hv b hb.mem).source (hread (.inl rfl) 1 b (by decide) hb)
    simp only [Lowered.Inherits, BinaryOp.operation, List.mem_cons, List.not_mem_nil, or_false]
    rintro src (rfl | rfl)
    · exact .inl ((hv a ha.mem).source (hread (.inl rfl) 0 a (by decide) ha))
    · refine .inl ?_
      -- A difference is a sum with the second operand negated, which is in the same register.
      by_cases hsub : op = .sub
      · rw [if_pos hsub]
        exact hsource
      · rw [if_neg hsub]
        exact hsource
  | pointerCast h _ _ => exact ⟨(hv _ h.value.mem).register, (hv _ h.value.mem).handle⟩
  | @keep _ _ _ target _ _ _ h =>
    refine Value.all_register ?_
    unfold Register.reinterpret
    by_cases hsmall : target.shape.width = 16
    · rw [if_pos hsmall]
      exact register h.value h.register
    · rw [if_neg hsmall]
      exact (register h.value h.register).congr hψ rfl rfl
  | @convert _ _ _ _ _ _ _ opcode h =>
    intro src hsrc
    obtain rfl := List.mem_singleton.mp hsrc
    refine .inl ?_
    simp only [castSource]
    by_cases hmov : opcode = .mov
    · rw [if_pos hmov]
      exact (register h.value h.register).congr hψ rfl rfl
    · rw [if_neg hmov]
      exact register h.value h.register
  | @comparison a b _ _ _ _ swapped ha hb =>
    have hsource : ∀ src ∈ [a.source, b.source], src.register.All ψ := by
      simp only [List.mem_cons, List.not_mem_nil, or_false]
      rintro src (rfl | rfl)
      · exact (hv a ha.mem).source (hread (.inr rfl) 0 a (by decide) ha)
      · exact (hv b hb.mem).source (hread (.inr rfl) 1 b (by decide) hb)
    intro src hsrc
    refine .inl (hsource src ?_)
    cases swapped with
    | true => exact (List.Perm.swap _ _ _).mem_iff.mp hsrc
    | false => exact hsrc
  | extract hmem hregister =>
    intro src hsrc
    obtain rfl := List.mem_singleton.mp hsrc
    exact .inl (register hmem hregister)
  | select htrue hfalse hcondition ha hb hc =>
    simp only [Lowered.Inherits, List.mem_cons, List.not_mem_nil, or_false]
    rintro src (rfl | rfl | rfl)
    · exact .inl (register hcondition hc)
    · exact .inl (register htrue ha)
    · exact .inl (register hfalse hb)
  -- What is indexed is a whole array, so the index can only become its second one.
  | @gep _ _ _ index _ _ _ _ _ _ _ hbase hregister _ hwhole _ _ _ hindex =>
    have haddress : Index.All ψ { RegisterIndex.ofAddress index with inBounds := _ } :=
      (hv index hindex.mem).ofAddress
    exact Value.all_register
      ((register hbase hregister).withElement hψ hwhole ⟨index, rfl⟩ haddress)
  | load hmem hregister =>
    intro src hsrc
    obtain rfl := List.mem_singleton.mp hsrc
    exact .inl ((register hmem hregister).congr hψ rfl rfl)
  | @createHandle _ _ id index _ kind d h _ hd hmatches =>
    have hmakes : MakesHandle scope values r id.number index :=
      ⟨⟨_, _, id, _, h, rfl⟩, kind, d, hd, hmatches⟩
    refine Value.all_handle (Register.all_iff.mpr ⟨hhandle _ _ _ hmakes, fun i hi => ?_⟩)
    simp only [Register.constantBuffer, List.mem_cons, List.not_mem_nil, or_false] at hi
    rcases hi with rfl | rfl | rfl
    · exact Index.all_of_fixed rfl
    · exact (hv index (h.defined _ (by simp))).ofAddress
    · exact Index.all_of_fixed rfl
  | @loadConstantBuffer _ handle row _ _ h hregister =>
    intro src hsrc
    obtain rfl := List.mem_singleton.mp hsrc
    have hbuffer := (hv handle (h.defined _ (by simp))).handle _ hregister
    have hrow := (hv row (h.defined _ (by simp))).ofAddress
    exact .inl ((hbuffer.setRow hψ (Index.isAddress_ofAddress row) hrow).congr hψ rfl rfl)
  | loadInput h hi he hparam hcolumn hregister =>
    subst hi
    intro src hsrc
    obtain rfl := List.mem_singleton.mp hsrc
    exact .inr ⟨_, _, _, _, ⟨_, _, h⟩, ⟨he, hcolumn, _, hparam, hregister⟩, rfl⟩
  | @storeOutput _ _ _ _ value _ _ _ _ _ hcall hi he hparam hcolumn hsource hregister =>
    refine ⟨writesOutput (.storeOutput hcall hi he hparam hcolumn hsource hregister), ?_⟩
    exact (hv value (hcall.defined _ (by simp))).register _ hsource

end Lowers

end Dxil
