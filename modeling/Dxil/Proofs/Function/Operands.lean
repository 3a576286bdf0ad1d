import Dxil.Proofs.Function.Inheritance

/-!
# Dxil.Proofs.Function.Operands

Whatever a record reads, it reads through the values that it refers to.

* `Lowers.usable` : what a record is lowered to has a type of the table.
* `Lowers.all` : what holds of all registers of the values holds of those of the result.
* `Lowers.below` : so only registers are read that are written already.
-/

namespace Dxil

/-! ## Values -/

abbrev Value.Below (n : Nat) (v : Value) : Prop := v.All (SsaBelow n)

namespace Value

variable {ψ : Register → Prop} {n : Nat} {v : Value}

theorem isReadable_register (type : Option TypeId) (r : Register) :
    Value.isReadable { type, kind := .register r } = true := rfl

theorem typed_of_isReadable {types : TypeTable} (h : v.isReadable = true) : v.Typed types := by
  intro hread
  rw [h] at hread
  cases hread

theorem below_register {type : Option TypeId} {r : Register} (h : r.Below n) :
    Value.Below n { type, kind := .register r } :=
  all_register (Register.below_iff_all.mp h)

theorem All.mono {χ : Register → Prop} (h : v.All ψ) (hψ : ∀ m, ψ m → χ m) : v.All χ :=
  ⟨fun r hr => (h.register r hr).mono hψ, fun r hr => (h.handle r hr).mono hψ⟩

theorem Below.mono {m : Nat} (h : v.Below m) (hmn : m ≤ n) : v.Below n :=
  All.mono h fun _ hbelow hssa => Nat.lt_of_lt_of_le (hbelow hssa) hmn

theorem usable_register {types : TypeTable} {type : Option TypeId} (h : types.Defines type)
    (r : Register) : Value.Usable types { type, kind := .register r } :=
  ⟨h, by rintro _ ⟨⟩⟩

theorem Static.usable {types : TypeTable} {temps arrays : Nat} (h : v.Static types temps arrays) :
    v.Usable types := ⟨h.type, fun r hr => absurd hr (h.handle r)⟩

theorem Static.all {types : TypeTable} {temps arrays : Nat} (h : v.Static types temps arrays)
    (hψ : ∀ m : Register, m.type ≠ .ssa → m.type ≠ .invalid → ψ m)
    (hunknown : ∀ r, v.kind = .register r → r.type = .invalid → ψ r) : v.All ψ := by
  refine ⟨fun r hr => ?_, fun r hr => absurd hr (h.handle r)⟩
  cases h.register r hr with
  | constant constant =>
    refine Register.all_of_fixed ?_ (by simp [constant.indices])
    by_cases hinvalid : r.type = .invalid
    · exact hunknown r hr hinvalid
    · refine hψ r (fun hssa => ?_) hinvalid
      simpa [hssa] using constant.type
  | temp type _ _ _ _ _ fixed =>
    exact Register.all_of_fixed (hψ r (by simp [type]) (by simp [type])) fixed

theorem Static.below {types : TypeTable} {temps arrays : Nat} (h : v.Static types temps arrays)
    (n : Nat) : v.Below n :=
  h.all (fun _ hssa _ => .of_ne hssa n) fun r _ hinvalid => .of_ne (by simp [hinvalid]) n

end Value

/-- Elements and rows come after the index that gives a register its number. -/
theorem Lasting.of_number (φ : RegisterType → Nat → Prop) :
    Lasting fun m => φ m.type m.number := by
  refine ⟨fun {a b} h htype hindices => ?_, fun {a index} h _ _ => ?_, fun {a index} h _ => ?_⟩
  · simpa only [htype, Register.number, hindices] using h
  · have hnumber : (a.withElement index).number = a.number := by
      simp only [Register.number, Register.withElement]
      cases a.indices <;> rfl
    rw [hnumber]
    exact h
  · have hnumber : Register.number { a with indices := a.indices.set 2 index } = a.number := by
      simp only [Register.number]
      cases a.indices <;> rfl
    rw [hnumber]
    exact h

theorem Lasting.ssaBelow (n : Nat) : Lasting (SsaBelow n) :=
  .of_number fun type number => type = .ssa → number < n

/-! ## Results of lowering -/

namespace Lowered

def Usable (types : TypeTable) : Lowered → Prop
  | .value v => v.Usable types
  | .operation op => types.Defines op.type
  | .store _ _ type => types.Defines type

/-- `ψ` holds of all registers of the result, but for the one that is yet to be chosen. -/
def All (ψ : Register → Prop) : Lowered → Prop
  | .value v => v.All ψ
  | .operation op => ∀ src ∈ op.src, src.register.All ψ
  | .store dst src _ => dst.register.All ψ ∧ src.register.All ψ

/-- Only registers with numbers below `n` are read, and no single-assignment register is written
but the one for the result. -/
def Below (n : Nat) : Lowered → Prop
  | .value v => v.Below n
  | .operation op => ∀ src ∈ op.src, src.register.Below n
  | .store dst src _ =>
    dst.register.ssaId? = none ∧ (∀ index ∈ dst.register.indices, Index.Below n index) ∧
      src.register.Below n

theorem Usable.type {types : TypeTable} {l : Lowered} (h : l.Usable types) :
    types.Defines l.type := by
  cases l with
  | value v => exact Value.Usable.type h
  | operation op => exact h
  | store dst src type => exact h

end Lowered

namespace Lowers

variable {scope : FunctionScope} {values : Values} {r : Record} {code : FunctionCode} {l : Lowered}

theorem usable (hs : scope.Sound) (hu : values.Usable scope.types)
    (h : Lowers scope values r code l) : l.Usable scope.types := by
  have member : ∀ {id ref : TypeId} {type : Ty}, scope.types.get? id = some type →
      ref ∈ type.references → scope.types.Defines (some ref) :=
    fun hget href => TypeTable.defines_some (hs.types.references _ _ hget _ href)
  cases h with
  | binary ha => exact (hu _ ha.mem).type
  | pointerCast h _ _ =>
    exact ⟨TypeTable.defines_some (TypeTable.lt_of_get? h.target), (hu _ h.value.mem).handle⟩
  | keep h =>
    exact Value.usable_register (TypeTable.defines_some (TypeTable.lt_of_get? h.target)) _
  | convert h => exact TypeTable.defines_some (TypeTable.lt_of_get? h.target)
  | comparison => exact hs.types.defines_boolType
  | extract _ _ htype _ _ hmember =>
    obtain ⟨id, -, hid⟩ := Option.bind_eq_some_iff.mp htype
    exact member hid (Ty.mem_references_of_member? hmember)
  | select htrue => exact (hu _ htrue.mem).type
  | gep _ _ _ _ _ _ _ _ _ _ hresult =>
    exact Value.usable_register (TypeTable.defines_some (TypeTable.lt_of_get? hresult)) _
  | load _ _ hpointer =>
    obtain ⟨id, -, hid⟩ := Option.bind_eq_some_iff.mp hpointer
    exact member hid (by simp [Ty.references])
  | createHandle h =>
    refine ⟨h.type.defines, ?_⟩
    rintro _ ⟨⟩
    rfl
  | loadConstantBuffer h | loadInput h | storeOutput h => exact h.type.defines

theorem isReadable_value {v : Value} (h : Lowers scope values r code (.value v)) :
    v.isReadable = true := by
  cases h with
  | pointerCast h _ _ =>
    rw [h.register]
    exact Value.isReadable_register _ _
  | keep | gep | createHandle => rfl

theorem isSignature_store {dst : DstParam} {src : SrcParam} {type : Option TypeId}
    (hs : scope.Sound) (h : Lowers scope values r code (.store dst src type)) :
    dst.register.type.isSignature = true := by
  obtain ⟨sigType, hsignature, hparams⟩ := hs.outputParams
  obtain ⟨_, _, _, _, hwrites⟩ := h.writesOutput
  rw [(hwrites.access.register_eq hparams).1]
  exact hsignature

theorem code_store {dst : DstParam} {src : SrcParam} {type : Option TypeId}
    (h : Lowers scope values r code (.store dst src type)) : code = .call := by
  cases h
  rfl

/-- Lowering makes up no register but fixed ones, and one that is unknown where it reads an operand
of a calculation that no register holds. -/
theorem all {ψ : Register → Prop} (hψ : Lasting ψ) (hv : ∀ v ∈ values, v.All ψ) (hs : scope.Sound)
    (hother : ∀ m : Register, m.type ≠ .ssa → m.type ≠ .invalid → ψ m)
    (hread : code = .binary ∨ code = .compare → ∀ i v, i < 2 → Refers scope values r i v →
      v.isReadable = true ∨ ψ .unknown)
    (h : Lowers scope values r code l) : l.All ψ := by
  have haccess {sig : Signature} {params : List DstParam} {element row column : Value}
      {e : SignatureElement} {register : Register}
      (hparams : ∃ type : RegisterType, type.isSignature = true ∧ params = sig.params type)
      (haccess : Accesses sig params element row column e register) (hrow : row ∈ values) :
      register.All ψ := by
    obtain ⟨type, hsignature, hparams⟩ := hparams
    have htype := (haccess.register_eq hparams).1
    refine Register.all_iff.mpr ⟨hother register ?_ ?_, haccess.all_indices hparams (hv row hrow)⟩
    · rw [htype]
      exact RegisterType.ne_ssa_of_isSignature hsignature
    · rw [htype]
      exact RegisterType.ne_invalid_of_isSignature hsignature
  have hl := h.inherits hψ hv (fun id index nonUniform _ => hother _ nofun nofun) hread
  cases l with
  | value v => exact hl
  | operation op =>
    intro src hsrc
    rcases hl src hsrc with hsource | ⟨element, row, column, e, hreads⟩
    · exact hsource
    · obtain ⟨_, _, hcall⟩ := hreads.call
      exact haccess hs.inputParams hreads.access (hcall.defined row (by simp))
  | store dst src type =>
    obtain ⟨⟨element, row, column, e, hwrites⟩, hsource⟩ := hl
    obtain ⟨_, _, hcall⟩ := hwrites.call
    exact ⟨haccess hs.outputParams hwrites.access (hcall.defined row (by simp)), hsource⟩

theorem below {n : Nat} (hb : ∀ v ∈ values, v.Below n) (hs : scope.Sound)
    (h : Lowers scope values r code l) : l.Below n := by
  have hl : l.All (SsaBelow n) := h.all (.ssaBelow n) hb hs (fun _ hssa _ => .of_ne hssa n)
    fun _ _ _ _ _ => .inr (.of_ne (by decide) n)
  cases l with
  | value v => exact hl
  | operation op => exact fun src hsrc => Register.below_iff_all.mpr (hl src hsrc)
  | store dst src type =>
    have hsignature := isSignature_store hs h
    refine ⟨if_neg (RegisterType.ne_ssa_of_isSignature hsignature), fun index hindex => ?_,
      Register.below_iff_all.mpr hl.2⟩
    exact Index.below_iff_all.mpr ((Register.all_iff.mp hl.1).2 index hindex)

end Lowers

end Dxil
