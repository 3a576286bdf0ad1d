import Dxil.Proofs.Function.Emission
import Dxil.Proofs.Parse

/-!
# Dxil.Proofs.DeclaredOperands

Every register that the body of a program mentions stands for something that the program declares.
The element of a buffer need not be in the range of its descriptor: an index that is a handle itself
is taken for element 0, as `parse_not_always_in_range` says.

* `Register.DeclaredIn` : a register agrees with the declarations of a program.
* `MakesHandle.covers` : what is known of the element that a handle is made to.
* `parse_operands_declared` : the registers of a body are declared, and a fixed element of a buffer
  is in range unless its index is undefined or a handle.
-/

namespace Dxil

/-- A fixed element is in the range of the descriptor, or is 0 and `unchecked`. -/
def Descriptor.Covers (d : Descriptor) (unchecked : Prop) (element : RegisterIndex) : Prop :=
  element.relative = none →
    (d.range.first ≤ element.offset ∧ element.offset ≤ d.range.last) ∨
      (element.offset = 0 ∧ unchecked)

/-- A register agrees with what a program declares: buffers have a descriptor, register arrays are
among those that there are, and inputs and outputs are elements of their signatures. Elements need
not be in range for descriptors that are `unchecked`. -/
structure Register.DeclaredIn (program : Program) (unchecked : UInt32 → Prop) (m : Register) :
    Prop where
  buffer : m.type = .constBuffer → ∃ id element row, m.indices = [id, element, row] ∧
    ∃ d ∈ program.descriptors, d.id = id.offset ∧ d.Covers (unchecked d.id) element
  temp : m.type = .idxTemp → ∃ first rest, m.indices = first :: rest ∧ rest.length ≤ 1 ∧
    first.offset.toNat < program.indexableTempCount.toNat
  input : m.type = .input → ∃ last, m.indices.getLast? = some last ∧
    last.offset.toNat < program.inputs.length
  output : m.type = .output ∨ m.type = .colorOut → ∃ last, m.indices.getLast? = some last ∧
    last.offset.toNat < program.outputs.length

/-! ## Handles -/

variable {scope : FunctionScope} {values : Values} {r : Record}

theorem Descriptor.of_matches {d : Descriptor} {kind : DescriptorType} {id : UInt32}
    {index : Value} (h : d.matches kind id index = true) :
    d.id = id ∧ ∀ n, index.constantUint? = some n → d.range.first ≤ n ∧ n ≤ d.range.last := by
  simp only [Descriptor.matches, Bool.and_eq_true, decide_eq_true_eq] at h
  obtain ⟨⟨-, hid⟩, hrange⟩ := h
  refine ⟨hid, fun n hn => ?_⟩
  simpa [hn] using hrange

/-- An argument is held by a register or is a handle. Of a handle, and of a register that is
undefined, nothing is checked. -/
theorem MakesHandle.covers {id : UInt32} {index : Value} (h : MakesHandle scope values r id index) :
    ∃ d ∈ scope.descriptors, d.id = id ∧
      d.Covers (index.isUndef = true ∨ index.isHandle = true) (.ofAddress index) := by
  obtain ⟨kind, d, hd, hmatches⟩ := h.descriptor
  obtain ⟨hid, hrange⟩ := Descriptor.of_matches hmatches
  obtain ⟨_, resource, number, nonUniform, hcall, -⟩ := h.call
  have hreadable : (index.isRegister || index.isHandle) = true :=
    (hcall.kinds.2 (.int32, index) (by simp [Intrinsic.arguments])).1
  refine ⟨d, hd, hid, fun hfixed => ?_⟩
  unfold RegisterIndex.ofAddress at hfixed ⊢
  cases hconstant : index.constantUint? with
  | some n => exact .inl (hrange n hconstant)
  | none =>
    by_cases hread : (index.isRegister && !index.isUndef) = true
    · simp [hconstant, hread] at hfixed
    · simp only [hread]
      refine .inr ⟨rfl, ?_⟩
      cases hregister : index.isRegister with
      | true => exact .inl (by simpa [hregister] using hread)
      | false => exact .inr (by simpa [hregister] using hreadable)

/-! ## Registers -/

section

variable {program : Program} {unchecked : UInt32 → Prop} {m : Register}

theorem Register.Resolved.declaredIn {temps : Nat} {binds : UInt32 → Value → Prop}
    (h : m.Resolved temps binds) (htemps : temps ≤ program.indexableTempCount.toNat)
    (hbinds : ∀ id index, binds id index → ∃ d ∈ program.descriptors, d.id = id ∧
      d.Covers (unchecked d.id) (.ofAddress index)) :
    m.DeclaredIn program unchecked := by
  have hsignature := h.noSignature
  refine ⟨fun hbuffer => ?_, fun htemp => ?_, fun hinput => ?_, ?_⟩
  · obtain ⟨id, index, row, hindices, hbind⟩ := h.buffer hbuffer
    exact ⟨_, _, row, hindices, hbinds id index hbind⟩
  · obtain ⟨first, rest, hindices, hlength, hfirst⟩ := h.temp htemp
    exact ⟨first, rest, hindices, hlength, Nat.lt_of_lt_of_le hfirst htemps⟩
  · rw [hinput] at hsignature
    cases hsignature
  · rintro (houtput | houtput)
    · rw [houtput] at hsignature
      cases hsignature
    · rw [houtput] at hsignature
      cases hsignature

theorem Register.declaredIn_of_result (h : m.type ∈ [.ssa, .null]) :
    m.DeclaredIn program unchecked := by
  simp only [List.mem_cons, List.not_mem_nil, or_false] at h
  rcases h with h | h
  · exact ⟨by simp [h], by simp [h], by simp [h], by simp [h]⟩
  · exact ⟨by simp [h], by simp [h], by simp [h], by simp [h]⟩

theorem Accesses.getLast? {sig : Signature} {params : List DstParam} {element row column : Value}
    {e : SignatureElement} (h : Accesses sig params element row column e m) {type : RegisterType}
    (hparams : params = sig.params type) :
    ∃ last, m.indices.getLast? = some last ∧ last.offset.toNat < sig.length := by
  refine ⟨{ offset := element.number }, ?_, (List.getElem?_eq_some_iff.mp h.named).1⟩
  rw [(h.register_eq hparams).2, List.getLast?_concat]

end

/-! ## Programs -/

/-- A body of the module has a call that makes a handle to an index of which nothing is checked. -/
def Bitcode.BindsUnchecked (bitcode : Bitcode) (scope : FunctionScope) (pool : ConstantPool)
    (id : UInt32) : Prop :=
  ∃ values b index, Functions.MeetsBody scope 0 { pool } bitcode.root values b ∧
    FunctionBody.Binds scope values b.records.tail id index ∧
    (index.isUndef = true ∨ index.isHandle = true)

theorem Program.Assembled.declaredIn {bitcode : Bitcode} {pool : ConstantPool}
    {body : FunctionBody} {program : Program}
    (h : program.Assembled program.version bitcode scope pool body)
    (hcount : bitcode.CountsRecords) :
    ∀ i ∈ body.instructions, ∀ m ∈ i.mentions,
      m.DeclaredIn program (bitcode.BindsUnchecked scope pool) := by
  intro i hi
  obtain ⟨l, hdescribes, -, htemps, -, hsource⟩ := h.layout
  rcases hsource with rfl | ⟨values, b, hmeets, hdecoded⟩
  · cases hi
  obtain ⟨arrays, hstatic⟩ := hdecoded.static
  obtain ⟨r, s, hcomes, hemits⟩ := hdecoded.emitted h.sound hi
  have htempCount : l.temps.length ≤ program.indexableTempCount.toNat := by
    have hsmall := hcount _ bitcode.root.self_mem_all
    exact Nat.le_of_eq (hdescribes.length_temps (Nat.lt_of_le_of_lt htemps hsmall))
  have hbinds : ∀ id index, FunctionBody.Binds scope values b.records.tail id index →
      ∃ d ∈ program.descriptors, d.id = id ∧
        d.Covers (bitcode.BindsUnchecked scope pool d.id) (.ofAddress index) := by
    rintro id index ⟨r, s, hcomes, hmakes⟩
    obtain ⟨d, hd, hid, hcovers⟩ := hmakes.covers
    refine ⟨d, h.descriptors ▸ hd, hid, fun hfixed => (hcovers hfixed).imp_right ?_⟩
    rintro ⟨hzero, hindex⟩
    exact ⟨hzero, values, b, index, hmeets, ⟨r, s, hcomes, hid ▸ hmakes⟩, hindex⟩
  refine hemits.forall_mentions h.sound hstatic hcomes
    (fun m hm => hm.declaredIn htempCount hbinds) (fun m => Register.declaredIn_of_result)
    (fun element row column e src hreads => ?_) fun element row column e dst hwrites => ?_
  · have htype := (hreads.access.register_eq h.prepared.inputParams).1
    have hlast := hreads.access.getLast? h.prepared.inputParams
    exact ⟨by simp [htype], by simp [htype], fun _ => h.inputs ▸ hlast, by simp [htype]⟩
  · have htype := (hwrites.access.register_eq h.prepared.outputParams).1
    have hlast := hwrites.access.getLast? h.prepared.outputParams
    have houtput : dst.register.type = .output ∨ dst.register.type = .colorOut := by
      rw [htype]
      cases program.version.shaderType <;> simp [ShaderType.outputRegister]
    refine ⟨?_, ?_, ?_, fun _ => h.outputs ▸ hlast⟩
    all_goals rcases houtput with houtput | houtput <;> simp [houtput]

/-- Every register that a body mentions is declared by the program, and a fixed element of a buffer
is in the range of its descriptor unless the index is undefined or a handle. Register arrays are
counted in 32 bits, so that this depends on the number of records. -/
theorem parse_operands_declared {kind : SourceKind} {name : String} {bytes : List UInt8}
    {program : Program} (h : (parse kind name bytes).program = .ok program)
    (hcount : ∀ bitcode, kind.bitcode? bytes = some bitcode → bitcode.CountsRecords) :
    ∃ bitcode scope pool, kind.bitcode? bytes = some bitcode ∧
      Program.Prepares program.version bitcode scope pool ∧
      ∀ i ∈ program.instructions, i.declaration = none → ∀ m ∈ i.mentions,
        m.DeclaredIn program (bitcode.BindsUnchecked scope pool) := by
  obtain ⟨bitcode, scope, pool, body, hbitcode, hassembled⟩ := parse_assembled h
  refine ⟨bitcode, scope, pool, hbitcode, hassembled.prepared, fun i hi hplain => ?_⟩
  rcases hassembled.mem_body_or_ret hi hplain with hi | ⟨location, rfl⟩
  · exact hassembled.declaredIn (hcount bitcode hbitcode) i hi
  · intro m hm
    cases hm

/-! ## An element out of range -/

/-- The constant of a record is undefined: the record says so, or its code has no meaning. -/
def Record.definesUndefined (r : Record) : Bool :=
  match ConstantCode.ofNat? r.code.toNat with
  | some .undef | some .string | none => true
  | some _ => false

def Bitcode.HasUndefined (bitcode : Bitcode) : Prop :=
  ∃ b ∈ bitcode.root.all, BlockKind.ofId? b.id = some .constants ∧
    ∃ r ∈ b.records, r.definesUndefined = true

instance (bitcode : Bitcode) : Decidable bitcode.HasUndefined :=
  inferInstanceAs (Decidable (∃ b ∈ bitcode.root.all, BlockKind.ofId? b.id = some .constants ∧
    ∃ r ∈ b.records, r.definesUndefined = true))

/-- A pixel shader that makes a handle to register 5 of a descriptor and, with that handle for an
index, one more. The function for the first is declared to return an integer. -/
def handleIndexShader : List UInt8 :=
  [0x60, 0x00, 0x00, 0x00, 0x5d, 0x00, 0x00, 0x00, 0x44, 0x58, 0x49, 0x4c, 0x00, 0x01, 0x00, 0x00,
   0x10, 0x00, 0x00, 0x00, 0x5c, 0x01, 0x00, 0x00, 0x42, 0x43, 0xc0, 0xde, 0x21, 0x0c, 0x00, 0x00,
   0x54, 0x00, 0x00, 0x00, 0x89, 0x20, 0x00, 0x00, 0x14, 0x00, 0x00, 0x00, 0x13, 0x04, 0xcd, 0x08,
   0xc0, 0x1c, 0x41, 0x30, 0x47, 0x00, 0x06, 0x73, 0x04, 0xc8, 0x54, 0x02, 0x00, 0x0c, 0x22, 0x10,
   0xc0, 0x54, 0x07, 0x20, 0x08, 0x83, 0x20, 0x04, 0x83, 0x08, 0x06, 0x30, 0xd3, 0x43, 0x0e, 0xf8,
   0xe0, 0x06, 0xf4, 0x90, 0x0f, 0xf0, 0x50, 0x0e, 0xf3, 0xe0, 0x06, 0xa8, 0x10, 0x0e, 0xee, 0x40,
   0x0e, 0xec, 0x50, 0x0e, 0x43, 0x09, 0x80, 0x30, 0xd5, 0x01, 0x20, 0xc2, 0x20, 0x08, 0xc1, 0x20,
   0x42, 0x02, 0x4c, 0x55, 0x00, 0x82, 0x80, 0x08, 0x83, 0x08, 0x0b, 0x00, 0x0b, 0x82, 0x60, 0x08,
   0x42, 0x00, 0x00, 0x00, 0x00, 0x00, 0x30, 0x04, 0x31, 0x80, 0x00, 0x00, 0x00, 0x00, 0x18, 0x82,
   0x24, 0x40, 0x00, 0x00, 0x00, 0x00, 0x0c, 0x41, 0x16, 0x20, 0x00, 0x00, 0x00, 0x00, 0xb2, 0x40,
   0x09, 0x00, 0x00, 0x00, 0x13, 0x04, 0xc2, 0x10, 0x01, 0x30, 0x44, 0x40, 0x0c, 0x11, 0x28, 0x43,
   0x04, 0xc2, 0x10, 0x81, 0x3c, 0x0c, 0x11, 0xd8, 0xc3, 0x10, 0x01, 0x18, 0x4c, 0x10, 0x0c, 0x43,
   0x04, 0xc4, 0x04, 0x41, 0x30, 0x44, 0x00, 0x00, 0x79, 0x20, 0x00, 0x00, 0x17, 0x00, 0x00, 0x00,
   0x23, 0x08, 0x02, 0x31, 0x82, 0x20, 0x18, 0x23, 0x08, 0xc2, 0x31, 0x82, 0x20, 0x28, 0x33, 0x20,
   0x01, 0x00, 0x04, 0xc2, 0x40, 0x00, 0x33, 0x04, 0xc5, 0x0c, 0x04, 0x00, 0x18, 0xc0, 0x10, 0x0c,
   0x39, 0xe0, 0x83, 0x1b, 0xc8, 0x43, 0x39, 0xcc, 0xc3, 0x3b, 0xd4, 0x83, 0x3c, 0x8c, 0x43, 0x39,
   0xcc, 0xc3, 0x28, 0x81, 0x31, 0x82, 0x50, 0x00, 0x13, 0x04, 0xe6, 0x30, 0x43, 0x81, 0x24, 0x00,
   0x00, 0x0c, 0xe1, 0x90, 0x03, 0x3e, 0xb8, 0x41, 0x39, 0xb8, 0x03, 0x3d, 0xc8, 0x43, 0x3e, 0xc0,
   0xc2, 0x3b, 0xa4, 0x83, 0x3b, 0xd0, 0xc3, 0x3c, 0x8c, 0x12, 0x24, 0x00, 0x61, 0x20, 0x00, 0x00,
   0x08, 0x00, 0x00, 0x00, 0x13, 0x04, 0xc1, 0x88, 0x01, 0x02, 0x00, 0x4c, 0x21, 0x24, 0x47, 0x30,
   0x62, 0x80, 0x00, 0x00, 0x63, 0x0c, 0x4a, 0x20, 0x8c, 0x18, 0x18, 0x00, 0xc0, 0x18, 0xc1, 0x32,
   0x0a, 0x00, 0x00, 0x00, 0x71, 0x20, 0x00, 0x00, 0x05, 0x00, 0x00, 0x00, 0x13, 0x08, 0x80, 0x39,
   0x4c, 0x20, 0x04, 0xe1, 0x30, 0x81, 0x20, 0x88, 0xc3, 0x04, 0xc2, 0x30, 0x0e, 0x00, 0x00, 0x00,
   0x00, 0x00, 0x00, 0x00]

/-- The descriptor has register 5 only, but element 0 is read. Nothing is undefined, and nothing is
reported. -/
theorem exists_element_out_of_range :
    (parse .program "handles" handleIndexShader).diagnostics = #[] ∧
      ∃ program bitcode, (parse .program "handles" handleIndexShader).program = .ok program ∧
        SourceKind.program.bitcode? handleIndexShader = some bitcode ∧ bitcode.CountsRecords ∧
        ¬ bitcode.HasUndefined ∧
        ∃ i ∈ program.instructions, i.declaration = none ∧
          ∃ m ∈ i.mentions, m.type = .constBuffer ∧
            (m.indices.map fun index => (index.offset, index.relative.isNone)) =
              [(0, true), (0, true), (0, true)] ∧
            ∀ d ∈ program.descriptors, 0 < d.range.first := by
  have hmodule : (SourceKind.program.bitcode? handleIndexShader).any (fun bitcode =>
      decide (bitcode.CountsRecords ∧ ¬ bitcode.HasUndefined)) = true := by
    decide +kernel
  obtain ⟨bitcode, hbitcode, hfacts⟩ := (Option.any_eq_true _ _).mp hmodule
  obtain ⟨hcounts, hdefined⟩ := of_decide_eq_true hfacts
  have hparse : (parse .program "handles" handleIndexShader).diagnostics.isEmpty &&
      (parse .program "handles" handleIndexShader).program.toOption.any fun program =>
        program.instructions.any fun i => i.declaration.isNone &&
          i.mentions.any fun m => m.type = .constBuffer &&
            decide ((m.indices.map fun index => (index.offset, index.relative.isNone)) =
              [(0, true), (0, true), (0, true)]) &&
            program.descriptors.all fun d => 0 < d.range.first := by
    decide +kernel
  obtain ⟨hsilent, hprogram⟩ := Bool.and_eq_true_iff.mp hparse
  obtain ⟨program, hprogram, hmentions⟩ := exists_of_toOption_any hprogram
  simp only [List.any_eq_true, Bool.and_eq_true, Option.isNone_iff_eq_none, decide_eq_true_eq,
    List.all_eq_true] at hmentions
  obtain ⟨i, hi, hplain, m, hm, ⟨htype, hindices⟩, hranges⟩ := hmentions
  exact ⟨Array.isEmpty_iff.mp hsilent, program, bitcode, hprogram, hbitcode, hcounts, hdefined, i,
    hi, hplain, m, hm, htype, hindices, hranges⟩

theorem Register.DeclaredIn.unchecked {program : Program} {unchecked : UInt32 → Prop} {m : Register}
    (h : m.DeclaredIn program unchecked) (htype : m.type = .constBuffer)
    (hindices : (m.indices.map fun index => (index.offset, index.relative.isNone)) =
      [(0, true), (0, true), (0, true)])
    (hranges : ∀ d ∈ program.descriptors, 0 < d.range.first) : ∃ id, unchecked id := by
  obtain ⟨id, element, row, hlist, d, hd, -, hcovers⟩ := h.buffer htype
  rw [hlist] at hindices
  simp only [List.map_cons, List.cons.injEq, Prod.mk.injEq, Option.isNone_iff_eq_none] at hindices
  obtain ⟨-, ⟨hzero, hfixed⟩, -⟩ := hindices
  rcases hcovers hfixed with ⟨hfirst, -⟩ | ⟨-, hunchecked⟩
  · rw [hzero] at hfirst
    exact absurd (hranges d hd) (UInt32.not_lt.mpr hfirst)
  · exact ⟨d.id, hunchecked⟩

/-- In the shader, an index is bound of which nothing is checked. -/
theorem parse_operands_declared_handleIndex :
    ∃ program, (parse .program "handles" handleIndexShader).program = .ok program ∧
      (∀ bitcode, SourceKind.program.bitcode? handleIndexShader = some bitcode →
        bitcode.CountsRecords) ∧
      ∃ bitcode scope pool, SourceKind.program.bitcode? handleIndexShader = some bitcode ∧
        Program.Prepares program.version bitcode scope pool ∧
        (∀ i ∈ program.instructions, i.declaration = none → ∀ m ∈ i.mentions,
          m.DeclaredIn program (bitcode.BindsUnchecked scope pool)) ∧
        ∃ id, bitcode.BindsUnchecked scope pool id := by
  obtain ⟨-, program, bitcode, hprogram, hbitcode, hcounts, -, i, hi, hplain, m, hm, htype,
    hindices, hranges⟩ := exists_element_out_of_range
  have hcount : ∀ bitcode, SourceKind.program.bitcode? handleIndexShader = some bitcode →
      bitcode.CountsRecords := by
    intro bitcode' hbitcode'
    rw [hbitcode] at hbitcode'
    cases hbitcode'
    exact hcounts
  obtain ⟨bitcode, scope, pool, hbitcode, hprepared, hdeclared⟩ :=
    parse_operands_declared hprogram hcount
  exact ⟨program, hprogram, hcount, bitcode, scope, pool, hbitcode, hprepared, hdeclared,
    (hdeclared i hi hplain m hm).unchecked htype hindices hranges⟩

/-- Values are undefined that come from undefined constants, as records with a code of no meaning
make them too, or from records that could not be lowered, which is reported. So not every fixed
element is in range or 0 for an undefined index. -/
theorem parse_not_always_in_range :
    ¬ ∀ (kind : SourceKind) (name : String) (bytes : List UInt8) (program : Program)
      (bitcode : Bitcode), (parse kind name bytes).program = .ok program →
        kind.bitcode? bytes = some bitcode → bitcode.CountsRecords →
        ∀ i ∈ program.instructions, i.declaration = none → ∀ m ∈ i.mentions,
          m.DeclaredIn program fun _ =>
            bitcode.HasUndefined ∨ (parse kind name bytes).diagnostics ≠ #[] := by
  intro h
  obtain ⟨hsilent, program, bitcode, hprogram, hbitcode, hcounts, hdefined, i, hi, hplain, m, hm,
    htype, hindices, hranges⟩ := exists_element_out_of_range
  have hdeclared := h _ _ _ program bitcode hprogram hbitcode hcounts i hi hplain m hm
  obtain ⟨_, hundefined | hreported⟩ := hdeclared.unchecked htype hindices hranges
  · exact hdefined hundefined
  · exact hreported hsilent

end Dxil
