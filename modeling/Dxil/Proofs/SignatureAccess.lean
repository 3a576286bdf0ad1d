import Dxil.Proofs.Function.Emission
import Dxil.Proofs.Parse

/-!
# Dxil.Proofs.SignatureAccess

Inputs and outputs are accessed one component at a time. The component is the column that a call
gives. It is not compared with those that the element has, so that an access may miss them, as
`parse_not_always_inside` says.

* `Instruction.StaysInside` : only components are accessed that an element has.
* `Bitcode.Stores`, `Bitcode.Loads` : a call accesses an element in a column.
* `parse_signature_accesses` : every access is that of a call, and stays inside exactly if the
  column of the call does.
-/

namespace Dxil

/-! ## Components -/

/-- Every component of the mask is one of the other. -/
def WriteMask.Within (m mask : WriteMask) : Prop := m &&& mask = m

/-- Every component that is read is one of the mask. -/
def Swizzle.Within (s : Swizzle) (mask : WriteMask) : Prop :=
  ∀ i < vec4Size, mask.getLsbD (s.component i).toNat = true

theorem WriteMask.ofComponent_within {c : Nat} (hc : c < vec4Size) {mask : WriteMask} :
    (ofComponent c).Within mask ↔ mask.getLsbD c = true := by
  unfold Within
  match c, hc with
  | 0, _ | 1, _ | 2, _ | 3, _ =>
    revert mask
    decide

theorem Swizzle.component_broadcast {c : UInt32} (hc : c.toNat < vec4Size) {i : Nat}
    (hi : i < vec4Size) : (broadcast c).component i = c := by
  have hcases : ∀ k < vec4Size, ∀ i < vec4Size,
      (broadcast (UInt32.ofNat k)).component i = UInt32.ofNat k := by
    decide
  have hcase := hcases c.toNat hc i hi
  rwa [UInt32.ofNat_toNat] at hcase

theorem Swizzle.broadcast_within {c : UInt32} (hc : c.toNat < vec4Size) {mask : WriteMask} :
    (broadcast c).Within mask ↔ mask.getLsbD c.toNat = true := by
  constructor
  · intro h
    have hfirst := h 0 (by decide)
    rwa [component_broadcast hc (by decide)] at hfirst
  · intro h i hi
    rw [component_broadcast hc hi]
    exact h

/-! ## Accesses -/

/-- The element of a signature that a register stands for: the last index is its number. -/
def Register.element? (sig : Signature) (m : Register) : Option SignatureElement :=
  m.indices.getLast?.bind fun last => sig[last.offset.toNat]?

/-- Of an output, only components are written that the element has, and of an input, only such
components are read, also for addresses. -/
structure Instruction.StaysInside (program : Program) (i : Instruction) : Prop where
  outputs : ∀ dst ∈ i.dst, dst.register.type = .output ∨ dst.register.type = .colorOut →
    ∃ e, dst.register.element? program.outputs = some e ∧ dst.mask.Within e.mask
  inputs : ∀ src ∈ i.sources, src.register.type = .input →
    ∃ e, src.register.element? program.inputs = some e ∧ src.swizzle.Within e.mask

variable {scope : FunctionScope} {values : Values} {s : BodyState} {r : Record} {i : Instruction}

theorem Accesses.element?_eq {sig : Signature} {params : List DstParam}
    {element row column : Value} {e : SignatureElement} {m : Register}
    (h : Accesses sig params element row column e m) {type : RegisterType}
    (hparams : params = sig.params type) : m.element? sig = some e := by
  unfold Register.element?
  rw [(h.register_eq hparams).2, List.getLast?_concat, Option.bind_some]
  exact h.named

namespace BodyState.Emits

theorem writesOutput (h : s.Emits scope r i) {dst : DstParam} (hdst : dst ∈ i.dst)
    (htype : dst.register.type = .output ∨ dst.register.type = .colorOut) :
    ∃ element row column e, WritesOutput scope s.values r element row column e dst := by
  rcases h.dst dst hdst with ⟨hresult, -⟩ | hwrites
  · rcases htype with htype | htype <;> simp [htype] at hresult
  · exact hwrites

/-- Addresses are not read from inputs. -/
theorem readsInput (h : s.Emits scope r i) (hs : scope.Sound) {temps arrays : Nat}
    (hv : ∀ v ∈ values, v.Static scope.types temps arrays) {records : List Record}
    (hcomes : FunctionBody.ComesTo scope values records r s) {src : SrcParam}
    (hsrc : src ∈ i.sources) (htype : src.register.type = .input) :
    ∃ element row column e, ReadsInput scope s.values r element row column e src := by
  have hinput : ¬ src.register.Resolved temps (FunctionBody.Binds scope values records) := by
    intro hresolved
    have hsignature := hresolved.noSignature
    rw [htype] at hsignature
    cases hsignature
  rcases List.mem_append.mp hsrc with hsrc | haddress
  · rcases h.src hs hv hcomes src hsrc with hsource | hreads
    · exact absurd (Register.all_iff.mp hsource).1 hinput
    · exact hreads
  · rw [h.declaration, Option.elim_none, List.append_nil] at haddress
    obtain ⟨m, hm, hsrc⟩ := List.mem_flatMap.mp haddress
    exact absurd (Register.forall_addresses (h.all_indices hs hv hcomes m hm) src hsrc) hinput

end BodyState.Emits

/-! ## Programs -/

section

variable (bitcode : Bitcode) (scope : FunctionScope) (pool : ConstantPool)

/-- A body of the module has a call that writes column `c` of an element. -/
def Bitcode.Stores (dst : DstParam) (e : SignatureElement) (c : Nat) : Prop :=
  ∃ values b r s element row column,
    Functions.MeetsBody scope 0 { pool } bitcode.root values b ∧
    FunctionBody.ComesTo scope values b.records.tail r s ∧
    WritesOutput scope s.values r element row column e dst ∧ column.number.toNat = c

def Bitcode.Loads (src : SrcParam) (e : SignatureElement) (c : Nat) : Prop :=
  ∃ values b r s element row column,
    Functions.MeetsBody scope 0 { pool } bitcode.root values b ∧
    FunctionBody.ComesTo scope values b.records.tail r s ∧
    ReadsInput scope s.values r element row column e src ∧ column.number.toNat = c

/-- Every output is that of a call, and stays inside exactly if the column of the call does. -/
def Bitcode.StoresAll (program : Program) (i : Instruction) : Prop :=
  ∀ dst ∈ i.dst, dst.register.type = .output ∨ dst.register.type = .colorOut →
    ∃ e c, dst.register.element? program.outputs = some e ∧ bitcode.Stores scope pool dst e c ∧
      c < vec4Size ∧ dst.mask = .ofComponent c ∧
      (dst.mask.Within e.mask ↔ e.mask.getLsbD c = true)

def Bitcode.LoadsAll (program : Program) (i : Instruction) : Prop :=
  ∀ src ∈ i.sources, src.register.type = .input →
    ∃ e c, src.register.element? program.inputs = some e ∧ bitcode.Loads scope pool src e c ∧
      c < vec4Size ∧ src.swizzle = .broadcast (UInt32.ofNat c) ∧
      (src.swizzle.Within e.mask ↔ e.mask.getLsbD c = true)

end

theorem Program.Assembled.accesses {bitcode : Bitcode} {pool : ConstantPool}
    {body : FunctionBody} {program : Program}
    (h : program.Assembled program.version bitcode scope pool body) :
    ∀ i ∈ body.instructions, bitcode.StoresAll scope pool program i ∧
      bitcode.LoadsAll scope pool program i := by
  intro i hi
  rcases h.source with rfl | ⟨temps, values, b, hmeets, hdecoded⟩
  · cases hi
  obtain ⟨arrays, hstatic⟩ := hdecoded.static
  obtain ⟨r, s, hcomes, hemits⟩ := hdecoded.emitted h.sound hi
  refine ⟨fun dst hdst htype => ?_, fun src hsrc htype => ?_⟩
  · obtain ⟨element, row, column, e, hwrites⟩ := hemits.writesOutput hdst htype
    have hnamed := hwrites.access.element?_eq h.prepared.outputParams
    refine ⟨e, column.number.toNat, h.outputs ▸ hnamed, ?_, hwrites.access.component, hwrites.mask,
      ?_⟩
    · exact ⟨values, b, r, s, element, row, column, hmeets, hcomes, hwrites, rfl⟩
    · rw [hwrites.mask]
      exact WriteMask.ofComponent_within hwrites.access.component
  · obtain ⟨element, row, column, e, hreads⟩ :=
      hemits.readsInput h.sound hstatic hcomes hsrc htype
    have hnamed := hreads.access.element?_eq h.prepared.inputParams
    refine ⟨e, column.number.toNat, h.inputs ▸ hnamed, ?_, hreads.access.component, ?_, ?_⟩
    · exact ⟨values, b, r, s, element, row, column, hmeets, hcomes, hreads, rfl⟩
    · rw [UInt32.ofNat_toNat]
      exact hreads.swizzle
    · rw [hreads.swizzle]
      exact Swizzle.broadcast_within hreads.access.component

/-- Every access of a body to an input or output is to one component of an element of its signature,
the one that a call gives as the column. The access stays inside exactly if the column does. -/
theorem parse_signature_accesses {kind : SourceKind} {name : String} {bytes : List UInt8}
    {program : Program} (h : (parse kind name bytes).program = .ok program) :
    ∃ bitcode scope pool, kind.bitcode? bytes = some bitcode ∧
      Program.Prepares program.version bitcode scope pool ∧
      ∀ i ∈ program.instructions, i.declaration = none →
        bitcode.StoresAll scope pool program i ∧ bitcode.LoadsAll scope pool program i := by
  obtain ⟨bitcode, scope, pool, body, hbitcode, hassembled⟩ := parse_assembled h
  refine ⟨bitcode, scope, pool, hbitcode, hassembled.prepared, fun i hi hplain => ?_⟩
  rcases hassembled.mem_body_or_ret hi hplain with hi | ⟨location, rfl⟩
  · exact hassembled.accesses i hi
  · refine ⟨fun dst hdst => ?_, fun src hsrc => ?_⟩
    · cases hdst
    · cases hsrc

/-! ## An access outside -/

/-- A pixel shader that copies its input to its output, each of which has only a second component.
It does so in the first column. -/
def packedShader : List UInt8 :=
  [0x60, 0x00, 0x00, 0x00, 0x48, 0x00, 0x00, 0x00, 0x44, 0x58, 0x49, 0x4c, 0x00, 0x01, 0x00, 0x00,
   0x10, 0x00, 0x00, 0x00, 0x08, 0x01, 0x00, 0x00, 0x42, 0x43, 0xc0, 0xde, 0x21, 0x0c, 0x00, 0x00,
   0x3f, 0x00, 0x00, 0x00, 0x89, 0x20, 0x00, 0x00, 0x0b, 0x00, 0x00, 0x00, 0x13, 0x04, 0xca, 0x08,
   0xc0, 0x1c, 0x01, 0x18, 0xcc, 0x11, 0x20, 0x33, 0x00, 0x53, 0x09, 0x00, 0x30, 0x88, 0x40, 0x00,
   0x53, 0x1d, 0xc0, 0x10, 0x04, 0x81, 0x10, 0x0c, 0x22, 0x18, 0xc0, 0x54, 0x07, 0x00, 0x04, 0x41,
   0x20, 0x0c, 0x83, 0x08, 0x08, 0x00, 0x00, 0x00, 0x0b, 0x82, 0x60, 0x08, 0x42, 0x00, 0x00, 0x00,
   0x00, 0x00, 0x30, 0x04, 0x31, 0x80, 0x00, 0x00, 0x00, 0x00, 0x18, 0x82, 0x20, 0x40, 0x00, 0x00,
   0x00, 0x00, 0x64, 0x81, 0x00, 0x00, 0x00, 0x00, 0x06, 0x00, 0x00, 0x00, 0x13, 0x04, 0xc1, 0x10,
   0x01, 0x30, 0x44, 0x20, 0x0c, 0x11, 0x48, 0x43, 0x04, 0xc8, 0x10, 0x81, 0x32, 0x41, 0x20, 0x0c,
   0x11, 0x00, 0x00, 0x00, 0x79, 0x20, 0x00, 0x00, 0x12, 0x00, 0x00, 0x00, 0x23, 0x08, 0xc1, 0x30,
   0x82, 0x10, 0x10, 0x23, 0x08, 0x41, 0x31, 0x41, 0x10, 0x0a, 0x33, 0x2c, 0x01, 0x31, 0x04, 0x40,
   0x20, 0x08, 0x81, 0x00, 0xcc, 0x10, 0x14, 0x33, 0x08, 0x86, 0x31, 0x82, 0x50, 0x00, 0x13, 0x04,
   0xe6, 0x30, 0x43, 0x81, 0x24, 0x07, 0x00, 0x0c, 0xe1, 0x90, 0x03, 0x3e, 0xb8, 0x41, 0x39, 0xb8,
   0x03, 0x3d, 0xc8, 0x43, 0x3e, 0xc0, 0xc2, 0x3b, 0xa4, 0x83, 0x3b, 0xd0, 0xc3, 0x3c, 0x8c, 0x12,
   0x24, 0x00, 0x00, 0x00, 0x61, 0x20, 0x00, 0x00, 0x06, 0x00, 0x00, 0x00, 0x13, 0x04, 0xc1, 0x88,
   0x01, 0x02, 0x00, 0xc8, 0x60, 0x18, 0x81, 0x31, 0x62, 0x80, 0x00, 0x00, 0x32, 0x1c, 0x87, 0x10,
   0x8c, 0x02, 0x00, 0x00, 0x71, 0x20, 0x00, 0x00, 0x04, 0x00, 0x00, 0x00, 0x13, 0x08, 0x80, 0x39,
   0x4c, 0x20, 0x04, 0xe9, 0x30, 0x81, 0x20, 0xbc, 0x03, 0x00, 0x00, 0x00, 0x00, 0x00, 0x00, 0x00]

/-- The first component is written and read. -/
theorem exists_access_outside :
    ∃ program, (parse .program "packed" packedShader).program = .ok program ∧
      (∃ i ∈ program.instructions, i.declaration = none ∧ ∃ dst ∈ i.dst,
        dst.register.type = .colorOut ∧ dst.mask = .x ∧
        (dst.register.element? program.outputs).map SignatureElement.mask = some 2) ∧
      ∃ i ∈ program.instructions, i.declaration = none ∧ ∃ src ∈ i.sources,
        src.register.type = .input ∧ src.swizzle = .xxxx ∧
        (src.register.element? program.inputs).map SignatureElement.mask = some 2 := by
  obtain ⟨program, hprogram, hfacts⟩ := exists_of_toOption_any
    (x := (parse .program "packed" packedShader).program)
    (f := fun program =>
      (program.instructions.any fun i => i.declaration.isNone && i.dst.any fun dst =>
        decide (dst.register.type = .colorOut ∧ dst.mask = .x ∧
          (dst.register.element? program.outputs).map SignatureElement.mask = some 2)) &&
      program.instructions.any fun i => i.declaration.isNone && i.sources.any fun src =>
        decide (src.register.type = .input ∧ src.swizzle = .xxxx ∧
          (src.register.element? program.inputs).map SignatureElement.mask = some 2))
    (by decide +kernel)
  simp only [Bool.and_eq_true, List.any_eq_true, Option.isNone_iff_eq_none,
    decide_eq_true_eq] at hfacts
  exact ⟨program, hprogram, hfacts⟩

theorem WriteMask.not_x_within_two : ¬ WriteMask.x.Within 2 := by
  unfold Within
  decide

/-- In the shader, a call writes a column of an element that has no such component. -/
theorem parse_signature_accesses_packed :
    ∃ program, (parse .program "packed" packedShader).program = .ok program ∧
      ∃ bitcode scope pool, SourceKind.program.bitcode? packedShader = some bitcode ∧
        Program.Prepares program.version bitcode scope pool ∧
        (∀ i ∈ program.instructions, i.declaration = none →
          bitcode.StoresAll scope pool program i ∧ bitcode.LoadsAll scope pool program i) ∧
        ∃ dst e c, bitcode.Stores scope pool dst e c ∧ e.mask.getLsbD c = false := by
  obtain ⟨program, hprogram, ⟨i, hi, hplain, dst, hdst, htype, hmask, helement⟩, -⟩ :=
    exists_access_outside
  obtain ⟨bitcode, scope, pool, hbitcode, hprepared, haccesses⟩ :=
    parse_signature_accesses hprogram
  refine ⟨program, hprogram, bitcode, scope, pool, hbitcode, hprepared, haccesses, ?_⟩
  obtain ⟨e, c, he, hstores, -, -, hwithin⟩ := (haccesses i hi hplain).1 dst hdst (.inr htype)
  rw [he, Option.map_some, Option.some.injEq] at helement
  refine ⟨dst, e, c, hstores, Bool.eq_false_iff.mpr fun hbit => ?_⟩
  have hinside := hwithin.mpr hbit
  rw [hmask, helement] at hinside
  exact WriteMask.not_x_within_two hinside

/-- So not every access is to a component that the element has. -/
theorem parse_not_always_inside :
    ¬ ∀ (kind : SourceKind) (name : String) (bytes : List UInt8) (program : Program),
      (parse kind name bytes).program = .ok program →
        ∀ i ∈ program.instructions, i.declaration = none → i.StaysInside program := by
  intro h
  obtain ⟨program, hprogram, ⟨i, hi, hplain, dst, hdst, htype, hmask, helement⟩, -⟩ :=
    exists_access_outside
  obtain ⟨e, he, hinside⟩ := (h _ _ _ program hprogram i hi hplain).outputs dst hdst (.inr htype)
  rw [he, Option.map_some, Option.some.injEq] at helement
  rw [hmask, helement] at hinside
  exact WriteMask.not_x_within_two hinside

end Dxil
