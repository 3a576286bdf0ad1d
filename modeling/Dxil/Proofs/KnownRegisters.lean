import Dxil.Proofs.Parse

/-!
# Dxil.Proofs.KnownRegisters

An operand that stands for no register at all has the register type `invalid`. Programs may have
such operands, as `parse_not_always_known` says. They come from three places only.

* `Gap` : a record that makes up an unknown register, as an operand or as its result.
* `FunctionBody.Flawed` : a body with such a record, or that starts with a null of a type that is no
  number.
* `parse_unknown_register_flawed` : without a flaw of the body every register is known, and
  destinations and declarations always are.
-/

namespace Dxil

/-- A record by which an unknown register comes in. -/
inductive Gap (scope : FunctionScope) (values : Values) (r : Record) : Prop where
  /-- The second operand of a calculation or comparison is a function or constant data. Its type
  differs from that of the first one, but that draws only a warning. -/
  | operand {code : FunctionCode} {l : Lowered} {v : Value}
      (hcode : FunctionCode.ofNat? r.code.toNat = some code)
      (hcalculates : code = .binary ∨ code = .compare) (hl : Lowers scope values r code l)
      (hv : Refers scope values r 1 v) (hread : v.isReadable = false)
  /-- The operation that stores an output is declared to have a result. -/
  | result {dst : DstParam} {src : SrcParam} {type : TypeId}
      (hcode : FunctionCode.ofNat? r.code.toNat = some .call)
      (hl : Lowers scope values r .call (.store dst src (some type)))

/-- A body that starts with `values` has a null of a type that is no number, or comes to a record
with a gap. -/
def FunctionBody.Flawed (scope : FunctionScope) (values : Values) (records : List Record) : Prop :=
  (∃ v ∈ values, v.IsUnknownNull scope.types) ∨
    ∃ before r after s, records = before ++ r :: after ∧
      BodyState.Reaches scope values before s ∧ Gap scope s.values r

/-! ## Operands -/

def KnownUnless (flaw : Prop) (m : Register) : Prop := m.type = .invalid → flaw

theorem KnownUnless.of_ne {flaw : Prop} {m : Register} (h : m.type ≠ .invalid) :
    KnownUnless flaw m :=
  fun hinvalid => absurd hinvalid h

theorem Lasting.knownUnless (flaw : Prop) : Lasting (KnownUnless flaw) :=
  .of_number fun type _ => type = .invalid → flaw

theorem Ty.isNumeric_of_operandClass? {type : Ty} {operands : OperandClass}
    (h : type.operandClass? = some operands) : type.isNumeric = true := by
  cases type with
  | int | float => rfl
  | _ => cases h

namespace Lowers

variable {scope : FunctionScope} {values : Values} {r : Record} {code : FunctionCode} {l : Lowered}

/-- The first operand of a calculation is a number, which functions and constant data are not. -/
theorem isReadable_first (ht : ∀ v ∈ values, v.Typed scope.types)
    (h : Lowers scope values r code l) (hcode : code = .binary ∨ code = .compare) {v : Value}
    (hv : Refers scope values r 0 v) : v.isReadable = true := by
  have hnumeric : ∃ type, v.type.bind scope.types.get? = some type ∧ type.isNumeric = true := by
    cases h with
    | binary ha _ _ _ hclass =>
      obtain rfl := hv.unique ha
      obtain ⟨type, htype, hoperands⟩ := Option.bind_eq_some_iff.mp hclass
      exact ⟨type, htype, Ty.isNumeric_of_operandClass? hoperands⟩
    | @comparison _ _ _ _ type _ _ ha _ _ _ htype hnumber =>
      obtain rfl := hv.unique ha
      refine ⟨type, htype, ?_⟩
      cases type with
      | int | float => rfl
      | _ => simp [Ty.isArithmeticInteger, Ty.isFloat] at hnumber
    | _ => simp at hcode
  cases hread : v.isReadable with
  | true => rfl
  | false =>
    obtain ⟨type, htype, hnumber⟩ := hnumeric
    obtain ⟨type', htype', hother⟩ := ht v hv.mem hread
    rw [htype] at htype'
    cases htype'
    rw [hnumber] at hother
    cases hother

/-- Unknown registers come only from values, or through a gap. -/
theorem known (hs : scope.Sound) {flaw : Prop}
    (hcode : FunctionCode.ofNat? r.code.toNat = some code)
    (hgap : Gap scope values r → flaw) (ht : ∀ v ∈ values, v.Typed scope.types)
    (hv : ∀ v ∈ values, v.All (KnownUnless flaw)) (h : Lowers scope values r code l) :
    l.All (KnownUnless flaw) := by
  refine h.all (.knownUnless flaw) hv hs (fun _ _ => .of_ne) fun hcalculates i v hi hrefers => ?_
  cases hread : v.isReadable with
  | true => exact .inl rfl
  | false =>
    refine .inr fun _ => hgap ?_
    obtain rfl | rfl : i = 0 ∨ i = 1 := by omega
    · simp [isReadable_first ht h hcalculates hrefers] at hread
    · exact .operand hcode hcalculates h hrefers hread

end Lowers

/-! ## Bodies -/

namespace BodyState

structure Known (flaw : Prop) (types : TypeTable) (s : BodyState) : Prop where
  typed : ∀ v ∈ s.values, v.Typed types
  values : ∀ v ∈ s.values, v.All (KnownUnless flaw)
  instructions : ∀ i ∈ s.instructions, ∀ m ∈ i.mentions, KnownUnless flaw m
  destinations : ∀ i ∈ s.instructions, ∀ dst ∈ i.dst, dst.register.type ≠ .invalid
  plain : ∀ i ∈ s.instructions, i.declaration = none

variable {flaw : Prop} {scope : FunctionScope} {values : Values} {s s' : BodyState} {r : Record}
  {v : Value} {isCall : Bool}

theorem Known.define (h : s.Known flaw scope.types) (ht : v.Typed scope.types)
    (hv : v.All (KnownUnless flaw)) : (s.define isCall v).Known flaw scope.types := by
  refine ⟨fun v' hmem => ?_, fun v' hmem => ?_, ?_, ?_, ?_⟩
  · rcases mem_values_define hmem with hmem | rfl
    · exact h.typed v' hmem
    · exact ht
  · rcases mem_values_define hmem with hmem | rfl
    · exact h.values v' hmem
    · exact hv
  · simpa using h.instructions
  · simpa using h.destinations
  · simpa using h.plain

theorem Known.push (h : s.Known flaw scope.types) {i : Instruction}
    (hsrc : ∀ src ∈ i.src, src.register.All (KnownUnless flaw))
    (hdst : ∀ dst ∈ i.dst, dst.register.type ≠ .invalid ∧
      dst.register.All (KnownUnless flaw))
    (hplain : i.declaration = none) (ssaCount : UInt32) :
    Known flaw scope.types
      { s with instructions := s.instructions.push i, ssaCount } := by
  refine ⟨h.typed, h.values, ?_, ?_, ?_⟩
  · intro i' hi'
    rcases Array.mem_push.mp hi' with hi' | rfl
    · exact h.instructions i' hi'
    · refine Instruction.forall_mentions.mpr ⟨hsrc, fun dst hmem => (hdst dst hmem).2, ?_⟩
      simp [hplain]
  · intro i' hi'
    rcases Array.mem_push.mp hi' with hi' | rfl
    · exact h.destinations i' hi'
    · exact fun dst hmem => (hdst dst hmem).1
  · intro i' hi'
    rcases Array.mem_push.mp hi' with hi' | rfl
    · exact h.plain i' hi'
    · exact hplain

theorem Known.step (hs : scope.Sound) (h : s.Known flaw scope.types)
    (hgap : Gap scope s.values r → flaw) (hstep : s.Steps scope r s') :
    s'.Known flaw scope.types := by
  cases hstep with
  | ret => exact ⟨h.typed, h.values, h.instructions, h.destinations, h.plain⟩
  | value hcode hl =>
    exact h.define (Value.typed_of_isReadable hl.isReadable_value)
      (hl.known hs hcode hgap h.typed h.values)
  | @operation code op hcode hl data location =>
    have hssa : (op.register data s.ssaCount).type ≠ .invalid := by simp [Operation.register]
    have hresult : (op.register data s.ssaCount).All (KnownUnless flaw) :=
      Register.all_of_fixed (.of_ne hssa) (by simp [Operation.register])
    have hdst : ∀ dst ∈ (op.instruction data s.ssaCount location).dst,
        dst.register.type ≠ .invalid ∧ dst.register.All (KnownUnless flaw) := by
      intro dst hdst
      obtain hdst | rfl : dst.register = op.register data s.ssaCount ∨ dst = .discarded := by
        cases hp : op.place <;>
          simp [Operation.instruction, hp, ResultPlace.destinations] at hdst <;> grind
      · rw [hdst]
        exact ⟨hssa, hresult⟩
      · have hnull : DstParam.discarded.register.type ≠ .invalid := by simp [DstParam.discarded]
        exact ⟨hnull, Register.all_of_fixed (.of_ne hnull) (by simp [DstParam.discarded])⟩
    have hdefine : (s.define (code = .call) (op.value data s.ssaCount)).Known flaw scope.types :=
      h.define (Value.typed_of_isReadable rfl) (Value.all_register hresult)
    have hsrc : ∀ src ∈ op.src, src.register.All (KnownUnless flaw) :=
      hl.known hs hcode hgap h.typed h.values
    have hnext := hdefine.push (i := op.instruction data s.ssaCount location) hsrc hdst rfl
      (s.ssaCount + 1)
    rwa [instructions_define] at hnext
  | @store code dst src type hcode hl location =>
    obtain ⟨hdst, hsrc⟩ := hl.known hs hcode hgap h.typed h.values
    have hknown := RegisterType.ne_invalid_of_isSignature (hl.isSignature_store hs)
    have hdefine : (s.define (code = .call) { type, kind := .register .unknown }).Known flaw
        scope.types := by
      obtain rfl := hl.code_store
      -- A store defines a value only if its operation is declared to have a result.
      cases type with
      | none => exact h
      | some type =>
        refine h.define (Value.typed_of_isReadable rfl) (Value.all_register ?_)
        exact Register.all_of_fixed (fun _ => hgap (.result hcode hl))
          (by simp [Register.unknown])
    have hnext := hdefine.push (i := { opcode := .mov, location, dst := [dst], src := [src] })
      (by simpa using hsrc) (by simpa using ⟨hknown, hdst⟩) rfl
      (s.define (code = .call) { type, kind := .register .unknown }).ssaCount
    rwa [instructions_define] at hnext
  | undefined htype data =>
    refine h.define (Value.typed_of_isReadable rfl) (Value.all_register ?_)
    exact Register.all_of_fixed (.of_ne (by simp)) (by simp)

theorem Reaches.known (hs : scope.Sound) {temps arrays : Nat}
    (hv : ∀ v ∈ values, v.Static scope.types temps arrays) {records before after : List Record}
    (hrecords : records = before ++ after) (h : Reaches scope values before s) :
    s.Known (FunctionBody.Flawed scope values records) scope.types := by
  induction h generalizing after with
  | start =>
    refine ⟨fun v hmem => (hv v hmem).typed, fun v hmem => ?_, by simp, by simp, by simp⟩
    exact (hv v hmem).all (fun _ _ => .of_ne) fun register hkind htype _ =>
      .inl ⟨v, hmem, (hv v hmem).unknown register hkind htype⟩
  | @next before s s' r h hstep ih =>
    have hsplit : records = before ++ r :: after := by simp [hrecords]
    refine (ih hsplit).step hs (fun hgap => .inr ⟨before, r, after, s, hsplit, h, hgap⟩) ?_
    exact (Ensures.bodyStep hs (h.sound hs hv).usable 1 r).of_yields (E := .anyhow) hstep

end BodyState

/-! ## Programs -/

theorem Instruction.IsDeclaration.known {i : Instruction} (h : i.IsDeclaration) :
    ∀ m ∈ i.mentions, m.type ≠ .invalid := by
  obtain ⟨d, hd, hfixed⟩ := h.declares
  have hregisters : ∀ d', i.declaration = some d' → ∀ r ∈ d'.registers,
      r.All fun m => m.type ≠ .invalid := by
    intro d' hd' r hr
    rw [hd] at hd'
    cases hd'
    exact Register.all_of_fixed (hfixed r hr).known (hfixed r hr).indices
  exact Instruction.forall_mentions.mpr ⟨by simp [h.src], by simp [h.dst], hregisters⟩

theorem Program.Assembled.known {version : ShaderVersion} {bitcode : Bitcode}
    {scope : FunctionScope} {pool : ConstantPool} {body : FunctionBody} {program : Program}
    (h : program.Assembled version bitcode scope pool body) :
    ∀ i ∈ body.instructions, i.declaration = none ∧
      (∀ dst ∈ i.dst, dst.register.type ≠ .invalid) ∧
      ∀ m ∈ i.mentions, m.type = .invalid →
        ∃ values b, Functions.MeetsBody scope 0 { pool } bitcode.root values b ∧
          FunctionBody.Flawed scope values b.records.tail := by
  intro i hi
  rcases h.source with rfl | ⟨temps, values, b, hmeets, ⟨arrays, hstatic⟩, hyields⟩
  · cases hi
  · obtain ⟨s, hreaches, rfl⟩ :=
      (Ensures.bodyDecode h.sound hstatic b).of_yields (E := .anyhow) hyields
    have hknown := hreaches.known h.sound hstatic (List.append_nil _).symm
    have hmem : i ∈ s.instructions := Array.mem_toList_iff.mp hi
    exact ⟨hknown.plain i hmem, hknown.destinations i hmem, fun m hm hinvalid =>
      ⟨values, b, hmeets, hknown.instructions i hmem m hm hinvalid⟩⟩

/-- Every destination is a known register, and so is whatever a declaration mentions. Where any
other register is unknown, the module has a body that is flawed. -/
theorem parse_unknown_register_flawed {kind : SourceKind} {name : String} {bytes : List UInt8}
    {program : Program} (h : (parse kind name bytes).program = .ok program) :
    (∀ i ∈ program.instructions, ∀ dst ∈ i.dst, dst.register.type ≠ .invalid) ∧
    (∀ i ∈ program.instructions, i.declaration ≠ none → ∀ m ∈ i.mentions, m.type ≠ .invalid) ∧
    ((∃ i ∈ program.instructions, ∃ m ∈ i.mentions, m.type = .invalid) →
      ∃ bitcode scope pool values b, kind.bitcode? bytes = some bitcode ∧
        Program.Prepares program.version bitcode scope pool ∧
        Functions.MeetsBody scope 0 { pool } bitcode.root values b ∧
        FunctionBody.Flawed scope values b.records.tail) := by
  obtain ⟨bitcode, scope, pool, body, hbitcode, hassembled⟩ := parse_assembled h
  obtain ⟨declarations, location, hdeclarations, hinstructions⟩ := hassembled.instructions
  -- An instruction declares, or is one of the body, or is the return, which has no operands.
  have hcases : ∀ i ∈ program.instructions, i.IsDeclaration ∨ i ∈ body.instructions ∨
      (i.dst = [] ∧ i.mentions = [] ∧ i.declaration = none) := by
    intro i hi
    rw [hinstructions, List.mem_append, List.mem_append, List.mem_singleton] at hi
    rcases hi with (hi | hi) | rfl
    · exact .inl (hdeclarations i hi)
    · exact .inr (.inl hi)
    · exact .inr (.inr ⟨rfl, rfl, rfl⟩)
  refine ⟨fun i hi => ?_, fun i hi hdeclares => ?_, ?_⟩
  · rcases hcases i hi with hdeclaration | hbody | ⟨hdst, -, -⟩
    · simp [hdeclaration.dst]
    · exact (hassembled.known i hbody).2.1
    · simp [hdst]
  · rcases hcases i hi with hdeclaration | hbody | ⟨-, hmentions, -⟩
    · exact hdeclaration.known
    · exact absurd (hassembled.known i hbody).1 hdeclares
    · simp [hmentions]
  · rintro ⟨i, hi, m, hm, hinvalid⟩
    rcases hcases i hi with hdeclaration | hbody | ⟨-, hmentions, -⟩
    · exact absurd hinvalid (hdeclaration.known m hm)
    · obtain ⟨values, b, hmeets, hflawed⟩ := (hassembled.known i hbody).2.2 m hm hinvalid
      exact ⟨bitcode, scope, pool, values, b, hbitcode, hassembled.prepared, hmeets, hflawed⟩
    · simp [hmentions] at hm

/-! ## Programs with unknown registers -/

/-- A pixel shader that adds a function to a number. -/
def functionOperandShader : List UInt8 :=
  [0x60, 0x00, 0x00, 0x00, 0x2e, 0x00, 0x00, 0x00, 0x44, 0x58, 0x49, 0x4c, 0x00, 0x01, 0x00, 0x00,
   0x10, 0x00, 0x00, 0x00, 0xa0, 0x00, 0x00, 0x00, 0x42, 0x43, 0xc0, 0xde, 0x21, 0x0c, 0x00, 0x00,
   0x25, 0x00, 0x00, 0x00, 0x0b, 0x82, 0x20, 0x11, 0x04, 0x00, 0x00, 0x00, 0x04, 0x00, 0x00, 0x00,
   0x13, 0x04, 0xc4, 0x08, 0xc0, 0x1c, 0x01, 0x18, 0x4c, 0x25, 0x00, 0xc0, 0x20, 0x81, 0x00, 0x00,
   0x43, 0x10, 0x01, 0x00, 0x00, 0x00, 0x00, 0x80, 0x2c, 0x10, 0x00, 0x00, 0x02, 0x00, 0x00, 0x00,
   0x13, 0x04, 0xc1, 0x10, 0x81, 0x01, 0x00, 0x00, 0x79, 0x20, 0x00, 0x00, 0x0b, 0x00, 0x00, 0x00,
   0x23, 0x08, 0x03, 0x30, 0x01, 0xd1, 0x0e, 0xe1, 0x90, 0x0e, 0xee, 0x30, 0x43, 0x11, 0x08, 0x00,
   0x00, 0x0c, 0xe1, 0x90, 0x03, 0x3e, 0xb8, 0x41, 0x39, 0xb8, 0x03, 0x3d, 0xc8, 0x43, 0x3e, 0xc0,
   0xc2, 0x3b, 0xa4, 0x83, 0x3b, 0xd0, 0xc3, 0x3c, 0x8c, 0x12, 0x08, 0x00, 0x61, 0x20, 0x00, 0x00,
   0x03, 0x00, 0x00, 0x00, 0x13, 0x04, 0xc1, 0x08, 0x43, 0x20, 0x00, 0xa3, 0x00, 0x00, 0x00, 0x00,
   0x71, 0x20, 0x00, 0x00, 0x03, 0x00, 0x00, 0x00, 0x13, 0x14, 0x40, 0x3b, 0x84, 0x43, 0x3a, 0xb8,
   0x03, 0x00, 0x00, 0x00, 0x00, 0x00, 0x00, 0x00]

/-- A pixel shader that selects one of two null pointers. -/
def nullOperandShader : List UInt8 :=
  [0x60, 0x00, 0x00, 0x00, 0x30, 0x00, 0x00, 0x00, 0x44, 0x58, 0x49, 0x4c, 0x00, 0x01, 0x00, 0x00,
   0x10, 0x00, 0x00, 0x00, 0xa8, 0x00, 0x00, 0x00, 0x42, 0x43, 0xc0, 0xde, 0x21, 0x0c, 0x00, 0x00,
   0x27, 0x00, 0x00, 0x00, 0x0b, 0x82, 0x20, 0x11, 0x04, 0x00, 0x00, 0x00, 0x05, 0x00, 0x00, 0x00,
   0x13, 0x04, 0xc5, 0x08, 0xc0, 0x1c, 0x01, 0x18, 0x4c, 0x25, 0x00, 0xc0, 0x20, 0x81, 0x30, 0x47,
   0x10, 0x00, 0x00, 0x00, 0x43, 0x10, 0x01, 0x00, 0x00, 0x00, 0x00, 0x80, 0x2c, 0x10, 0x00, 0x00,
   0x03, 0x00, 0x00, 0x00, 0x13, 0x04, 0xc3, 0x08, 0xc0, 0x04, 0x01, 0x31, 0x44, 0x20, 0x00, 0x00,
   0x79, 0x20, 0x00, 0x00, 0x0b, 0x00, 0x00, 0x00, 0x23, 0x08, 0x03, 0x30, 0x01, 0xd1, 0x0e, 0xe1,
   0x90, 0x0e, 0xee, 0x30, 0x43, 0x11, 0x08, 0x00, 0x00, 0x0c, 0xe1, 0x90, 0x03, 0x3e, 0xb8, 0x41,
   0x39, 0xb8, 0x03, 0x3d, 0xc8, 0x43, 0x3e, 0xc0, 0xc2, 0x3b, 0xa4, 0x83, 0x3b, 0xd0, 0xc3, 0x3c,
   0x8c, 0x12, 0x08, 0x00, 0x61, 0x20, 0x00, 0x00, 0x03, 0x00, 0x00, 0x00, 0x13, 0x04, 0xc1, 0x74,
   0x83, 0x20, 0x04, 0xa3, 0x00, 0x00, 0x00, 0x00, 0x71, 0x20, 0x00, 0x00, 0x03, 0x00, 0x00, 0x00,
   0x13, 0x14, 0x40, 0x3b, 0x84, 0x43, 0x3a, 0xb8, 0x03, 0x00, 0x00, 0x00, 0x00, 0x00, 0x00, 0x00]

/-- A pixel shader that stores an output and adds to the result of that. -/
def storeResultShader : List UInt8 :=
  [0x60, 0x00, 0x00, 0x00, 0x47, 0x00, 0x00, 0x00, 0x44, 0x58, 0x49, 0x4c, 0x00, 0x01, 0x00, 0x00,
   0x10, 0x00, 0x00, 0x00, 0x04, 0x01, 0x00, 0x00, 0x42, 0x43, 0xc0, 0xde, 0x21, 0x0c, 0x00, 0x00,
   0x3e, 0x00, 0x00, 0x00, 0x0b, 0x82, 0x20, 0x11, 0x04, 0x00, 0x00, 0x00, 0x07, 0x00, 0x00, 0x00,
   0x13, 0x04, 0xc7, 0x08, 0xc0, 0x1c, 0x01, 0x18, 0x4c, 0x25, 0x00, 0xc0, 0x20, 0x81, 0x30, 0x47,
   0x80, 0x4c, 0x75, 0x00, 0x41, 0x10, 0x04, 0x44, 0x30, 0x48, 0x50, 0x00, 0x43, 0x10, 0x01, 0x00,
   0x00, 0x00, 0x00, 0x80, 0x21, 0x48, 0x01, 0x04, 0x00, 0x00, 0x00, 0x40, 0x16, 0x08, 0x00, 0x00,
   0x04, 0x00, 0x00, 0x00, 0x13, 0x04, 0xc1, 0x10, 0x81, 0x32, 0x02, 0x30, 0x44, 0x20, 0x4c, 0x10,
   0x10, 0x23, 0x00, 0x00, 0x79, 0x20, 0x00, 0x00, 0x13, 0x00, 0x00, 0x00, 0x23, 0x08, 0x03, 0x30,
   0x01, 0xd1, 0x0e, 0xe1, 0x90, 0x0e, 0xee, 0x30, 0x82, 0x10, 0x0c, 0x23, 0x08, 0x01, 0x31, 0x82,
   0x10, 0x08, 0x13, 0x04, 0xa1, 0x30, 0x83, 0x32, 0x18, 0xc5, 0x00, 0x0c, 0x04, 0x31, 0x0c, 0x33,
   0x04, 0xc7, 0x0c, 0x03, 0x80, 0x00, 0x33, 0x14, 0x81, 0x90, 0x00, 0xc0, 0x10, 0x0e, 0x39, 0xe0,
   0x83, 0x1b, 0x94, 0x83, 0x3b, 0xd0, 0x83, 0x3c, 0xe4, 0x03, 0x2c, 0xbc, 0x43, 0x3a, 0xb8, 0x03,
   0x3d, 0xcc, 0xc3, 0x28, 0x41, 0x02, 0x00, 0x00, 0x61, 0x20, 0x00, 0x00, 0x06, 0x00, 0x00, 0x00,
   0x13, 0x04, 0xc1, 0x88, 0x41, 0x02, 0x80, 0x20, 0x18, 0x14, 0x05, 0x31, 0x0c, 0x81, 0x30, 0xc2,
   0x10, 0x0c, 0xc0, 0x28, 0x00, 0x00, 0x00, 0x00, 0x71, 0x20, 0x00, 0x00, 0x0a, 0x00, 0x00, 0x00,
   0x13, 0x14, 0x40, 0x3b, 0x84, 0x43, 0x3a, 0xb8, 0xc3, 0x04, 0x52, 0x40, 0x0e, 0xf8, 0xe0, 0x06,
   0xef, 0x00, 0x0f, 0x6e, 0x30, 0x0f, 0xf4, 0xf0, 0x0e, 0xf2, 0x50, 0x0e, 0xaf, 0x50, 0x0f, 0xf4,
   0x00, 0x0f, 0xf5, 0x40, 0x0f, 0x00, 0x00, 0x00, 0x00, 0x00, 0x00, 0x00]

/-- Each kind of flaw by itself gets as far as a program. -/
theorem exists_unknown_register :
    ∀ bytes ∈ [functionOperandShader, nullOperandShader, storeResultShader],
      ∃ program, (parse .program "flawed" bytes).program = .ok program ∧
        ∃ i ∈ program.instructions, ∃ m ∈ i.mentions, m.type = .invalid := by
  have hfacts : [functionOperandShader, nullOperandShader, storeResultShader].all (fun bytes =>
      (parse .program "flawed" bytes).program.toOption.any fun program =>
        program.instructions.any fun i => i.mentions.any fun m => m.type = .invalid) = true := by
    decide +kernel
  intro bytes hbytes
  have hfact := List.all_eq_true.mp hfacts bytes hbytes
  cases h : (parse .program "flawed" bytes).program with
  | ok program =>
    simp only [h, Except.toOption, Option.any_some, List.any_eq_true, decide_eq_true_eq] at hfact
    exact ⟨program, rfl, hfact⟩
  | error e => simp [h, Except.toOption] at hfact

/-- The body of the shader that adds to a result is flawed, while its destinations are known. -/
theorem parse_unknown_register_flawed_storeResult :
    ∃ program, (parse .program "flawed" storeResultShader).program = .ok program ∧
      (∃ i ∈ program.instructions, ∃ m ∈ i.mentions, m.type = .invalid) ∧
      (∀ i ∈ program.instructions, ∀ dst ∈ i.dst, dst.register.type ≠ .invalid) ∧
      ∃ bitcode scope pool values b,
        SourceKind.program.bitcode? storeResultShader = some bitcode ∧
        Program.Prepares program.version bitcode scope pool ∧
        Functions.MeetsBody scope 0 { pool } bitcode.root values b ∧
        FunctionBody.Flawed scope values b.records.tail := by
  obtain ⟨program, hprogram, hunknown⟩ := exists_unknown_register storeResultShader (by simp)
  obtain ⟨hdestinations, -, hflawed⟩ := parse_unknown_register_flawed hprogram
  exact ⟨program, hprogram, hunknown, hdestinations, hflawed hunknown⟩

/-- So not every program that is given out has only known registers. -/
theorem parse_not_always_known :
    ¬ ∀ (kind : SourceKind) (name : String) (bytes : List UInt8) (program : Program),
      (parse kind name bytes).program = .ok program →
        ∀ i ∈ program.instructions, ∀ m ∈ i.mentions, m.type ≠ .invalid := by
  intro h
  obtain ⟨program, hprogram, i, hi, m, hm, hinvalid⟩ :=
    exists_unknown_register functionOperandShader List.mem_cons_self
  exact h .program "flawed" functionOperandShader program hprogram i hi m hm hinvalid

end Dxil
