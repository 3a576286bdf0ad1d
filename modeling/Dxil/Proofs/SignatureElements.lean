import Dxil.Proofs.Module.Settles
import Dxil.Proofs.Module.Signatures
import Dxil.Proofs.Transcript

/-!
# Dxil.Proofs.SignatureElements

The elements of the signatures of a program are those that its metadata declares.

* `Program.openBytes` : the passes over a source up to its metadata. `Program.ofBytes_eq` : where
  they go on from there.
* `DstParam.Holds` : the operand for an element of a signature.
* `parse_signatures` : a program has the declared elements, each in its rows and columns, and an
  element that is out of them leaves no program.
-/

namespace Dxil

namespace Program

/-! ## Up to the metadata -/

def openBytes (bytes : List UInt8) : Decoder Opened := do
  let (version, bitcode) ← readModule bytes
  openBitcode version bitcode

def Opened.finish (o : Opened) : Decoder Program := do
  let q ← o.prepare
  q.finish o.version o.bitcode

theorem ofBitcode_eq (version : ShaderVersion) (bitcode : Bitcode) :
    ofBitcode version bitcode = openBitcode version bitcode >>= Opened.finish := by
  simp only [ofBitcode, prepare, openBitcode, Opened.finish, bind_assoc, pure_bind]

theorem ofBytes_eq (bytes : List UInt8) : ofBytes bytes = openBytes bytes >>= Opened.finish := by
  simp only [ofBytes, openBytes, ofBitcode_eq, bind_assoc]

end Program

theorem Ensures.openBytes (bytes : List UInt8) :
    Ensures .loudly (Program.openBytes bytes) fun o =>
      o.Sound ∧ programBitcode? bytes = some o.bitcode :=
  (readModule bytes).bind fun ⟨version, bitcode⟩ hbitcode =>
    (openBitcode version bitcode).mono fun _ ⟨hsound, _, ho⟩ => ⟨hsound, ho ▸ hbitcode⟩

/-- A source up to its metadata; `none` if it does not come so far. -/
def SourceKind.opened? (kind : SourceKind) (name : String) (bytes : List UInt8) :
    Option Program.Opened :=
  (kind.program? bytes).bind fun source =>
    (Program.openBytes source).run' { location := { source := name } }

namespace Program

def Opened.entryPoint? (o : Opened) : Option (MetadataScope × List (Option Nat)) :=
  EntryPoint.node? o.types o.globals.pool.values o.tables

/-- The signatures are those that the entry point declares. -/
def SignedBy (o : Opened) (program : Program) : Prop :=
  ∃ m operands, o.entryPoint? = some (m, operands) ∧
    program.inputs.DeclaredBy m (m.elementSlots (operands.getD 2 none) 0) ∧
    program.outputs.DeclaredBy m (m.elementSlots (operands.getD 2 none) 1)

theorem Opened.certifies_prepare {o : Opened} (h : o.Sound) :
    Certifies .anyhow o.prepare fun q => ∃ m operands, o.entryPoint? = some (m, operands) ∧
      q.entryPoint.DeclaredBy m operands :=
  (Certifies.entryPoint h.tablesClosed o.version.shaderType).bind fun _ =>
    (Certifies.of_ensures (.descriptorDecodeAll h.tablesClosed)).bind fun _ =>
    (Certifies.of_ensures .here).bind fun _ => .pure fun _ _ hdeclared => hdeclared

variable {o : Opened} {program : Program} {p p' : Progress}

/-- What comes after the signatures forgets no error of theirs. -/
theorem signedBy_of_finish (hs : o.Sound) (hp : p.Consistent) (h : o.finish p = .ok program p')
    (hok : p'.failed = false) : program.SignedBy o := by
  obtain ⟨q, p₁, hprepare, h⟩ := exists_of_bind_ok h
  obtain ⟨hp₁, hq⟩ := (Ensures.openedPrepare hs).of_ok hp hprepare
  obtain ⟨functions, p₂, hrun, h⟩ := exists_of_bind_ok h
  obtain ⟨hp₂, hfollows⟩ := (Ensures.functionsDecode hq.scope 0 _ _ hq.pool o.bitcode.root).of_ok
    (E := .anyhow) hp₁.consistent (of_orReport_ok hrun)
  obtain ⟨hp₃, hassembled⟩ := (Ensures.assemble hq hfollows).of_ok hp₂.consistent h
  have hok₁ := hp₂.not_failed hp₁.consistent (hp₃.not_failed hp₂.consistent hok)
  obtain ⟨m, operands, hnode, hdeclared⟩ :=
    (Opened.certifies_prepare hs).of_ok hp hprepare hok₁
  refine ⟨m, operands, hnode, ?_, ?_⟩
  · rw [hassembled.inputs, ← hq.inputs]
    exact hdeclared.inputs
  · rw [hassembled.outputs, ← hq.outputs]
    exact hdeclared.outputs

end Program

theorem parse_signedBy {kind : SourceKind} {name : String} {bytes : List UInt8}
    {program : Program} (h : (parse kind name bytes).program = .ok program) :
    ∃ o, kind.opened? name bytes = some o ∧ kind.bitcode? bytes = some o.bitcode ∧
      program.SignedBy o := by
  rcases parse_cases kind name bytes with ⟨-, -, hprogram, -⟩ | ⟨source, hsource, hparse⟩
  · rw [hprogram] at h
    cases h
  · rw [hparse] at h
    obtain ⟨p', hrun, hok⟩ := Parsed.exists_of_ofDecoder_ok h
    have hp : Progress.Consistent { location := { source := name } } := by
      simp [Progress.Consistent]
    rw [Program.ofBytes_eq] at hrun
    obtain ⟨o, p₁, hopen, hrun⟩ := exists_of_bind_ok hrun
    obtain ⟨hp₁, hsound, hbitcode⟩ := (Ensures.openBytes source).of_ok hp hopen
    refine ⟨o, ?_, ?_, Program.signedBy_of_finish hsound hp₁.consistent hrun hok⟩
    · rw [SourceKind.opened?, hsource, Option.bind_some]
      exact run'_of_ok hopen
    · rw [SourceKind.bitcode?, hsource, Option.bind_some]
      exact hbitcode

theorem not_breaks_of_parse {kind : SourceKind} {name : String} {bytes : List UInt8}
    {program : Program} (h : (parse kind name bytes).program = .ok program) {o : Program.Opened}
    (ho : kind.opened? name bytes = some o) {m : MetadataScope} {operands : List (Option Nat)}
    (hentry : o.entryPoint? = some (m, operands)) {k i : Nat} (hk : k < 2) {slot : Option Nat}
    (hslot : (m.elementSlots (operands.getD 2 none) k)[i]? = some slot) {e : ElementOperands}
    (he : m.element? slot = some e) : ¬ e.Breaks m i := by
  obtain ⟨o', ho', -, m', operands', hentry', hinputs, houtputs⟩ := parse_signedBy h
  rw [ho] at ho'
  cases ho'
  rw [hentry] at hentry'
  cases hentry'
  have hdeclared : ∃ sig : Signature,
      sig.DeclaredBy m (m.elementSlots (operands.getD 2 none) k) := by
    match k, hk with
    | 0, _ => exact ⟨_, hinputs⟩
    | 1, _ => exact ⟨_, houtputs⟩
  obtain ⟨sig, hsig⟩ := hdeclared
  have hlt := (List.getElem?_eq_some_iff.mp hslot).1
  obtain ⟨e', he', hdeclared⟩ :=
    hsig.element i slot _ hslot (List.getElem?_eq_getElem (hsig.length ▸ hlt))
  rw [he] at he'
  cases he'
  exact hdeclared.not_breaks

/-! ## Operands -/

/-- The operand for element number `i` of a signature: it has the components of the element, an
index for the row if there are more rows than one, and the number of the element as last index. -/
structure DstParam.Holds (e : SignatureElement) (i : Nat) (param : DstParam) : Prop where
  mask : param.mask = e.mask
  indices : param.register.indices.length = if 1 < e.registerCount.toNat then 2 else 1
  last : ∃ index, param.register.indices.getLast? = some index ∧ index.offset.toNat = i ∧
    index.relative = none

def Signature.HeldBy (params : List DstParam) (sig : Signature) : Prop :=
  params.length = sig.length ∧ ∀ (i : Nat) (e : SignatureElement) (param : DstParam),
    sig[i]? = some e → params[i]? = some param → param.Holds e i

/-- Each element of a signature is declared in a register of a type. -/
def Program.Declares (type : RegisterType) (sig : Signature) (program : Program) : Prop :=
  ∀ (i : Nat) (e : SignatureElement), sig[i]? = some e →
    ∃ instruction ∈ program.instructions, ∃ d param, instruction.declaration = some d ∧
      d.param? = some param ∧ param.register.type = type ∧ param.Holds e i

section

variable {m : MetadataScope} {slots : List (Option Nat)} {sig : Signature}

theorem DstParam.Holds.of_indices {e : SignatureElement} {i : Nat} (hi : i < UInt32.size)
    {param : DstParam} (hmask : param.mask = e.mask) (row : RegisterIndex)
    (hindices : param.register.indices =
      (if e.isArray then [row] else []) ++ [{ offset := UInt32.ofNat i }]) : param.Holds e i := by
  refine ⟨hmask, ?_, { offset := UInt32.ofNat i }, ?_, UInt32.toNat_ofNat_of_lt' hi, rfl⟩
  · have harray : e.isArray = true ↔ 1 < e.registerCount.toNat := decide_eq_true_iff
    rw [hindices]
    by_cases hrows : 1 < e.registerCount.toNat
    · rw [if_pos hrows, if_pos (harray.mpr hrows)]
      rfl
    · rw [if_neg hrows, if_neg (mt harray.mp hrows)]
      rfl
  · rw [hindices, List.getLast?_concat]

theorem Signature.DeclaredBy.lt_size (h : sig.DeclaredBy m slots) {i : Nat} {e : SignatureElement}
    (he : sig[i]? = some e) : i < UInt32.size := by
  have hlt := (List.getElem?_eq_some_iff.mp he).1
  obtain ⟨_, -, hdeclared⟩ :=
    h.element i _ e (List.getElem?_eq_getElem (h.length ▸ hlt)) he
  obtain ⟨id, -, hid⟩ := hdeclared.id
  rw [← hid]
  exact id.toNat_lt

theorem Signature.DeclaredBy.heldBy (h : sig.DeclaredBy m slots) (type : RegisterType) :
    sig.HeldBy (sig.params type) := by
  refine ⟨by simp [params], fun i e param he hparam => ?_⟩
  rw [getElem?_params he] at hparam
  cases hparam
  refine .of_indices (h.lt_size he) rfl .zero ?_
  by_cases harray : e.isArray = true
  · simp [SignatureElement.param, SignatureElement.register, harray]
  · simp [SignatureElement.param, SignatureElement.register, harray]

theorem Program.declares_of_declareEach {program : Program} {type : RegisterType}
    {opcode : Bool → Opcode} {instructions : List Instruction} (h : sig.DeclaredBy m slots)
    (heach : DeclareEach (Instruction.DeclaresElement type opcode) sig instructions)
    (hmem : ∀ i ∈ instructions, i ∈ program.instructions) : program.Declares type sig := by
  intro i e he
  have hlt := (List.getElem?_eq_some_iff.mp he).1
  have hget := List.getElem?_eq_getElem (heach.length ▸ hlt)
  obtain ⟨d, param, hd, hparam, hmask, htype, hindices⟩ :=
    (heach.declares i e _ he hget).declares
  exact ⟨_, hmem _ (List.getElem_mem _), d, param, hd, hparam, htype,
    .of_indices (h.lt_size he) hmask _ hindices⟩

end

/-! ## Programs -/

/-- The elements of both signatures are declared in metadata, one for one and in order. Each has its
position as id, and rows, columns, stream and semantic indices as far as there are any. The operands
for it have its components and its number. An element that is declared otherwise leaves no
program. -/
theorem parse_signatures (kind : SourceKind) (name : String) (bytes : List UInt8) :
    (∀ program, (parse kind name bytes).program = .ok program →
      ∃ o scope pool, kind.opened? name bytes = some o ∧ program.SignedBy o ∧
        Program.Prepares program.version o.bitcode scope pool ∧
        program.inputs.HeldBy scope.inputParams ∧ program.outputs.HeldBy scope.outputParams ∧
        program.Declares .input program.inputs ∧
        program.Declares program.version.shaderType.outputRegister program.outputs) ∧
    ∀ o m operands k i slot e, kind.opened? name bytes = some o →
      o.entryPoint? = some (m, operands) → k < 2 →
      (m.elementSlots (operands.getD 2 none) k)[i]? = some slot → m.element? slot = some e →
      e.Breaks m i → ∃ error, (parse kind name bytes).program = .error error := by
  refine ⟨fun program h => ?_, fun o m operands k i slot e ho hentry hk hslot he hbreaks => ?_⟩
  · obtain ⟨o, ho, hopened, m, operands, hentry, hinputs, houtputs⟩ := parse_signedBy h
    obtain ⟨bitcode, scope, pool, body, hbitcode, hassembled⟩ := parse_assembled h
    obtain rfl : o.bitcode = bitcode := Option.some.inj (hopened.symm.trans hbitcode)
    obtain ⟨l, hdescribes, -⟩ := hassembled.layout
    obtain ⟨location, hinstructions⟩ := hdescribes.instructions
    have hmem : ∀ i ∈ l.declarations, i ∈ program.instructions := by
      intro i hi
      rw [hinstructions, List.append_assoc]
      exact List.mem_append_left _ hi
    refine ⟨o, scope, pool, ho, ⟨m, operands, hentry, hinputs, houtputs⟩, hassembled.prepared,
      ?_, ?_, ?_, ?_⟩
    · rw [hassembled.prepared.inputParams, ← hassembled.inputs]
      exact hinputs.heldBy _
    · rw [hassembled.prepared.outputParams, ← hassembled.outputs]
      exact houtputs.heldBy _
    · refine Program.declares_of_declareEach hinputs hdescribes.inputs fun i hi => hmem i ?_
      simp [Layout.declarations, hi]
    · refine Program.declares_of_declareEach houtputs hdescribes.outputs fun i hi => hmem i ?_
      simp [Layout.declarations, hi]
  · cases hprogram : (parse kind name bytes).program with
    | error error => exact ⟨error, rfl⟩
    | ok program =>
      exact absurd hbreaks (not_breaks_of_parse hprogram ho hentry hk hslot he)

/-! ## An array of two rows -/

/-- A vertex shader with one output in the last two rows and columns, whose semantic indices are 7
and 8. -/
def rowsShader : List UInt8 :=
  [0x60, 0x00, 0x01, 0x00, 0x3c, 0x00, 0x00, 0x00, 0x44, 0x58, 0x49, 0x4c, 0x00, 0x01, 0x00, 0x00,
   0x10, 0x00, 0x00, 0x00, 0xd8, 0x00, 0x00, 0x00, 0x42, 0x43, 0xc0, 0xde, 0x21, 0x0c, 0x00, 0x00,
   0x33, 0x00, 0x00, 0x00, 0x89, 0x20, 0x00, 0x00, 0x04, 0x00, 0x00, 0x00, 0x13, 0x04, 0xc4, 0x1c,
   0x01, 0x18, 0x8c, 0x00, 0x4c, 0x25, 0x00, 0xc1, 0x20, 0x82, 0x00, 0x00, 0x0b, 0x82, 0x60, 0x08,
   0x22, 0x00, 0x00, 0x00, 0x00, 0x00, 0x90, 0x05, 0x02, 0x00, 0x00, 0x00, 0x06, 0x00, 0x00, 0x00,
   0x13, 0x04, 0xc0, 0x10, 0x01, 0x30, 0x44, 0x40, 0x0c, 0x11, 0x18, 0x43, 0x04, 0xce, 0x10, 0x01,
   0x34, 0x44, 0x20, 0x0d, 0x11, 0xf0, 0x01, 0x00, 0x79, 0x20, 0x00, 0x00, 0x17, 0x00, 0x00, 0x00,
   0x23, 0x08, 0x40, 0x30, 0x82, 0x00, 0x08, 0x23, 0x08, 0xc0, 0x30, 0x82, 0x00, 0x10, 0x23, 0x08,
   0x40, 0x31, 0x82, 0x00, 0x18, 0x23, 0x08, 0xc0, 0x31, 0x41, 0x10, 0x0a, 0x33, 0x08, 0x44, 0x31,
   0x83, 0x10, 0x0c, 0x33, 0x2c, 0x01, 0x62, 0x04, 0x89, 0x20, 0x08, 0x87, 0xa0, 0xcc, 0x10, 0x2c,
   0x33, 0x08, 0x00, 0x33, 0x82, 0x30, 0x00, 0x13, 0x04, 0xe6, 0x30, 0x43, 0xe1, 0x3c, 0x0d, 0x00,
   0x0c, 0xe1, 0x90, 0x03, 0x3e, 0xb8, 0x41, 0x39, 0xb8, 0x03, 0x3d, 0xc8, 0x43, 0x3e, 0xc0, 0xc2,
   0x3b, 0xa4, 0x83, 0x3b, 0xd0, 0xc3, 0x3c, 0x8c, 0x12, 0x3c, 0x00, 0x00, 0x61, 0x20, 0x00, 0x00,
   0x02, 0x00, 0x00, 0x00, 0x13, 0x04, 0xc1, 0x28, 0x00, 0x00, 0x00, 0x00, 0x71, 0x20, 0x00, 0x00,
   0x02, 0x00, 0x00, 0x00, 0x13, 0x08, 0x80, 0x39, 0x00, 0x00, 0x00, 0x00, 0x00, 0x00, 0x00, 0x00]

/-- The output is in the table as it is declared. With the first row moved down by one, it has no
second row, and there is no program. -/
theorem parse_signatures_rows :
    (∃ program, (parse .program "rows" rowsShader).program = .ok program ∧
      (∃ o, SourceKind.program.opened? "rows" rowsShader = some o ∧ program.SignedBy o) ∧
      program.Declares .output program.outputs ∧
      program.outputs.map (fun e => (e.registerIndex, e.registerCount, e.mask, e.streamIndex)) =
        [(30, 2, 12, 3)]) ∧
    ∃ error, (parse .program "rows" (rowsShader.set 101 0xf8)).program = .error error := by
  refine ⟨?_, ?_⟩
  · obtain ⟨program, hprogram, hfacts⟩ := exists_of_toOption_any
      (x := (parse .program "rows" rowsShader).program)
      (f := fun program => decide (program.version.shaderType = .vertex ∧
        program.outputs.map (fun e => (e.registerIndex, e.registerCount, e.mask, e.streamIndex)) =
          [(30, 2, 12, 3)]))
      (by decide +kernel)
    obtain ⟨htype, houtputs⟩ := of_decide_eq_true hfacts
    obtain ⟨o, _, _, ho, hsigned, -, -, -, -, hdeclares⟩ :=
      (parse_signatures .program "rows" rowsShader).1 program hprogram
    rw [htype] at hdeclares
    exact ⟨program, hprogram, ⟨o, ho, hsigned⟩, hdeclares, houtputs⟩
  · have hbreaks : (SourceKind.program.opened? "rows" (rowsShader.set 101 0xf8)).any (fun o =>
        o.entryPoint?.any fun found =>
          (found.1.elementSlots (found.2.getD 2 none) 1)[0]?.any fun slot =>
            (found.1.element? slot).any fun e =>
              (found.1.uint? e.startRow).any fun first => (found.1.uint? e.rows).any fun count =>
                decide (maxSignatureRows < first.toNat + count.toNat)) = true := by
      decide +kernel
    simp only [Option.any_eq_true, decide_eq_true_eq] at hbreaks
    obtain ⟨o, ho, ⟨m, operands⟩, hentry, slot, hslot, e, he, first, hfirst, count, hcount, hout⟩ :=
      hbreaks
    exact (parse_signatures .program "rows" (rowsShader.set 101 0xf8)).2 o m operands 1 0 slot e
      ho hentry (by decide) hslot he (.rows hfirst hcount hout)

end Dxil
