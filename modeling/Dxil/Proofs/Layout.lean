import Dxil.Proofs.Function.Emission
import Dxil.Proofs.Parse

/-!
# Dxil.Proofs.Layout

The instructions of every program stand in one order: declarations, which agree with the tables of
the program, then the body, then a return.

* `Lowers.computes` : the opcodes that records are lowered to are not those of declarations.
* `parse_layout`
-/

namespace Dxil

/-! ## Opcodes -/

theorem BinaryOp.computes_opcode? {op : BinaryOp} {operands : OperandClass} {opcode : Opcode}
    (h : op.opcode? operands = some opcode) : opcode.Computes := by
  cases operands <;> cases op <;> cases h <;> decide

theorem CastOp.computes_opcode? {op : CastOp} {source target : ScalarShape} {opcode : Opcode}
    (h : op.opcode? source target = some opcode) : opcode.Computes := by
  unfold Opcode.Computes
  unfold CastOp.opcode? at h
  cases op <;> cases source <;> cases target <;> simp only [reduceCtorEq] at h <;>
    grind [Opcode.isDeclaration]

theorem CastOp.computes_plan {op : CastOp} {source target : ScalarShape} {opcode : Opcode}
    (h : op.plan source target = .convert opcode) : opcode.Computes := by
  unfold CastOp.plan at h
  cases hopcode : op.opcode? source target with
  | none => simp [hopcode] at h
  | some found =>
    obtain rfl : found = opcode := by grind
    exact CastOp.computes_opcode? hopcode

theorem Predicate.computes_opcode? {p : Predicate} {isDouble swapped : Bool} {opcode : Opcode}
    (h : p.opcode? isDouble = some (opcode, swapped)) : opcode.Computes := by
  cases isDouble <;> cases p <;> cases h <;> decide

theorem Opcode.computes_mov : Opcode.mov.Computes := by decide

theorem Opcode.computes_movc : Opcode.movc.Computes := by decide

/-! ## Bodies -/

section

variable {scope : FunctionScope} {values : Values} {s : BodyState} {r : Record}

theorem Lowers.computes {code : FunctionCode} {op : Operation}
    (h : Lowers scope values r code (.operation op)) : op.opcode.Computes := by
  cases h with
  | binary _ _ _ _ _ hopcode => exact BinaryOp.computes_opcode? hopcode
  | convert _ _ hplan => exact CastOp.computes_plan hplan
  | comparison _ _ _ _ _ _ _ hopcode => exact Predicate.computes_opcode? hopcode
  | select => exact Opcode.computes_movc
  | extract | load | loadConstantBuffer | loadInput => exact Opcode.computes_mov

theorem BodyState.Emits.computes {i : Instruction} (h : s.Emits scope r i) : i.Computes := by
  refine ⟨h.declaration, ?_⟩
  cases h with
  | operation hl => exact hl.computes
  | store => exact Opcode.computes_mov

end

theorem Program.Assembled.computes {version : ShaderVersion} {bitcode : Bitcode}
    {scope : FunctionScope} {pool : ConstantPool} {body : FunctionBody} {program : Program}
    (h : program.Assembled version bitcode scope pool body) :
    ∀ i ∈ body.instructions, i.Computes := by
  intro i hi
  rcases h.source with rfl | ⟨temps, values, b, -, hdecoded⟩
  · cases hi
  · obtain ⟨r, s, -, hemits⟩ := hdecoded.emitted h.sound hi
    exact hemits.computes

/-! ## Programs -/

/-- A program is laid out in parts that declare what it lists, and a body that computes. Register
arrays are counted in 32 bits, so that their number depends on the number of records. -/
theorem parse_layout {kind : SourceKind} {name : String} {bytes : List UInt8} {program : Program}
    (h : (parse kind name bytes).program = .ok program)
    (hcount : ∀ bitcode, kind.bitcode? bytes = some bitcode → bitcode.CountsRecords) :
    ∃ l : Layout, l.Describes program ∧ l.temps.length = program.indexableTempCount.toNat ∧
      ∀ i ∈ l.body, i.Computes := by
  obtain ⟨bitcode, scope, pool, body, hbitcode, hassembled⟩ := parse_assembled h
  obtain ⟨l, hdescribes, hbody, htemps, -⟩ := hassembled.layout
  have hsmall : bitcode.root.records.length < UInt32.size :=
    hcount bitcode hbitcode _ bitcode.root.self_mem_all
  refine ⟨l, hdescribes, hdescribes.length_temps (Nat.lt_of_le_of_lt htemps hsmall), ?_⟩
  rw [hbody]
  exact hassembled.computes

/-- A pixel shader that copies its input to its output. It has a register array with initial data
and a constant buffer. -/
def copyShader : List UInt8 :=
  [0x60, 0x00, 0x00, 0x00, 0x5a, 0x00, 0x00, 0x00, 0x44, 0x58, 0x49, 0x4c, 0x00, 0x01, 0x00, 0x00,
   0x10, 0x00, 0x00, 0x00, 0x50, 0x01, 0x00, 0x00, 0x42, 0x43, 0xc0, 0xde, 0x21, 0x0c, 0x00, 0x00,
   0x51, 0x00, 0x00, 0x00, 0x89, 0x20, 0x00, 0x00, 0x0d, 0x00, 0x00, 0x00, 0x13, 0x04, 0xcc, 0x08,
   0xc0, 0x1c, 0x01, 0x18, 0xcc, 0x11, 0x20, 0x33, 0x00, 0xb3, 0x08, 0x42, 0x30, 0x88, 0x40, 0x00,
   0x53, 0x09, 0x00, 0x30, 0x88, 0x60, 0x00, 0x53, 0x1d, 0xc0, 0x10, 0x04, 0x81, 0x10, 0x0c, 0x22,
   0x20, 0xc0, 0x54, 0x07, 0x00, 0x04, 0x41, 0x20, 0x0c, 0x83, 0x08, 0x0a, 0x00, 0x00, 0x00, 0x00,
   0x0b, 0x82, 0x60, 0x87, 0x41, 0x0c, 0x05, 0x00, 0x00, 0x43, 0x10, 0x03, 0x00, 0x00, 0x00, 0x00,
   0x80, 0x21, 0x08, 0x02, 0x04, 0x00, 0x00, 0x00, 0xc0, 0x10, 0x44, 0x01, 0x02, 0x00, 0x00, 0x00,
   0x20, 0x0b, 0x04, 0x00, 0x09, 0x00, 0x00, 0x00, 0x13, 0x04, 0xc4, 0x58, 0xc2, 0x40, 0x4c, 0x10,
   0x04, 0x43, 0x04, 0xc0, 0x10, 0x81, 0x30, 0x44, 0x20, 0x0d, 0x11, 0x20, 0x43, 0x04, 0xca, 0x10,
   0x01, 0x18, 0x4c, 0x10, 0x08, 0x43, 0x04, 0x00, 0x00, 0x00, 0x00, 0x00, 0x79, 0x20, 0x00, 0x00,
   0x1d, 0x00, 0x00, 0x00, 0x23, 0x08, 0x41, 0x31, 0x82, 0x10, 0x18, 0x23, 0x08, 0xc1, 0x31, 0x82,
   0x10, 0x28, 0x13, 0x04, 0xa1, 0x30, 0xc3, 0x12, 0x14, 0x43, 0x00, 0x04, 0x82, 0x10, 0x04, 0xc0,
   0x0c, 0x81, 0x31, 0x83, 0x70, 0x1c, 0x33, 0x08, 0x81, 0x30, 0xc3, 0x11, 0x00, 0x40, 0x20, 0x08,
   0xc4, 0x0c, 0x81, 0x32, 0x03, 0x01, 0x00, 0x0b, 0x30, 0x04, 0x43, 0x0e, 0xf8, 0xe0, 0x06, 0xf2,
   0x50, 0x0e, 0xf3, 0xf0, 0x0e, 0xf5, 0x20, 0x0f, 0xe3, 0x50, 0x0e, 0xf3, 0x30, 0x4a, 0xb0, 0x8c,
   0x20, 0x1c, 0xc1, 0x04, 0x81, 0x39, 0xcc, 0x50, 0x34, 0x0e, 0x02, 0x24, 0x43, 0x38, 0xe4, 0x80,
   0x0f, 0x6e, 0x50, 0x0e, 0xee, 0x40, 0x0f, 0xf2, 0x90, 0x0f, 0xb0, 0xf0, 0x0e, 0xe9, 0xe0, 0x0e,
   0xf4, 0x30, 0x0f, 0xa3, 0x04, 0x0e, 0x00, 0x00, 0x61, 0x20, 0x00, 0x00, 0x06, 0x00, 0x00, 0x00,
   0x13, 0x04, 0xc1, 0x88, 0x01, 0x02, 0x00, 0x0a, 0x71, 0x1c, 0xc1, 0x31, 0x62, 0x80, 0x00, 0x80,
   0x42, 0x20, 0x88, 0x10, 0x8c, 0x02, 0x00, 0x00, 0x71, 0x20, 0x00, 0x00, 0x05, 0x00, 0x00, 0x00,
   0x13, 0x08, 0x00, 0x3d, 0x4c, 0x20, 0x04, 0xe6, 0x30, 0x81, 0x20, 0xa4, 0xc3, 0x04, 0xc2, 0xf0,
   0x0e, 0x00, 0x00, 0x00, 0x00, 0x00, 0x00, 0x00]

/-- Each part of the shader has one instruction, but for the body, which loads and stores. -/
theorem parse_layout_copy :
    ∃ program, (parse .program "copy" copyShader).program = .ok program ∧
      program.instructions.map Instruction.opcode =
        [.dclIndexableTemp, .dclGlobalFlags, .dclConstantBuffer, .dclOutput, .dclInputPs, .mov,
          .mov, .ret] ∧
      (∀ bitcode, SourceKind.program.bitcode? copyShader = some bitcode →
        bitcode.CountsRecords) ∧
      ∃ l : Layout, l.Describes program ∧ l.temps.length = program.indexableTempCount.toNat ∧
        ∀ i ∈ l.body, i.Computes := by
  have hcount : ∀ bitcode, SourceKind.program.bitcode? copyShader = some bitcode →
      bitcode.CountsRecords := SourceKind.countsRecords_of_all (by decide +kernel)
  obtain ⟨program, hprogram, hopcodes⟩ := exists_of_toOption_any
    (x := (parse .program "copy" copyShader).program)
    (f := fun program => program.instructions.map Instruction.opcode =
      [.dclIndexableTemp, .dclGlobalFlags, .dclConstantBuffer, .dclOutput, .dclInputPs, .mov,
        .mov, .ret]) (by decide +kernel)
  exact ⟨program, hprogram, of_decide_eq_true hopcodes, hcount, parse_layout hprogram hcount⟩

end Dxil
