import Dxil.Parse
import Dxil.Proofs.Container
import Dxil.Proofs.Function.Body
import Dxil.Proofs.Module.MetadataRecords
import Dxil.Proofs.Module.Signatures
import Dxil.Proofs.Module.TypeRecords

/-!
# Dxil.Proofs.Parse

What holds of every parse, whatever the bytes.

* `Program.Assembled` : what a program is put together from.
* `Ensures.programOfBytes` : decoding makes no access that leads nowhere, and gives up only after
  an error.
* `parse_fails_iff_error_reported` : failure is never silent and never spurious.
* `parse_accesses_in_range` : every access of a parse is to something that exists.
* `parse_singleAssignment` : the program of a parse keeps to the single-assignment discipline.
-/

namespace Dxil

/-! ## Passes -/

namespace Ensures

variable {E : GivesUp}

theorem symbolTableAdd (t : SymbolTable) (r : Record) :
    Ensures .anyhow (t.add r) fun _ => True := by
  unfold SymbolTable.add
  split
  · refine (requireOperands r 1).bind fun _ h => (operand (by omega)).bind fun _ _ => ?_
    split
    · exact .pure trivial
    · exact .abandon fun _ => trivial
  · exact .pure trivial

theorem symbolTableDecode (root : Block) :
    Ensures .anyhow (SymbolTable.decode root) fun _ => True := by
  unfold SymbolTable.decode
  split
  · exact .abandon fun _ => trivial
  · exact (setLine _).bind fun _ _ => foldRecords (fun _ _ _ => True)
      (fun _ r _ t _ => symbolTableAdd t r) trivial

theorem valueBudget (root : Block) :
    Ensures .loudly (Dxil.valueBudget root) fun budget =>
      ValueBudget.ofModule? root = some budget := by
  unfold Dxil.valueBudget
  split
  · exact .pure ‹_›
  · intro p hp
    exact ⟨.add hp _, Bool.or_true _⟩

theorem checkLengths (bitcode : Bitcode) : Ensures E (Dxil.checkLengths bitcode) fun _ => True :=
  (reportIf _ _).bind fun _ _ => .reportIf _ _

end Ensures

namespace Program

structure Opened.Sound (o : Opened) : Prop where
  types : Yields (TypeTable.decode o.bitcode.root) o.types
  closed : o.types.Closed
  symbols : ∃ symbols, Yields (SymbolTable.decode o.bitcode.root) symbols ∧
    Yields (Globals.decode o.types symbols o.bitcode.root) o.globals
  budget : ValueBudget.ofModule? o.bitcode.root = some o.budget
  pool : o.globals.pool.Sound o.types o.globals.temps.length o.globals.pool.arrays.size
  count : o.globals.temps.length ≤ o.bitcode.root.records.length
  temps : ∀ (k : Nat) (i : Instruction), o.globals.temps[k]? = some i →
    i.DeclaresTemp o.globals.pool.arrays.size (UInt32.ofNat k)
  tables : Yields (MetadataTable.decodeAll o.types o.globals.pool.values o.bitcode.root) o.tables
  tablesClosed : ∀ t ∈ o.tables, t.Closed o.types o.globals.pool.values

/-- The passes before the function bodies can give this scope and these constants. -/
structure Prepares (version : ShaderVersion) (bitcode : Bitcode) (scope : FunctionScope)
    (pool : ConstantPool) : Prop where
  types : Yields (TypeTable.decode bitcode.root) scope.types
  globals : ∃ symbols globals, Yields (SymbolTable.decode bitcode.root) symbols ∧
    Yields (Globals.decode scope.types symbols bitcode.root) globals ∧ pool = globals.pool
  interface : ∃ tables entryPoint,
    Yields (MetadataTable.decodeAll scope.types pool.values bitcode.root) tables ∧
    Yields (EntryPoint.decode scope.types pool.values tables version.shaderType) entryPoint ∧
    Yields (Descriptor.decodeAll scope.types pool.values tables) scope.descriptors ∧
    scope.inputs = entryPoint.inputs ∧ scope.outputs = entryPoint.outputs
  inputParams : scope.inputParams = scope.inputs.params .input
  outputParams : scope.outputParams = scope.outputs.params version.shaderType.outputRegister
  bound : ∃ budget, ValueBudget.ofModule? bitcode.root = some budget ∧
    scope.bound = budget.functions.headD 0

structure Prepared.Sound (version : ShaderVersion) (bitcode : Bitcode) (q : Prepared) :
    Prop where
  prepared : Prepares version bitcode q.scope q.globals.pool
  scope : q.scope.Sound
  pool : q.globals.pool.Sound q.scope.types q.globals.temps.length q.globals.pool.arrays.size
  count : q.globals.temps.length ≤ bitcode.root.records.length
  temps : ∀ (k : Nat) (i : Instruction), q.globals.temps[k]? = some i →
    i.DeclaresTemp q.globals.pool.arrays.size (UInt32.ofNat k)
  ranges : ∀ d ∈ q.scope.descriptors, d.range.first ≤ d.range.last
  inputs : q.entryPoint.inputs = q.scope.inputs
  outputs : q.entryPoint.outputs = q.scope.outputs

/-- What a program is put together from: declarations, the body of a function block of the module
if there is one, and a return. -/
structure Assembled (version : ShaderVersion) (bitcode : Bitcode) (scope : FunctionScope)
    (pool : ConstantPool) (body : FunctionBody) (program : Program) : Prop where
  prepared : Prepares version bitcode scope pool
  sound : scope.Sound
  layout : ∃ l : Layout, l.Describes program ∧ l.body = body.instructions ∧
    l.temps.length ≤ bitcode.root.records.length ∧
    (∃ location, l.buffers = scope.descriptors.map (Descriptor.declare location)) ∧
    (body = {} ∨ ∃ values b, Functions.MeetsBody scope 0 { pool } bitcode.root values b ∧
      Functions.DecodedFrom scope l.temps.length values b body)
  descriptors : program.descriptors = scope.descriptors
  inputs : program.inputs = scope.inputs
  outputs : program.outputs = scope.outputs
  ssaCount : program.ssaCount = body.ssaCount
  version : program.version = version

section

variable {version : ShaderVersion} {bitcode : Bitcode} {scope : FunctionScope}
  {pool : ConstantPool} {body : FunctionBody} {program : Program}
  (h : program.Assembled version bitcode scope pool body)
include h

theorem Assembled.source : body = {} ∨ ∃ temps values b,
    Functions.MeetsBody scope 0 { pool } bitcode.root values b ∧
      Functions.DecodedFrom scope temps values b body := by
  obtain ⟨l, -, -, -, -, hsource⟩ := h.layout
  exact hsource.imp_right fun hbody => ⟨_, hbody⟩

theorem Assembled.instructions : ∃ declarations location, (∀ i ∈ declarations, i.IsDeclaration) ∧
    program.instructions = declarations ++ body.instructions ++ [{ opcode := .ret, location }] := by
  obtain ⟨l, hdescribes, hbody, -, -⟩ := h.layout
  obtain ⟨location, hinstructions⟩ := hdescribes.instructions
  exact ⟨_, location, hdescribes.isDeclaration, hbody ▸ hinstructions⟩

theorem Assembled.mem_body_or_ret {i : Instruction} (hi : i ∈ program.instructions)
    (hplain : i.declaration = none) :
    i ∈ body.instructions ∨ ∃ location, i = { opcode := .ret, location } := by
  obtain ⟨declarations, location, hdeclarations, hinstructions⟩ := h.instructions
  rw [hinstructions, List.mem_append, List.mem_append, List.mem_singleton] at hi
  rcases hi with (hi | hi) | rfl
  · obtain ⟨d, hd, -⟩ := (hdeclarations i hi).declares
    rw [hplain] at hd
    cases hd
  · exact .inl hi
  · exact .inr ⟨location, rfl⟩

theorem Assembled.singleAssignment
    (hsmall : ∀ b ∈ bitcode.root.all, b.records.length < UInt32.size) :
    SingleAssignment program.instructions program.ssaCount.toNat := by
  have hbody : SingleAssignment body.instructions body.ssaCount.toNat := by
    rcases h.source with hnone | ⟨temps, values, b, hmeets, ⟨arrays, hstatic⟩, hyields⟩
    · rw [hnone]
      exact .nil
    · obtain ⟨s, hreaches, rfl⟩ :=
        (Ensures.bodyDecode h.sound hstatic b).of_yields (E := .anyhow) hyields
      refine ((hreaches.sound h.sound hstatic).scheduled ?_).instructions
      rw [List.length_tail]
      exact Nat.lt_of_le_of_lt (Nat.sub_le _ 1) (hsmall b hmeets.mem_all)
  obtain ⟨declarations, location, hdeclarations, hinstructions⟩ := h.instructions
  rw [hinstructions, h.ssaCount]
  exact SingleAssignment.concat (k := 0) (.prepend hdeclarations hbody)
    (by simp [Instruction.ssaReads]) (by simp [Instruction.ssaWrites])

end

end Program

namespace Ensures

variable {E : GivesUp}

theorem openBitcode (version : ShaderVersion) (bitcode : Bitcode) :
    Ensures .loudly (Program.openBitcode version bitcode) fun o =>
      o.Sound ∧ o.version = version ∧ o.bitcode = bitcode := by
  refine (checkLengths bitcode).bind fun _ _ =>
    (orReport (typeTableDecode bitcode.root).yields fun p => ⟨_, rfl, rfl⟩).bind
      fun types ⟨hc, htypes⟩ =>
    (orReport (symbolTableDecode bitcode.root).yields fun p => ⟨_, rfl, rfl⟩).bind
      fun symbols ⟨_, hsymbols⟩ =>
    (valueBudget bitcode.root).bind fun budget hbudget =>
    (globalsDecode hc symbols bitcode.root).yields.bind
      fun globals ⟨⟨hpool, htempCount, htemps⟩, hglobals⟩ =>
    (metadataDecodeAll hc globals.pool.values bitcode.root).yields.bind
      fun tables ⟨hclosed, htables⟩ => .pure ⟨?_, rfl, rfl⟩
  exact ⟨htypes, hc, ⟨symbols, hsymbols, hglobals⟩, hbudget,
    ⟨hpool.values, hpool.complete, Nat.le_refl _⟩, htempCount, htemps, htables, hclosed⟩

theorem openedPrepare {o : Program.Opened} (h : o.Sound) :
    Ensures .loudly o.prepare (Program.Prepared.Sound o.version o.bitcode) := by
  refine (Certifies.entryPoint h.tablesClosed o.version.shaderType).ensures.yields.bind
      fun entryPoint ⟨_, hentry⟩ =>
    (descriptorDecodeAll h.tablesClosed).yields.bind fun descriptors ⟨hranges, hdescriptors⟩ =>
    here.bind fun declared _ => .pure ?_
  have hinput : RegisterType.input.isSignature = true := rfl
  have houtput := o.version.shaderType.isSignature_outputRegister
  obtain ⟨symbols, hsymbols, hglobals⟩ := h.symbols
  refine ⟨?_, ⟨h.closed, ⟨_, hinput, rfl⟩, ⟨_, houtput, rfl⟩⟩, h.pool, h.count, h.temps, hranges,
    rfl, rfl⟩
  exact ⟨h.types, ⟨symbols, o.globals, hsymbols, hglobals, rfl⟩,
    ⟨o.tables, entryPoint, h.tables, hentry, hdescriptors, rfl, rfl⟩, rfl, rfl, o.budget,
    h.budget, rfl⟩

theorem prepare (version : ShaderVersion) (bitcode : Bitcode) :
    Ensures .loudly (Program.prepare version bitcode) (Program.Prepared.Sound version bitcode) := by
  refine (openBitcode version bitcode).bind fun o ⟨hsound, hversion, hbitcode⟩ => ?_
  subst hversion hbitcode
  exact openedPrepare hsound

/-- What follows the function bodies. They add constant arrays, so that initial data stays below
their number. -/
theorem assemble {version : ShaderVersion} {bitcode : Bitcode} {q : Program.Prepared}
    (h : q.Sound version bitcode) {functions : Functions.State}
    (hf : Functions.State.Follows q.scope q.globals.temps.length q.globals.pool.arrays.size
      (Functions.MeetsBody q.scope 0 { pool := q.globals.pool } bitcode.root)
      { pool := q.globals.pool } functions) :
    Ensures .loudly (Program.assemble version q functions) fun program =>
      program.Assembled version bitcode q.scope q.globals.pool (functions.body.getD {}) := by
  unfold Program.assemble
  rw [h.prepared.outputParams, ← h.outputs, h.prepared.inputParams, ← h.inputs]
  refine here.bind fun location _ => (declareOutputs location q.entryPoint.outputs _).bind
    fun outputs houtputs => (declareInputs version.shaderType location q.entryPoint.inputs _).bind
      fun inputs hinputs => .pure ⟨h.prepared, h.scope, ?_, rfl, h.inputs, h.outputs, rfl, rfl⟩
  refine ⟨⟨q.globals.temps, q.entryPoint.properties.map (Property.declare q.declared),
    q.scope.descriptors.map (Descriptor.declare q.declared), outputs, inputs, _⟩, ?_, rfl,
    h.count, ⟨_, rfl⟩, ?_⟩
  · refine ⟨⟨location, by simp [Layout.declarations]⟩, rfl, fun k i hi => ?_, fun i hi => ?_,
      Descriptor.declareEach q.declared h.ranges, houtputs, hinputs⟩
    · exact (h.temps k i hi).mono hf.pool.arrays
    · obtain ⟨property, -, rfl⟩ := List.mem_map.mp hi
      exact property.declaresProperty q.declared
  · cases hbody : functions.body with
    | none => exact .inl rfl
    | some body =>
      rcases hf.body body hbody with hbefore | ⟨values, b, hmeets, hdecoded⟩
      · cases hbefore
      · exact .inr ⟨values, b, hmeets, hdecoded⟩

theorem programOfBitcode (version : ShaderVersion) (bitcode : Bitcode) :
    Ensures .loudly (Program.ofBitcode version bitcode) fun program =>
      ∃ scope pool body, program.Assembled version bitcode scope pool body :=
  (prepare version bitcode).bind fun q hq =>
    (orReport (functionsDecode hq.scope 0 _ { pool := q.globals.pool } hq.pool bitcode.root)
      fun _ => ⟨_, rfl, rfl⟩).bind fun _ hf =>
    (assemble hq hf).mono fun _ h => ⟨_, _, _, h⟩

theorem checkShaderType (type : ShaderType) :
    Ensures E (Dxil.checkShaderType type) fun _ => True := by
  unfold Dxil.checkShaderType
  split
  · exact .report _
  · exact .pure trivial

theorem readBitcode (bytes : List UInt8) :
    Ensures E (Dxil.readBitcode bytes) fun bitcode => Bitcode.ofBytes bytes = .ok bitcode := by
  unfold Dxil.readBitcode
  split
  · exact .pure ‹_›
  · exact .reject rfl
  · exact .reject rfl

end Ensures

/-! ## Sources -/

def SourceKind.program? : SourceKind → List UInt8 → Option (List UInt8)
  | program, bytes => some bytes
  | container, bytes => (extractProgram bytes).toOption

/-- The bitcode of a program; `none` if there is none that can be read. -/
def programBitcode? (bytes : List UInt8) : Option Bitcode :=
  match ProgramHeader.locate bytes with
  | .ok (_, stream) => (Bitcode.ofBytes stream).toOption
  | .error _ => none

def SourceKind.bitcode? (kind : SourceKind) (bytes : List UInt8) : Option Bitcode :=
  (kind.program? bytes).bind programBitcode?

/-- Every block can count its records in 32 bits. -/
def Bitcode.CountsRecords (bitcode : Bitcode) : Prop :=
  ∀ b ∈ bitcode.root.all, b.records.length < UInt32.size

/-- A fact about what there is can be evaluated. -/
theorem exists_of_toOption_any {ε α : Type} {x : Except ε α} {f : α → Bool}
    (h : x.toOption.any f = true) : ∃ a, x = .ok a ∧ f a = true := by
  cases x with
  | ok a => exact ⟨a, rfl, h⟩
  | error e => cases h

instance (bitcode : Bitcode) : Decidable bitcode.CountsRecords :=
  inferInstanceAs (Decidable (∀ b ∈ bitcode.root.all, b.records.length < UInt32.size))

theorem SourceKind.countsRecords_of_all {kind : SourceKind} {bytes : List UInt8}
    (h : (kind.bitcode? bytes).all (fun bitcode => decide bitcode.CountsRecords) = true) :
    ∀ bitcode, kind.bitcode? bytes = some bitcode → bitcode.CountsRecords := by
  intro bitcode hbitcode
  rw [hbitcode] at h
  exact of_decide_eq_true h

theorem Ensures.readModule {E : GivesUp} (bytes : List UInt8) :
    Ensures E (Dxil.readModule bytes) fun m => programBitcode? bytes = some m.2 := by
  unfold Dxil.readModule programBitcode?
  cases hlocate : ProgramHeader.locate bytes with
  | error e => exact .reject (by cases e <;> rfl)
  | ok found =>
    have hlen : 0 + 4 ≤ found.2.length :=
      Nat.le_trans (by decide) (ProgramHeader.infix_of_locate hlocate).2
    refine (present (wordAt?_of_le hlen)).bind fun magic _ => (reportIf _ _).bind fun _ _ =>
      (checkShaderType _).bind fun _ _ => (readBitcode found.2).bind fun bitcode hbitcode =>
      .pure ?_
    simp [hbitcode, Except.toOption]

theorem Ensures.programOfBytes_assembled (bytes : List UInt8) :
    Ensures .loudly (Program.ofBytes bytes) fun program =>
      ∃ bitcode scope pool body, programBitcode? bytes = some bitcode ∧
        program.Assembled program.version bitcode scope pool body :=
  (readModule bytes).bind fun ⟨version, bitcode⟩ hbitcode =>
    (programOfBitcode version bitcode).mono fun _ ⟨scope, pool, body, h⟩ =>
      ⟨bitcode, scope, pool, body, hbitcode, h.version ▸ h⟩

theorem Ensures.programOfBytes (bytes : List UInt8) :
    Ensures .loudly (Program.ofBytes bytes) fun program =>
      ∃ bitcode, programBitcode? bytes = some bitcode ∧
        (bitcode.CountsRecords →
          SingleAssignment program.instructions program.ssaCount.toNat) :=
  (programOfBytes_assembled bytes).mono fun _ ⟨bitcode, _, _, _, hbitcode, h⟩ =>
    ⟨bitcode, hbitcode, h.singleAssignment⟩

def Parsed.ReportsError (r : Parsed) : Prop := ∃ d ∈ r.diagnostics, d.severity = .error

theorem Progress.exists_error_iff {p : Progress} (h : p.Consistent) :
    (∃ d ∈ p.log, d.severity = .error) ↔ p.failed = true := by
  rw [h, Array.any_eq_true']
  constructor
  · rintro ⟨d, hd, herror⟩
    obtain ⟨r, hr, rfl⟩ := Array.mem_map.mp hd
    exact ⟨r, hr, decide_eq_true herror⟩
  · rintro ⟨r, hr, herror⟩
    exact ⟨r.toDiagnostic, Array.mem_map.mpr ⟨r, hr, rfl⟩, of_decide_eq_true herror⟩

/-- A decoder that gives up only after errors gives a program without errors, or errors without a
program. -/
theorem Parsed.ofDecoder_cases {x : Decoder Program} {Q : Program → Prop}
    (h : Ensures .loudly x Q) (source : String) :
    (∃ program, (Parsed.ofDecoder x source).program = .ok program ∧ Q program ∧
      ¬ (Parsed.ofDecoder x source).ReportsError) ∨
    ((Parsed.ofDecoder x source).program = .error .invalidShader ∧
      (Parsed.ofDecoder x source).ReportsError) := by
  have hrun := h { location := { source } } (by simp [Progress.Consistent])
  unfold Parsed.ofDecoder
  generalize x { location := { source } } = r at hrun
  match r, hrun with
  | .ok program p, ⟨hp, hq⟩ =>
    cases hfailed : p.failed with
    | true => exact .inr ⟨by simp [hfailed], (Progress.exists_error_iff hp.consistent).mpr hfailed⟩
    | false =>
      refine .inl ⟨program, by simp [hfailed], hq, fun hreports => ?_⟩
      simp [(Progress.exists_error_iff hp.consistent).mp hreports] at hfailed
  | .error (.invalid _) p, ⟨hp, hfailed⟩ =>
    exact .inr ⟨rfl, (Progress.exists_error_iff hp.consistent).mpr hfailed⟩

theorem Parsed.exists_of_ofDecoder_ok {x : Decoder Program} {source : String} {program : Program}
    (h : (Parsed.ofDecoder x source).program = .ok program) :
    ∃ p, x { location := { source } } = .ok program p ∧ p.failed = false := by
  unfold Parsed.ofDecoder at h
  cases hrun : x { location := { source } } with
  | error e p =>
    rw [hrun] at h
    cases e <;> cases h
  | ok found p =>
    simp only [hrun] at h
    cases hfailed : p.failed with
    | true => simp [hfailed] at h
    | false =>
      obtain rfl : found = program := by simpa [hfailed] using h
      exact ⟨p, rfl, hfailed⟩

theorem parse_cases (kind : SourceKind) (name : String) (bytes : List UInt8) :
    (kind = .container ∧ (∃ e, extractProgram bytes = .error e) ∧
      (parse kind name bytes).program = .error .invalidArgument ∧
      (parse kind name bytes).ReportsError) ∨
    ∃ source, kind.program? bytes = some source ∧
      parse kind name bytes = .ofDecoder (Program.ofBytes source) name := by
  cases kind with
  | program => exact .inr ⟨bytes, rfl, rfl⟩
  | container =>
    cases h : extractProgram bytes with
    | ok chunk =>
      exact .inr ⟨chunk, by simp [SourceKind.program?, h, Except.toOption], by simp [parse, h]⟩
    | error e =>
      refine .inl ⟨rfl, ⟨e, rfl⟩, by simp [parse, h], ?_⟩
      refine ⟨(Finding.container e).toDiagnostic { source := name }, by simp [parse, h], ?_⟩
      cases e <;> rfl

theorem SourceKind.extractProgram_of_program? {bytes source : List UInt8}
    (h : SourceKind.container.program? bytes = some source) :
    extractProgram bytes = .ok source := by
  unfold SourceKind.program? at h
  cases hextract : extractProgram bytes with
  | ok chunk => simpa [hextract, Except.toOption] using h
  | error e => simp [hextract, Except.toOption] at h

/-- The program of a parse is put together from the module of its source. -/
theorem parse_assembled {kind : SourceKind} {name : String} {bytes : List UInt8}
    {program : Program} (h : (parse kind name bytes).program = .ok program) :
    ∃ bitcode scope pool body, kind.bitcode? bytes = some bitcode ∧
      program.Assembled program.version bitcode scope pool body := by
  rcases parse_cases kind name bytes with ⟨-, -, hprogram, -⟩ | ⟨source, hs, hparse⟩
  · rw [hprogram] at h
    cases h
  · rw [hparse] at h
    rcases Parsed.ofDecoder_cases (Ensures.programOfBytes_assembled source) name with
      ⟨program', hprogram, hq, -⟩ | ⟨hprogram, -⟩
    · rw [hprogram] at h
      cases h
      obtain ⟨bitcode, scope, pool, body, hbitcode, hassembled⟩ := hq
      exact ⟨bitcode, scope, pool, body, by simp [SourceKind.bitcode?, hs, hbitcode], hassembled⟩
    · rw [hprogram] at h
      cases h

/-- There is no program exactly if an error was reported. The argument is to blame exactly if it is
a container without a program, and the shader otherwise. -/
theorem parse_fails_iff_error_reported (kind : SourceKind) (name : String) (bytes : List UInt8) :
    ((∃ e, (parse kind name bytes).program = .error e) ↔
      ∃ d ∈ (parse kind name bytes).diagnostics, d.severity = .error) ∧
    ((parse kind name bytes).program = .error .invalidArgument ↔
      kind = .container ∧ ∃ e, extractProgram bytes = .error e) ∧
    ∀ e, (parse kind name bytes).program = .error e → e ≠ .invalidArgument →
      e = .invalidShader := by
  rcases parse_cases kind name bytes with
    ⟨hkind, hextract, hprogram, hreports⟩ | ⟨source, hs, hparse⟩
  · refine ⟨⟨fun _ => hreports, fun _ => ⟨_, hprogram⟩⟩,
      ⟨fun _ => ⟨hkind, hextract⟩, fun _ => hprogram⟩, fun e he hne => ?_⟩
    rw [hprogram] at he
    cases he
    exact absurd rfl hne
  · have hextract : ¬ (kind = .container ∧ ∃ e, extractProgram bytes = .error e) := by
      rintro ⟨rfl, e, he⟩
      rw [SourceKind.extractProgram_of_program? hs] at he
      cases he
    rw [hparse]
    rcases Parsed.ofDecoder_cases (Ensures.programOfBytes source) name with
      ⟨program, hprogram, -, hreports⟩ | ⟨hprogram, hreports⟩
    · simp only [hprogram]
      exact ⟨⟨by rintro ⟨e, ⟨⟩⟩, fun h => absurd h hreports⟩,
        ⟨nofun, fun h => absurd h hextract⟩, nofun⟩
    · simp only [hprogram]
      refine ⟨⟨fun _ => hreports, fun _ => ⟨_, rfl⟩⟩, ⟨nofun, fun h => absurd h hextract⟩, ?_⟩
      rintro e ⟨⟩ _
      rfl

/-- No parse makes an access that leads nowhere: not in the tables of a module, nor in the bytes and
words of a source. -/
theorem parse_accesses_in_range (kind : SourceKind) (name : String) (bytes : List UInt8) :
    (parse kind name bytes).program ≠ .error .danglingReference ∧
    (∀ n, Container.ofBytes bytes = .error (.tooSmall n) →
      bytes.length < Container.headerSize) ∧
    (∀ c, Container.ofBytes bytes = .ok c →
      c.checksum <:+: bytes ∧ ∀ chunk ∈ c.chunks, chunk.data <:+: bytes) ∧
    (∀ source n, ProgramHeader.locate source = .error (.tooSmall n) →
      source.length / 4 < ProgramHeader.wordCount) ∧
    (∀ source header stream, ProgramHeader.locate source = .ok (header, stream) →
      stream <:+: source) ∧
    (∀ width c v c', Cursor.read width c = .ok v c' →
      ∀ i < width, (c.pos + i) / 32 < c.words.size) := by
  refine ⟨fun hdangling => ?_, fun _ h => Container.lt_of_ofBytes_tooSmall h,
    fun _ h => Container.infix_of_ofBytes h, fun _ _ h => ProgramHeader.lt_of_locate_tooSmall h,
    fun _ _ _ h => (ProgramHeader.infix_of_locate h).1,
    fun _ _ _ _ h _ hi => Cursor.word_lt_of_read h hi⟩
  rcases parse_cases kind name bytes with ⟨-, -, hprogram, -⟩ | ⟨source, -, hparse⟩
  · rw [hprogram] at hdangling
    cases hdangling
  · rw [hparse] at hdangling
    rcases Parsed.ofDecoder_cases (Ensures.programOfBytes source) name with
      ⟨_, hprogram, -⟩ | ⟨hprogram, -⟩ <;> (rw [hprogram] at hdangling; cases hdangling)

/-- The program of a parse keeps to the single-assignment discipline, if its blocks can count their
records in 32 bits. -/
theorem parse_singleAssignment {kind : SourceKind} {name : String} {bytes : List UInt8}
    {program : Program} (h : (parse kind name bytes).program = .ok program)
    (hcount : ∀ bitcode, kind.bitcode? bytes = some bitcode → bitcode.CountsRecords) :
    SingleAssignment program.instructions program.ssaCount.toNat := by
  rcases parse_cases kind name bytes with ⟨-, -, hprogram, -⟩ | ⟨source, hs, hparse⟩
  · rw [hprogram] at h
    cases h
  · rw [hparse] at h
    rcases Parsed.ofDecoder_cases (Ensures.programOfBytes source) name with
      ⟨program', hprogram, hq, -⟩ | ⟨hprogram, -⟩
    · rw [hprogram] at h
      cases h
      obtain ⟨bitcode, hbitcode, hsingle⟩ := hq
      exact hsingle (hcount bitcode (by simp [SourceKind.bitcode?, hs, hbitcode]))
    · rw [hprogram] at h
      cases h

/-- A pixel shader that compares two constants and converts the result to a number. -/
def comparisonShader : List UInt8 :=
  [0x60, 0x00, 0x00, 0x00, 0x30, 0x00, 0x00, 0x00, 0x44, 0x58, 0x49, 0x4c, 0x00, 0x01, 0x00, 0x00,
   0x10, 0x00, 0x00, 0x00, 0xa8, 0x00, 0x00, 0x00, 0x42, 0x43, 0xc0, 0xde, 0x21, 0x0c, 0x00, 0x00,
   0x27, 0x00, 0x00, 0x00, 0x89, 0x20, 0x00, 0x00, 0x05, 0x00, 0x00, 0x00, 0x13, 0x04, 0xc5, 0x08,
   0xc0, 0x1c, 0x01, 0x18, 0x4c, 0x25, 0x00, 0xc0, 0x20, 0x81, 0x30, 0x47, 0x10, 0x00, 0x00, 0x00,
   0x0b, 0x82, 0x60, 0x08, 0x22, 0x00, 0x00, 0x00, 0x00, 0x00, 0x90, 0x05, 0x02, 0x00, 0x00, 0x00,
   0x02, 0x00, 0x00, 0x00, 0x13, 0x04, 0xc1, 0x10, 0x81, 0x01, 0x00, 0x00, 0x79, 0x20, 0x00, 0x00,
   0x0b, 0x00, 0x00, 0x00, 0x23, 0x08, 0x03, 0x30, 0x01, 0xd1, 0x0e, 0xe1, 0x90, 0x0e, 0xee, 0x30,
   0x43, 0x11, 0x08, 0x00, 0x00, 0x0c, 0xe1, 0x90, 0x03, 0x3e, 0xb8, 0x41, 0x39, 0xb8, 0x03, 0x3d,
   0xc8, 0x43, 0x3e, 0xc0, 0xc2, 0x3b, 0xa4, 0x83, 0x3b, 0xd0, 0xc3, 0x3c, 0x8c, 0x12, 0x08, 0x00,
   0x61, 0x20, 0x00, 0x00, 0x04, 0x00, 0x00, 0x00, 0x13, 0x04, 0xc1, 0x70, 0x43, 0x10, 0x80, 0xc1,
   0x0c, 0x43, 0x10, 0x04, 0xa3, 0x00, 0x00, 0x00, 0x71, 0x20, 0x00, 0x00, 0x03, 0x00, 0x00, 0x00,
   0x13, 0x14, 0x40, 0x3b, 0x84, 0x43, 0x3a, 0xb8, 0x03, 0x00, 0x00, 0x00, 0x00, 0x00, 0x00, 0x00]

/-- The comparison writes register 0 and the conversion, which reads it, register 1. -/
theorem parse_singleAssignment_comparisonShader :
    ∃ program, (parse .program "comparison" comparisonShader).program = .ok program ∧
      program.ssaCount = 2 ∧ program.instructions.map Instruction.ssaReads = [[], [0], []] ∧
      (∀ bitcode, SourceKind.program.bitcode? comparisonShader = some bitcode →
        bitcode.CountsRecords) ∧
      SingleAssignment program.instructions program.ssaCount.toNat := by
  have hcount : ∀ bitcode, SourceKind.program.bitcode? comparisonShader = some bitcode →
      bitcode.CountsRecords := by
    have hall : (SourceKind.program.bitcode? comparisonShader).all
        (fun bitcode => bitcode.root.all.all fun b => b.records.length < UInt32.size) = true := by
      decide +kernel
    intro bitcode hbitcode b hb
    rw [hbitcode] at hall
    exact of_decide_eq_true (List.all_eq_true.mp hall b hb)
  have hfacts : ((parse .program "comparison" comparisonShader).program.toOption.map fun program =>
      (program.ssaCount, program.instructions.map Instruction.ssaReads)) =
        some (2, [[], [0], []]) := by
    decide +kernel
  cases h : (parse .program "comparison" comparisonShader).program with
  | ok program =>
    simp only [h, Except.toOption, Option.map_some, Option.some.injEq, Prod.mk.injEq] at hfacts
    exact ⟨program, rfl, hfacts.1, hfacts.2, hcount, parse_singleAssignment h hcount⟩
  | error e => simp [h, Except.toOption] at hfacts

end Dxil
