import Dxil.Proofs.Function.Transcript
import Dxil.Proofs.Parse

/-!
# Dxil.Proofs.Transcript

No record of a function is dropped without a reason.

* `Program.Accounts` : modules.
* `parse_transcribes` : the body of every program has the instructions of the records of the only
  function block, one for one and in order, but for silent records.
-/

namespace Dxil

theorem Ensures.of_bind_ok {α β : Type} {E : GivesUp} {x : Decoder α} {P : α → Prop}
    {f : α → Decoder β} {b : β} {p p' : Progress} (hx : Ensures E x P) (hp : p.Consistent)
    (h : (x >>= f) p = .ok b p') :
    ∃ a p₁, p.Continues p₁ ∧ P a ∧ f a p₁ = .ok b p' := by
  obtain ⟨a, p₁, hrun, h⟩ := exists_of_bind_ok h
  obtain ⟨hp₁, ha⟩ := hx.of_ok hp hrun
  exact ⟨a, p₁, hp₁, ha, h⟩

namespace Program

def Accounts (version : ShaderVersion) (bitcode : Bitcode) (source : String) (program : Program)
    (reports : List Report) : Prop :=
  ∃ scope pool functions,
    program.Assembled version bitcode scope pool (functions.body.getD {}) ∧
      Functions.Accounts scope source (Functions.MeetsBody scope 0 { pool } bitcode.root)
        bitcode.root.all { pool } functions reports

variable {version : ShaderVersion} {program : Program} {p p' : Progress}

theorem accounts_ofBitcode {bitcode : Bitcode} (hp : p.Consistent)
    (h : ofBitcode version bitcode p = .ok program p') (hok : p'.failed = false) :
    program.Accounts version bitcode p.location.source p'.reports.toList := by
  obtain ⟨q, p₁, hp₁, hq, h⟩ := (Ensures.prepare version bitcode).of_bind_ok hp h
  obtain ⟨functions, p₂, hrun, h⟩ := exists_of_bind_ok h
  replace hrun := of_orReport_ok hrun
  obtain ⟨hp₂, hfollows⟩ := (Ensures.functionsDecode hq.scope 0 _ _ hq.pool bitcode.root).of_ok
    (E := .anyhow) hp₁.consistent hrun
  obtain ⟨hp₃, hassembled⟩ := (Ensures.assemble hq hfollows).of_ok hp₂.consistent h
  have hok₂ := hp₃.not_failed hp₂.consistent hok
  have haccounts := Functions.accounts_decode hq.scope 0 _ _ hq.pool hp₁.consistent hok₂ _ hrun
  rw [hp₁.source] at haccounts
  exact ⟨q.scope, q.globals.pool, functions, hassembled,
    haccounts.mono (fun _ _ => id) rfl rfl hp₃.reports⟩

theorem accounts_ofBytes {bytes : List UInt8} (hp : p.Consistent)
    (h : ofBytes bytes p = .ok program p') (hok : p'.failed = false) :
    ∃ bitcode, programBitcode? bytes = some bitcode ∧
      program.Accounts program.version bitcode p.location.source p'.reports.toList := by
  obtain ⟨⟨version, bitcode⟩, p₁, hp₁, hbitcode, h⟩ :=
    (Ensures.readModule (E := .anyhow) bytes).of_bind_ok hp h
  obtain ⟨scope, pool, functions, hassembled, haccounts⟩ :=
    accounts_ofBitcode hp₁.consistent h hok
  rw [hp₁.source] at haccounts
  exact ⟨bitcode, hbitcode, scope, pool, functions, hassembled.version ▸ hassembled, haccounts⟩

end Program

theorem parse_accounts {kind : SourceKind} {name : String} {bytes : List UInt8}
    {program : Program} (h : (parse kind name bytes).program = .ok program) :
    ∃ bitcode reports, kind.bitcode? bytes = some bitcode ∧
      program.Accounts program.version bitcode name reports ∧
      (parse kind name bytes).diagnostics.toList = reports.map Report.toDiagnostic := by
  rcases parse_cases kind name bytes with ⟨-, -, hprogram, -⟩ | ⟨source, hsource, hparse⟩
  · rw [hprogram] at h
    cases h
  · rw [hparse] at h ⊢
    have hp : Progress.Consistent { location := { source := name } } := by
      simp [Progress.Consistent]
    obtain ⟨p, hrun, hok⟩ := Parsed.exists_of_ofDecoder_ok h
    obtain ⟨bitcode, hbitcode, haccounts⟩ := Program.accounts_ofBytes hp hrun hok
    exact ⟨bitcode, p.reports.toList, by simp [SourceKind.bitcode?, hsource, hbitcode],
      haccounts, by simp [Parsed.ofDecoder, hrun, Progress.log]⟩

/-- Between its declarations and its return, a program has the instructions of the records of the
only function block, in order. A record has one instruction, at its place, or it is silent and has
none. -/
theorem parse_transcribes {kind : SourceKind} {name : String} {bytes : List UInt8}
    {program : Program} (h : (parse kind name bytes).program = .ok program)
    (hcount : ∀ bitcode, kind.bitcode? bytes = some bitcode → bitcode.CountsRecords) :
    ∃ bitcode scope pool declarations body location,
      kind.bitcode? bytes = some bitcode ∧
      Program.Prepares program.version bitcode scope pool ∧
      program.instructions = declarations ++ body ++ [{ opcode := .ret, location }] ∧
      (∀ i ∈ declarations, i.IsDeclaration) ∧
      ((bitcode.root.all.filter Block.isFunction = [] ∧ body = []) ∨
        ∃ b values log, bitcode.root.all.filter Block.isFunction = [b] ∧
          Functions.MeetsBody scope 0 { pool } bitcode.root values b ∧
          FunctionBody.Transcribes scope name values b body log ∧
          log.map Report.toDiagnostic <:+: (parse kind name bytes).diagnostics.toList) ∧
      body.Pairwise fun i j => i.location.column < j.location.column := by
  obtain ⟨bitcode, reports, hbitcode, ⟨scope, pool, functions, hassembled, haccounts⟩, hreports⟩ :=
    parse_accounts h
  obtain ⟨declarations, location, hdeclarations, hinstructions⟩ := hassembled.instructions
  refine ⟨bitcode, scope, pool, declarations, _, location, hbitcode, hassembled.prepared,
    hinstructions, hdeclarations, ?_⟩
  rw [hreports]
  cases haccounts with
  | none hblocks hbody =>
    rw [hbody]
    exact ⟨.inl ⟨hblocks, rfl⟩, .nil⟩
  | @one b values body log hblocks _ hbody hmeets htranscribes hlog =>
    rw [hbody]
    refine ⟨.inr ⟨b, values, log, hblocks, hmeets, htranscribes, hlog.map _⟩, ?_⟩
    obtain ⟨first, records, hrecords, -, hall⟩ := htranscribes
    have hsmall : b.records.length < UInt32.size := hcount bitcode hbitcode b hmeets.mem_all
    rw [hrecords, List.length_cons] at hsmall
    exact (hall.columns (by omega)).1

/-- A vertex shader that calls an operation that is not known, and adds the undefined result to
itself. -/
def unaryShader : List UInt8 :=
  [0x60, 0x00, 0x01, 0x00, 0x44, 0x00, 0x00, 0x00, 0x44, 0x58, 0x49, 0x4c, 0x00, 0x01, 0x00, 0x00,
   0x10, 0x00, 0x00, 0x00, 0xf8, 0x00, 0x00, 0x00, 0x42, 0x43, 0xc0, 0xde, 0x21, 0x0c, 0x00, 0x00,
   0x3b, 0x00, 0x00, 0x00, 0x89, 0x20, 0x00, 0x00, 0x08, 0x00, 0x00, 0x00, 0x13, 0x04, 0xc9, 0x08,
   0xc0, 0x1c, 0x41, 0x30, 0x47, 0x80, 0xcc, 0x11, 0x80, 0xc1, 0x0c, 0xc0, 0x54, 0x02, 0x00, 0x0c,
   0x22, 0x14, 0xc0, 0x54, 0x03, 0x40, 0x0c, 0x83, 0x08, 0x07, 0x00, 0x00, 0x0b, 0x82, 0x60, 0x08,
   0x52, 0x00, 0x00, 0x00, 0x00, 0x00, 0x30, 0x04, 0x39, 0x80, 0x00, 0x00, 0x00, 0x00, 0xc8, 0x02,
   0x01, 0x00, 0x00, 0x00, 0x0c, 0x00, 0x00, 0x00, 0x13, 0x04, 0xc3, 0x10, 0x01, 0x32, 0x41, 0x30,
   0x0c, 0x11, 0x28, 0x13, 0x04, 0xc3, 0x10, 0x81, 0x3c, 0x4c, 0x10, 0x0c, 0x43, 0x04, 0xf6, 0x30,
   0x41, 0x30, 0x0c, 0x11, 0xc0, 0xcc, 0x04, 0x81, 0x30, 0x44, 0x80, 0x4c, 0x10, 0x0c, 0x33, 0x00,
   0x13, 0x04, 0xc4, 0x18, 0x01, 0x01, 0x00, 0x00, 0x79, 0x20, 0x00, 0x00, 0x0b, 0x00, 0x00, 0x00,
   0x23, 0x08, 0x06, 0x30, 0x01, 0xd1, 0x0e, 0xe1, 0x90, 0x0e, 0xee, 0x30, 0x43, 0x11, 0x08, 0x00,
   0x00, 0x0c, 0xe1, 0x90, 0x03, 0x3e, 0xb8, 0x41, 0x39, 0xb8, 0x03, 0x3d, 0xc8, 0x43, 0x3e, 0xc0,
   0xc2, 0x3b, 0xa4, 0x83, 0x3b, 0xd0, 0xc3, 0x3c, 0x8c, 0x12, 0x08, 0x00, 0x61, 0x20, 0x00, 0x00,
   0x04, 0x00, 0x00, 0x00, 0x13, 0x04, 0xc1, 0x88, 0x01, 0x01, 0x00, 0x09, 0x31, 0xc2, 0x10, 0x04,
   0xc0, 0x28, 0x00, 0x00, 0x71, 0x20, 0x00, 0x00, 0x08, 0x00, 0x00, 0x00, 0x13, 0x14, 0x40, 0x3b,
   0x84, 0x43, 0x3a, 0xb8, 0xc3, 0x04, 0x4c, 0x40, 0x0e, 0xf8, 0xe0, 0x06, 0xef, 0x00, 0x0f, 0x6e,
   0x50, 0x0f, 0xee, 0x10, 0x0e, 0xf2, 0x90, 0x0f, 0x00, 0x00, 0x00, 0x00, 0x00, 0x00, 0x00, 0x00]

/-- The call, which is record 1, is silent, and the sum, which is record 2, is not. -/
theorem parse_transcribes_unary :
    ∃ program, (parse .program "unary" unaryShader).program = .ok program ∧
      ((parse .program "unary" unaryShader).diagnostics.toList.map fun d =>
        (d.code, d.location.column)) = [(.unhandledIntrinsic, 1)] ∧
      (∀ bitcode, SourceKind.program.bitcode? unaryShader = some bitcode →
        bitcode.CountsRecords) ∧
      ∃ bitcode scope pool b values body log,
        SourceKind.program.bitcode? unaryShader = some bitcode ∧
        Program.Prepares program.version bitcode scope pool ∧
        bitcode.root.all.filter Block.isFunction = [b] ∧
        FunctionBody.Transcribes scope "unary" values b body log ∧
        body.map (fun i => (i.opcode, i.location.column)) = [(.add, 2)] := by
  have hcount : ∀ bitcode, SourceKind.program.bitcode? unaryShader = some bitcode →
      bitcode.CountsRecords := SourceKind.countsRecords_of_all (by decide +kernel)
  obtain ⟨program, hprogram, hfacts⟩ := exists_of_toOption_any
    (x := (parse .program "unary" unaryShader).program)
    (f := fun program =>
      program.instructions.map (fun i => (i.declaration.isNone, i.opcode, i.location.column)) =
        [(true, .add, 2), (true, .ret, 0)]) (by decide +kernel)
  refine ⟨program, hprogram, by decide +kernel, hcount, ?_⟩
  obtain ⟨bitcode, scope, pool, declarations, body, location, hbitcode, hprepared, hinstructions,
    hdeclarations, hbody, -⟩ := parse_transcribes hprogram hcount
  replace hfacts := of_decide_eq_true hfacts
  rw [hinstructions] at hfacts
  -- The first instruction declares nothing, so there are no declarations.
  cases declarations with
  | cons i rest =>
    obtain ⟨d, hd, -⟩ := (hdeclarations i List.mem_cons_self).declares
    simp [hd] at hfacts
  | nil =>
    match body with
    | [] => simp at hfacts
    | [i] =>
      rcases hbody with ⟨-, hnone⟩ | ⟨b, values, log, hblocks, -, htranscribes, -⟩
      · cases hnone
      · refine ⟨bitcode, scope, pool, b, values, [i], log, hbitcode, hprepared, hblocks,
          htranscribes, ?_⟩
        simp_all
    | _ :: _ :: _ => simp at hfacts

end Dxil
