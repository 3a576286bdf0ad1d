import Dxil.Proofs.Bits.Local
import Dxil.Proofs.Function.Emission

/-!
# Dxil.Proofs.Function.Transcript

The instructions of a body are those of its records, in order. A record has one, or a reason to have
none.

* `Silent` : the reasons.
* `TranscribesAll` : the instructions and reports of a body, record by record.
* `BodyState.accounts_step` : one record of a body that has no errors.
* `exists_transcribesAll` : all of them.
* `Functions.Accounts` : which function blocks a module has, and what became of their records.
-/

namespace Dxil

/-! ## Records without instructions -/

/-- A record has no instruction, where it can refer to `values` and `new` was found in it. -/
inductive Silent (scope : FunctionScope) (values : Values) (r : Record) (new : List Finding) :
    Prop where
  | ret (hcode : FunctionCode.ofNat? r.code.toNat = some .ret)
  | gep (hcode : FunctionCode.ofNat? r.code.toNat = some .gep)
  | pointerCast {v : Value} {register : Register} {source target : Ty} {id : TypeId}
      {code : UInt64} (hcode : FunctionCode.ofNat? r.code.toNat = some .cast)
      (h : Casts scope values r v register source id target code)
      (hsource : source.isPointer = true) (htarget : target.isPointer = true)
  /-- A cast whose result is the register that it casts. -/
  | keep {v : Value} {register : Register} {source target : Ty} {id : TypeId} {code : UInt64}
      {op : CastOp} (hcode : FunctionCode.ofNat? r.code.toNat = some .cast)
      (h : Casts scope values r v register source id target code)
      (hop : CastOp.ofNat? code.toNat = some op)
      (hplan : op.plan source.shape target.shape = .keep)
  | handle (hcode : FunctionCode.ofNat? r.code.toNat = some .call)
      (h : Selects scope values r .createHandle)
  /-- A call of an operation that is not known. -/
  | unhandled (hcode : FunctionCode.ofNat? r.code.toNat = some .call)
      (h : ∃ f ∈ new, f.isUnhandled = true)

theorem Casts.unique {scope : FunctionScope} {values : Values} {r : Record} {v v' : Value}
    {register register' : Register} {source source' target target' : Ty} {id id' : TypeId}
    {code code' : UInt64} (h : Casts scope values r v register source id target code)
    (h' : Casts scope values r v' register' source' id' target' code') :
    source = source' ∧ target = target' ∧ code = code' := by
  obtain rfl := h.value.unique h'.value
  obtain ⟨operand, hoperand, rfl⟩ := h.result
  obtain ⟨operand', hoperand', rfl⟩ := h'.result
  rw [hoperand] at hoperand'
  cases hoperand'
  exact ⟨Option.some.inj (h.source.symm.trans h'.source),
    Option.some.inj (h.target.symm.trans h'.target), Option.some.inj (h.code.symm.trans h'.code)⟩

theorem Ty.shape_of_isPointer {type : Ty} (h : type.isPointer = true) : type.shape = .other := by
  cases type with
  | pointer => rfl
  | _ => cases h

theorem CastOp.plan_other (op : CastOp) (target : ScalarShape) :
    op.plan .other target = .invalid := by
  cases op <;> rfl

section

variable {scope : FunctionScope} {values : Values} {r : Record} {new : List Finding}

theorem not_silent_of_code {code : FunctionCode}
    (hcode : FunctionCode.ofNat? r.code.toNat = some code)
    (hother : code ∉ [.ret, .gep, .cast, .call]) : ¬ Silent scope values r new := by
  intro h
  have hmem : code ∈ [FunctionCode.ret, .gep, .cast, .call] := by
    cases h with
    | ret h | gep h | pointerCast h | keep h | handle h | unhandled h =>
      rw [hcode] at h
      cases h
      decide
  exact hother hmem

theorem not_silent_of_convert {v : Value} {register : Register} {source target : Ty} {id : TypeId}
    {code : UInt64} {op : CastOp} {opcode : Opcode}
    (hcode : FunctionCode.ofNat? r.code.toNat = some .cast)
    (h : Casts scope values r v register source id target code)
    (hop : CastOp.ofNat? code.toNat = some op)
    (hplan : op.plan source.shape target.shape = .convert opcode) :
    ¬ Silent scope values r new := by
  intro hsilent
  cases hsilent with
  | ret h' | gep h' | handle h' | unhandled h' =>
    rw [hcode] at h'
    cases h'
  | pointerCast _ h' hsource _ =>
    obtain ⟨rfl, rfl, rfl⟩ := h.unique h'
    rw [Ty.shape_of_isPointer hsource, CastOp.plan_other] at hplan
    cases hplan
  | keep _ h' hop' hplan' =>
    obtain ⟨rfl, rfl, rfl⟩ := h.unique h'
    rw [hop] at hop'
    cases hop'
    rw [hplan] at hplan'
    cases hplan'

theorem silent_call_iff (hcode : FunctionCode.ofNat? r.code.toNat = some .call) {op : Intrinsic}
    (hop : Selects scope values r op) (hnew : ∀ f ∈ new, f.isUnhandled = false) :
    Silent scope values r new ↔ op = .createHandle := by
  constructor
  · intro h
    cases h with
    | ret h | gep h | pointerCast h | keep h =>
      rw [hcode] at h
      cases h
    | handle _ h => exact hop.unique h
    | unhandled _ h =>
      obtain ⟨f, hf, hunhandled⟩ := h
      rw [hnew f hf] at hunhandled
      cases hunhandled
  · rintro rfl
    exact .handle hcode hop

theorem Lowers.silent_iff {code : FunctionCode} {l : Lowered} (hl : Lowers scope values r code l)
    (hcode : FunctionCode.ofNat? r.code.toNat = some code)
    (hnew : ∀ f ∈ new, f.isUnhandled = false) :
    Silent scope values r new ↔ ∃ v, l = .value v := by
  have hcall : code = .call →
      ∃ op, Selects scope values r op ∧ (op = .createHandle ↔ ∃ v, l = .value v) := by
    rintro rfl
    exact hl.selects
  cases hl with
  | binary | comparison | extract | select | load =>
    exact ⟨fun h => absurd h (not_silent_of_code hcode (by decide)), by rintro ⟨_, ⟨⟩⟩⟩
  | gep => exact ⟨fun _ => ⟨_, rfl⟩, fun _ => .gep hcode⟩
  | pointerCast h hsource htarget =>
    exact ⟨fun _ => ⟨_, rfl⟩, fun _ => .pointerCast hcode h hsource htarget⟩
  | keep h hop hplan => exact ⟨fun _ => ⟨_, rfl⟩, fun _ => .keep hcode h hop hplan⟩
  | convert h hop hplan =>
    exact ⟨fun hs => absurd hs (not_silent_of_convert hcode h hop hplan), by rintro ⟨_, ⟨⟩⟩⟩
  | createHandle | loadConstantBuffer | loadInput | storeOutput =>
    obtain ⟨op, hop, hhandle⟩ := hcall rfl
    exact (silent_call_iff hcode hop hnew).trans hhandle

theorem Lowers.function?_value {code : FunctionCode} {v : Value}
    (hl : Lowers scope values r code (.value v)) : v.function? = none := by
  cases hl with
  | pointerCast h => simp [Value.function?, h.register]
  | keep | gep | createHandle => rfl

end

/-! ## One record -/

namespace BodyState

/-- Record `r` has the instruction `emitted`, at a place of the source, or none. -/
structure Transcribes (scope : FunctionScope) (location : Location) (s : BodyState) (r : Record)
    (new : List Finding) (emitted : Option Instruction) : Prop where
  silent : emitted = none ↔ Silent scope s.values r new
  emits : ∀ i, emitted = some i → s.Emits scope r i ∧ i.location = location

/-- At a place of the source, record `r` leads from `s` to `s'`, and `new` is what is found in
it. -/
def Finds (scope : FunctionScope) (location : Location) (s : BodyState) (r : Record)
    (new : List Finding) (s' : BodyState) : Prop :=
  ∃ p : Progress, p.location = location ∧ s.step scope 1 r p = .ok s' (p.addAll new)

variable {scope : FunctionScope} {types : TypeTable} {s s' : BodyState} {r : Record}
  {location : Location} {isCall : Bool} {l : Lowered} {emitted : Option Instruction}
  {p p' : Progress}

/-- Calls define typed values only, so that they can do without a type. -/
theorem complete_define (h : s.values.Complete types) {v : Value}
    (htype : isCall = false → v.type.isSome = true) (hfunction : v.function? = none) :
    (s.define isCall v).values.Complete types := by
  unfold define
  split
  · exact h
  · rename_i hdefined
    refine h.push ⟨?_, fun decl hdecl => ?_⟩
    · cases isCall with
      | false => exact htype rfl
      | true => simpa [Option.isSome_iff_ne_none] using hdefined
    · rw [hfunction] at hdecl
      cases hdecl

namespace Emitted

variable (h : s.Emitted location isCall (.ok l) emitted s')
include h

theorem eq_none_iff : emitted = none ↔ ∃ v, l = .value v := by
  cases h <;> simp

theorem emits {code : FunctionCode} (hl : Lowers scope s.values r code l) (i : Instruction)
    (hi : emitted = some i) : s.Emits scope r i ∧ i.location = location := by
  cases h with
  | value => cases hi
  | operation op data =>
    cases hi
    exact ⟨.operation hl data location, rfl⟩
  | store dst src type =>
    cases hi
    exact ⟨.store hl location, rfl⟩

theorem complete {code : FunctionCode} (hl : Lowers scope s.values r code l)
    (hc : s.values.Complete types) (htype : isCall = false → l.type.isSome = true) :
    s'.values.Complete types := by
  cases h with
  | value v => exact complete_define hc htype hl.function?_value
  | operation op data => exact complete_define hc htype rfl
  | store dst src type => exact complete_define hc htype rfl

end Emitted

/-- Unless there are errors, `x` leads from `s` to a state with the one instruction of record `r`,
or with none if the record is silent. -/
def Accounts (scope : FunctionScope) (s : BodyState) (r : Record) (x : Decoder BodyState) : Prop :=
  ∀ p s' p', x p = .ok s' p' → p'.failed = false →
    ∃ new emitted, p' = p.addAll new ∧ s'.values.Complete scope.types ∧
      s'.instructions.toList = s.instructions.toList ++ emitted.toList ∧
      s.Transcribes scope p.location r new emitted

section

variable (hc : s.values.Complete scope.types)
include hc

theorem accounts_lower {code : FunctionCode} {x : Decoder Lowered}
    (hcode : FunctionCode.ofNat? r.code.toNat = some code)
    (hx : lowering? scope s.values r code = some x) :
    s.Accounts scope r (s.lower scope.types (code = .call) x) := by
  intro p s' p' h hok
  obtain ⟨result, emitted, hattempt, hemitted⟩ := emitted_of_lower h
  rcases of_attempt_ok hattempt with ⟨l, hxp, rfl⟩ | ⟨type, hxp, rfl⟩
  · obtain ⟨new, rfl, hnotes, hl⟩ := (Abides.lowering hx).of_ok hxp
    have hsilent := hl.silent_iff hcode fun f hf => (hnotes f hf).1
    refine ⟨new, emitted, rfl, hemitted.complete hl hc fun hother => ?_, hemitted.instructions,
      hemitted.eq_none_iff.trans hsilent.symm, hemitted.emits hl⟩
    exact hl.isSome_type (of_decide_eq_false hother) hc
  · obtain ⟨new, rfl, -, hincomplete | ⟨f, hf, hblame⟩⟩ := (Abides.lowering hx).of_invalid hxp
    · exact absurd hc hincomplete
    · rcases hblame with herror | ⟨rfl, hunhandled⟩
      · rw [Progress.failed_addAll, Bool.or_eq_false_iff, List.any_eq_false] at hok
        exact absurd herror (hok.2 f hf)
      · have hsilent : Silent scope s.values r new := .unhandled hcode ⟨f, hf, hunhandled⟩
        cases hemitted with
        | undefined type data =>
          exact ⟨new, none, rfl, complete_define hc (by simp) rfl, by simp,
            ⟨fun _ => hsilent, fun _ => rfl⟩, by simp⟩

theorem accounts_ret (hcode : FunctionCode.ofNat? r.code.toNat = some .ret) :
    s.Accounts scope r (s.ret r) := by
  intro p s' p' h hok
  have hret : Abides (.strict (fun _ => True) True True) (s.ret r) fun s' =>
      s' = { s with returned := true } :=
    .bind (.reportIf trivial) fun _ _ => .bind (.reportIf trivial) fun _ _ => .pure rfl
  obtain ⟨new, rfl, -, rfl⟩ := hret.of_ok h
  have hsilent : Silent scope s.values r new := .ret hcode
  exact ⟨new, none, rfl, hc, by simp, ⟨fun _ => hsilent, fun _ => rfl⟩, by simp⟩

theorem accounts_step (blockCount : Nat) (r : Record) :
    s.Accounts scope r (s.step scope blockCount r) :=
  step_cases (P := s.Accounts scope r) scope blockCount s r
    (fun f _ _ p s' p' h _ => by cases h) (accounts_ret hc) fun _ _ => accounts_lower hc

end

end BodyState

/-! ## Bodies -/

def functionPlace (source : String) (i : Nat) : Location :=
  { source, line := BlockKind.function.id, column := UInt32.ofNat i }

/-- The instructions and reports of the records from number `i` on, in a body that has come to
state `s`. -/
inductive TranscribesAll (scope : FunctionScope) (source : String) :
    (i : Nat) → BodyState → List Record → List Instruction → List Report → Prop where
  | nil {i : Nat} {s : BodyState} : TranscribesAll scope source i s [] [] []
  | next {i : Nat} {s s' : BodyState} {r : Record} {records : List Record} {new : List Finding}
      {emitted : Option Instruction} {instructions : List Instruction} {log : List Report}
      (hrecord : s.Transcribes scope (functionPlace source i) r new emitted)
      (hstep : s.Finds scope (functionPlace source i) r new s')
      (h : TranscribesAll scope source (i + 1) s' records instructions log) :
      TranscribesAll scope source i s (r :: records) (emitted.toList ++ instructions)
        (new.map (Report.mk (functionPlace source i)) ++ log)

section

variable {scope : FunctionScope} {source : String} {i n : Nat} {s s' : BodyState}
  {records : List Record} {p p' : Progress}

theorem Ensures.bodySteps (hs : scope.Sound) (h : s.Sound scope.types n) :
    Ensures .anyhow (Dxil.foldRecords (fun s _ r => BodyState.step scope 1 s r) i s records)
      fun _ => True := by
  refine (Ensures.foldRecords (fun _ _ (s : BodyState) => ∃ n, s.Sound scope.types n)
    (fun _ r _ s ⟨n, hsound⟩ => ?_) ⟨n, h⟩).mono fun _ _ => trivial
  exact (bodyStep hs hsound.usable 1 r).mono fun _ hstep => ⟨n + 1, hsound.step hs hstep⟩

theorem exists_transcribesAll (hs : scope.Sound) (hsound : s.Sound scope.types n)
    (hc : s.values.Complete scope.types) (hp : p.Consistent)
    (hsource : p.location.source = source) (hline : p.location.line = BlockKind.function.id)
    (h : foldRecords (fun s _ r => BodyState.step scope 1 s r) i s records p = .ok s' p')
    (hok : p'.failed = false) :
    ∃ instructions log, TranscribesAll scope source i s records instructions log ∧
      s'.instructions.toList = s.instructions.toList ++ instructions ∧
      p'.reports.toList = p.reports.toList ++ log := by
  induction records generalizing i s n p with
  | nil =>
    cases h
    exact ⟨[], [], .nil, by simp, by simp⟩
  | cons r records ih =>
    obtain ⟨_, p₁, hset, h⟩ := exists_of_bind_ok h
    cases hset
    obtain ⟨s₁, p₁, hstep, h⟩ := exists_of_bind_ok h
    have hplace : ({ p.location with column := UInt32.ofNat i } : Location) =
        functionPlace source i := by
      rw [functionPlace, ← hsource, ← hline]
    replace hstep : s.step scope 1 r { p with location := functionPlace source i } = .ok s₁ p₁ := by
      rw [← hplace]
      exact hstep
    have hp₁ : Progress.Consistent { p with location := functionPlace source i } := hp
    obtain ⟨hcontinues, hsteps⟩ :=
      (Ensures.bodyStep hs hsound.usable 1 r).of_ok (E := .anyhow) hp₁ hstep
    have hsound₁ := hsound.step hs hsteps
    have hok₁ := ((Ensures.bodySteps hs hsound₁).of_ok hcontinues.consistent h).1.not_failed
      hcontinues.consistent hok
    obtain ⟨new, emitted, rfl, hc₁, hemitted, hrecord⟩ :=
      BodyState.accounts_step hc 1 r _ _ _ hstep hok₁
    obtain ⟨instructions, log, hall, hinstructions, hreports⟩ :=
      ih hsound₁ hc₁ hcontinues.consistent rfl rfl h
    refine ⟨_, _, .next hrecord ⟨_, rfl, hstep⟩ hall, ?_, ?_⟩
    · rw [hinstructions, hemitted, List.append_assoc]
    · rw [hreports, Progress.reports_addAll, List.append_assoc]

/-- Columns are counted in 32 bits, which is enough to tell the records apart. -/
theorem TranscribesAll.columns {instructions : List Instruction} {log : List Report}
    (h : TranscribesAll scope source i s records instructions log)
    (hcount : i + records.length ≤ UInt32.size) :
    (instructions.Pairwise fun a b => a.location.column < b.location.column) ∧
      ∀ a ∈ instructions, i ≤ a.location.column.toNat := by
  induction h with
  | nil => exact ⟨.nil, by simp⟩
  | @next i s s' r records new emitted instructions log hrecord hstep h ih =>
    rw [List.length_cons] at hcount
    obtain ⟨hincreasing, hlater⟩ := ih (by omega)
    cases emitted with
    | none => exact ⟨hincreasing, fun a ha => Nat.le_of_succ_le (hlater a ha)⟩
    | some first =>
      have hcolumn : first.location.column.toNat = i := by
        rw [(hrecord.emits first rfl).2]
        exact UInt32.toNat_ofNat_of_lt' (by omega)
      refine ⟨List.pairwise_cons.mpr ⟨fun a ha => ?_, hincreasing⟩,
        List.forall_mem_cons.mpr ⟨Nat.le_of_eq hcolumn.symm, fun a ha => ?_⟩⟩
      · rw [UInt32.lt_iff_toNat_lt, hcolumn]
        exact hlater a ha
      · exact Nat.le_of_succ_le (hlater a ha)

end

namespace FunctionBody

/-- After the record that counts the blocks, the records of a function block have these
instructions and reports. -/
def Transcribes (scope : FunctionScope) (source : String) (values : Values) (b : Block)
    (instructions : List Instruction) (log : List Report) : Prop :=
  ∃ first records, b.records = first :: records ∧
    FunctionCode.ofNat? first.code.toNat = some .declareBlocks ∧
    TranscribesAll scope source 1 { values } records instructions log

theorem of_checkBlockCount_ok {r : Record} {count : Nat} {p p' : Progress}
    (h : checkBlockCount r p = .ok count p') :
    p = p' ∧ count = 1 ∧ FunctionCode.ofNat? r.code.toNat = some .declareBlocks := by
  unfold checkBlockCount at h
  match hcount : blockCount? r with
  | none | some 0 | some (_ + 2) =>
    rw [hcount] at h
    cases h
  | some 1 =>
    rw [hcount] at h
    cases h
    refine ⟨rfl, rfl, ?_⟩
    unfold blockCount? at hcount
    split at hcount
    · assumption
    · cases hcount

theorem exists_transcribes {scope : FunctionScope} (hs : scope.Sound) {values : Values}
    {temps arrays : Nat} (hv : ∀ v ∈ values, v.Static scope.types temps arrays)
    (hc : values.Complete scope.types) {b : Block} {body : FunctionBody} {p p' : Progress}
    (hp : p.Consistent) (hline : p.location.line = BlockKind.function.id)
    (h : decode scope values b p = .ok body p') (hok : p'.failed = false) :
    ∃ log, Transcribes scope p.location.source values b body.instructions log ∧
      p'.reports.toList = p.reports.toList ++ log := by
  obtain ⟨found, p₁, hfound, h⟩ := exists_of_bind_ok h
  obtain rfl := of_present_ok hfound
  obtain ⟨index, p₂, hindex, h⟩ := exists_of_bind_ok h
  obtain rfl := of_orReject_ok hindex
  obtain ⟨definition, p₃, hdefinition, h⟩ := exists_of_bind_ok h
  obtain rfl := of_present_ok hdefinition
  obtain ⟨signature, p₄, hsignature, h⟩ := exists_of_bind_ok h
  obtain rfl := of_present_ok hsignature
  obtain ⟨_, p₅, hparams, h⟩ := exists_of_bind_ok h
  obtain rfl := of_rejectIf_ok hparams
  match hrecords : b.records with
  | [] | [_] =>
    rw [hrecords] at h
    cases h
  | first :: second :: rest =>
    simp only [hrecords] at h
    obtain ⟨count, p₆, hcount, h⟩ := exists_of_bind_ok h
    obtain ⟨rfl, rfl, hfirst⟩ := of_checkBlockCount_ok hcount
    obtain ⟨s, p₇, hfold, h⟩ := exists_of_bind_ok h
    have hstart := BodyState.Reaches.start.sound hs hv
    by_cases hreturned : s.returned = true
    · rw [if_pos hreturned] at h
      cases h
      obtain ⟨instructions, log, hall, hinstructions, hreports⟩ :=
        exists_transcribesAll hs hstart hc hp rfl hline hfold hok
      obtain rfl : s.instructions.toList = instructions := by simpa using hinstructions
      exact ⟨log, ⟨first, second :: rest, hrecords, hfirst, hall⟩, hreports⟩
    · rw [if_neg hreturned] at h
      cases h

end FunctionBody

/-! ## Modules -/

def Block.isFunction (b : Block) : Bool := BlockKind.ofId? b.header.id = some .function

theorem Block.filter_all_of_not_function {header : BlockHeader} {records : List Record}
    {blocks : List Block} (h : BlockKind.ofId? header.id ≠ some .function) :
    (Block.mk header records blocks).all.filter isFunction = (allOf blocks).filter isFunction := by
  have hother : ¬ (Block.mk header records blocks).isFunction = true :=
    fun hfunction => h (of_decide_eq_true hfunction)
  rw [Block.all, List.filter_cons_of_neg hother]

namespace Functions

/-- What became of the function blocks among `blocks`, on the way from `s` to `s'`. There is one at
the most, and each of its records is accounted for. -/
inductive Accounts (scope : FunctionScope) (source : String) (meets : Values → Block → Prop)
    (blocks : List Block) (s s' : State) (reports : List Report) : Prop where
  | none (hblocks : blocks.filter Block.isFunction = []) (hbody : s'.body = s.body)
  | one {b : Block} {values : Values} {body : FunctionBody} {log : List Report}
      (hblocks : blocks.filter Block.isFunction = [b]) (hbefore : s.body = none)
      (hbody : s'.body = some body) (hmeets : meets values b)
      (hbody : FunctionBody.Transcribes scope source values b body.instructions log)
      (hlog : log <:+: reports)

variable {scope : FunctionScope} {source : String} {meets meets' : Values → Block → Prop}
  {blocks blocks' : List Block} {s s' s'' : State} {reports reports' : List Report}

theorem Accounts.mono (h : Accounts scope source meets blocks s s' reports)
    (hmeets : ∀ values b, meets values b → meets' values b)
    (hblocks : blocks'.filter Block.isFunction = blocks.filter Block.isFunction)
    (hbody : s''.body = s'.body) (hreports : reports <+: reports') :
    Accounts scope source meets' blocks' s s'' reports' := by
  cases h with
  | none hnone hsame => exact .none (hblocks.trans hnone) (hbody.trans hsame)
  | one hone hbefore hnew hmeet htranscribes hlog =>
    exact .one (hblocks.trans hone) hbefore (hbody.trans hnew) (hmeets _ _ hmeet) htranscribes
      (hlog.trans hreports.isInfix)

theorem Accounts.append (h : Accounts scope source meets blocks s s' reports)
    (h' : Accounts scope source meets blocks' s' s'' reports') (hreports : reports <+: reports') :
    Accounts scope source meets (blocks ++ blocks') s s'' reports' := by
  cases h with
  | none hnone hsame =>
    cases h' with
    | none hnone' hsame' =>
      exact .none (by rw [List.filter_append, hnone, hnone', List.append_nil]) (hsame'.trans hsame)
    | one hone' hbefore' hbody' hmeets' htranscribes' hlog' =>
      exact .one (by rw [List.filter_append, hnone, hone', List.nil_append])
        (hsame.symm.trans hbefore') hbody' hmeets' htranscribes' hlog'
  | one hone hbefore hbody hmeets htranscribes hlog =>
    cases h' with
    | none hnone' hsame' =>
      exact .one (by rw [List.filter_append, hone, hnone', List.append_nil]) hbefore
        (hsame'.trans hbody) hmeets htranscribes (hlog.trans hreports.isInfix)
    | one _ hbefore' =>
      rw [hbody] at hbefore'
      cases hbefore'

theorem accounts_decodeBody (hs : scope.Sound) {temps : Nat} {inner : State}
    (hpool : ∀ v ∈ inner.pool.values, v.Static scope.types temps inner.pool.arrays.size)
    (hc : inner.pool.values.Complete scope.types) {header : BlockHeader} {records : List Record}
    (hkind : BlockKind.ofId? header.id = some .function)
    {p p' : Progress} (hp : p.Consistent)
    (hin : p.failed = false → Accounts scope source meets (Block.allOf blocks) s inner reports)
    (hsource : p.location.source = source)
    (hline : p.location.line = header.id) {body : FunctionBody}
    (h : decodeBody scope inner (.mk header records blocks) p = .ok body p')
    (hok : p'.failed = false) (hbody : s'.body = some body)
    (hmeets : meets' inner.pool.values (.mk header records blocks)) :
    Accounts scope source meets' (Block.mk header records blocks).all s s' p'.reports.toList := by
  unfold decodeBody at h
  cases hinner : inner.body with
  | some _ =>
    rw [hinner] at h
    cases h
  | none =>
    rw [hinner] at h
    have hline' := hline.trans (BlockKind.eq_id_of_ofId? hkind)
    obtain ⟨log, htranscribes, hreports⟩ :=
      FunctionBody.exists_transcribes hs hpool hc hp hline' h hok
    have hcontinues := ((Ensures.bodyDecode hs hpool _).of_ok (E := .anyhow) hp h).1
    cases hin (hcontinues.not_failed hp hok) with
    | one _ _ hsome =>
      rw [hinner] at hsome
      cases hsome
    | none hblocks hsame =>
      have hfunction : (Block.mk header records blocks).isFunction = true := decide_eq_true hkind
      refine .one ?_ (hsame.symm.trans hinner) hbody hmeets (hsource ▸ htranscribes) ?_
      · rw [Block.all, List.filter_cons_of_pos hfunction, hblocks]
      · rw [hreports]
        exact (List.suffix_append _ _).isInfix

mutual

theorem accounts_decode (hs : scope.Sound) {temps : Nat} (level least : Nat) (s : State)
    (hpool : s.pool.Sound scope.types temps least) {s' : State} {p p' : Progress}
    (hp : p.Consistent) (hok : p'.failed = false) : (block : Block) →
    decode scope level s block p = .ok s' p' →
    Accounts scope p.location.source (MeetsBody scope level s block) block.all s s'
      p'.reports.toList
  | .mk header records blocks => by
    intro h
    rw [decode] at h
    obtain ⟨inner, p₁, hinner, h⟩ := exists_of_bind_ok h
    obtain ⟨_, p₂, hline, h⟩ := exists_of_bind_ok h
    cases hline
    obtain ⟨_, p₃, hcolumn, h⟩ := exists_of_bind_ok h
    cases hcolumn
    have hstart : s.pool.Sound scope.types temps s.pool.arrays.size :=
      ⟨hpool.values, hpool.complete, Nat.le_refl _⟩
    obtain ⟨hcontinues, hfollows⟩ :=
      (Ensures.functionsDecodeAll hs (level + 1) _ s hstart blocks).of_ok (E := .anyhow) hp hinner
    have hp₁ := hcontinues.consistent
    have hin := fun hok₁ => accounts_decodeAll hs (level + 1) _ s hstart hp hok₁ blocks hinner
    -- A block without a body leaves what became of the blocks in it.
    have hplain : BlockKind.ofId? header.id ≠ some .function → p₁.failed = false →
        s'.body = inner.body → p₁.reports.toList <+: p'.reports.toList →
        Accounts scope p.location.source (MeetsBody scope level s (.mk header records blocks))
          (Block.mk header records blocks).all s s' p'.reports.toList :=
      fun hkind hok₁ hbody hreports => (hin hok₁).mono (fun _ _ => .inside)
        (Block.filter_all_of_not_function hkind) hbody hreports
    have hp₃ : Progress.Consistent
        { p₁ with location := ⟨p₁.location.source, header.id, UInt32.ofNat 0⟩ } := hp₁
    cases hkind : BlockKind.ofId? header.id with
    | none =>
      simp only [hkind] at h
      cases h
      exact hplain (by simp [hkind]) hok rfl List.prefix_rfl
    | some kind =>
      cases kind with
      | constants =>
        simp only [hkind] at h
        by_cases hlevel : 2 ≤ level
        · rw [if_pos hlevel] at h
          obtain ⟨pool, p₄, hpool', h⟩ := exists_of_bind_ok h
          cases h
          have hrest := ((Ensures.constantsDecode hs.types hfollows.pool _).of_ok (E := .anyhow)
            hp₃ hpool').1
          exact hplain (by simp [hkind]) (hrest.not_failed hp₃ hok) rfl hrest.reports
        · rw [if_neg hlevel] at h
          cases h
          exact hplain (by simp [hkind]) hok rfl List.prefix_rfl
      | function =>
        simp only [hkind] at h
        obtain ⟨body, p₄, hbody, h⟩ := exists_of_bind_ok h
        cases h
        exact accounts_decodeBody hs hfollows.pool.values hfollows.pool.complete hkind hp₃ hin
          hcontinues.source rfl hbody hok rfl (.here hkind ⟨p, p₁, hp, hinner⟩)
      | _ =>
        simp only [hkind] at h
        cases h
        exact hplain (by simp [hkind]) hok rfl List.prefix_rfl

theorem accounts_decodeAll (hs : scope.Sound) {temps : Nat} (level least : Nat) (s : State)
    (hpool : s.pool.Sound scope.types temps least) {s' : State} {p p' : Progress}
    (hp : p.Consistent) (hok : p'.failed = false) : (blocks : List Block) →
    decodeAll scope level s blocks p = .ok s' p' →
    Accounts scope p.location.source (MeetsBodyIn scope level s blocks) (Block.allOf blocks) s s'
      p'.reports.toList
  | [] => by
    intro h
    rw [decodeAll] at h
    cases h
    rw [Block.allOf]
    exact .none rfl rfl
  | block :: blocks => by
    intro h
    rw [decodeAll] at h
    obtain ⟨s₁, p₁, hfirst, h⟩ := exists_of_bind_ok h
    obtain ⟨hcontinues, hfollows⟩ :=
      (Ensures.functionsDecode hs level least s hpool block).of_ok (E := .anyhow) hp hfirst
    have hp₁ := hcontinues.consistent
    have hrest := ((Ensures.functionsDecodeAll hs level least s₁ hfollows.pool blocks).of_ok
      (E := .anyhow) hp₁ h).1
    have hok₁ := hrest.not_failed hp₁ hok
    have hblock := accounts_decode hs level least s hpool hp hok₁ block hfirst
    have hblocks := accounts_decodeAll hs level least s₁ hfollows.pool hp₁ hok blocks h
    rw [hcontinues.source] at hblocks
    rw [Block.allOf]
    exact (hblock.mono (fun _ _ => .first) rfl rfl List.prefix_rfl).append
      (hblocks.mono (fun _ _ => .later ⟨p, p₁, hp, hfirst⟩) rfl rfl List.prefix_rfl) hrest.reports

end

end Functions

end Dxil
