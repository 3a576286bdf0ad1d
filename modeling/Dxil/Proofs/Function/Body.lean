import Dxil.Module.Functions
import Dxil.Proofs.Function.Operands

/-!
# Dxil.Proofs.Function.Body

Function bodies, record by record.

* `BodyState.Steps` : what one record can do to the state of a body.
* `Abides.bodyStep` : it does nothing else, and the body is given up only for a record that it
  cannot have.
* `BodyState.Reaches` : the states that the records of a body lead to, one after the other.
* `BodyState.Sound` : what every step of a body keeps.
* `Ensures.bodyDecode` : a body is what its last state says.
* `Functions.MeetsBody` : which blocks of a module are decoded as bodies, and from which values.
* `Ensures.functionsDecode` : the body of a module comes from one of them.
-/

namespace Dxil

/-! ## Steps -/

namespace BodyState

/-- What a record can do to the state of a body. -/
inductive Steps (scope : FunctionScope) (s : BodyState) (r : Record) : BodyState → Prop where
  | ret : Steps scope s r { s with returned := true }
  | value {code : FunctionCode} {v : Value} (hcode : FunctionCode.ofNat? r.code.toNat = some code)
      (hl : Lowers scope s.values r code (.value v)) :
      Steps scope s r (s.define (code = .call) v)
  | operation {code : FunctionCode} {op : Operation}
      (hcode : FunctionCode.ofNat? r.code.toNat = some code)
      (hl : Lowers scope s.values r code (.operation op)) (data : DataType)
      (location : Location) :
      Steps scope s r
        { s.define (code = .call) (op.value data s.ssaCount) with
          instructions := s.instructions.push (op.instruction data s.ssaCount location)
          ssaCount := s.ssaCount + 1 }
  | store {code : FunctionCode} {dst : DstParam} {src : SrcParam} {type : Option TypeId}
      (hcode : FunctionCode.ofNat? r.code.toNat = some code)
      (hl : Lowers scope s.values r code (.store dst src type)) (location : Location) :
      Steps scope s r
        { s.define (code = .call) { type, kind := .register .unknown } with
          instructions :=
            s.instructions.push { opcode := .mov, location, dst := [dst], src := [src] } }
  /-- The record could not be lowered. -/
  | undefined {code : FunctionCode} {type : Option TypeId} (htype : scope.types.Defines type)
      (data : DataType) : Steps scope s r (s.define (code = .call) (.undefined type data))

/-- The states of a body that starts with `values`, after the given records. -/
inductive Reaches (scope : FunctionScope) (values : Values) : List Record → BodyState → Prop where
  | start : Reaches scope values [] { values }
  | next {before : List Record} {s s' : BodyState} {r : Record} (h : Reaches scope values before s)
      (hstep : Yields (s.step scope 1 r) s') : Reaches scope values (before ++ [r]) s'

end BodyState

namespace BodyState

/-- The state after a record was lowered, or was not, and the instruction that this took. -/
inductive Emitted (s : BodyState) (location : Location) (isCall : Bool) :
    Except (Option TypeId) Lowered → Option Instruction → BodyState → Prop where
  | value (v : Value) : Emitted s location isCall (.ok (.value v)) none (s.define isCall v)
  | operation (op : Operation) (data : DataType) :
      Emitted s location isCall (.ok (.operation op))
        (some (op.instruction data s.ssaCount location))
        { s.define isCall (op.value data s.ssaCount) with
          instructions := s.instructions.push (op.instruction data s.ssaCount location)
          ssaCount := s.ssaCount + 1 }
  | store (dst : DstParam) (src : SrcParam) (type : Option TypeId) :
      Emitted s location isCall (.ok (.store dst src type))
        (some { opcode := .mov, location, dst := [dst], src := [src] })
        { s.define isCall { type, kind := .register .unknown } with
          instructions :=
            s.instructions.push { opcode := .mov, location, dst := [dst], src := [src] } }
  | undefined (type : Option TypeId) (data : DataType) :
      Emitted s location isCall (.error type) none (s.define isCall (.undefined type data))

def resultType : Except (Option TypeId) Lowered → Option TypeId
  | .ok l => l.type
  | .error type => type

variable {types : TypeTable} {s s' : BodyState} {r : Record} {location : Location} {isCall : Bool}
  {result : Except (Option TypeId) Lowered} {emitted : Option Instruction} {p p' : Progress}

@[simp] theorem instructions_define (v : Value) :
    (s.define isCall v).instructions = s.instructions := by
  unfold define
  split <;> rfl

theorem Emitted.instructions (h : s.Emitted location isCall result emitted s') :
    s'.instructions.toList = s.instructions.toList ++ emitted.toList := by
  cases h <;> simp

theorem Emitted.values (h : s.Emitted location isCall result emitted s') :
    ∃ v : Value, v.type = resultType result ∧ s'.values = (s.define isCall v).values := by
  cases h <;> exact ⟨_, rfl, rfl⟩

end BodyState

theorem Abides.bodyEmit {T : Terms} {types : TypeTable}
    {result : Except (Option TypeId) Lowered}
    (hd : ¬ (types.Closed ∧ types.Defines (BodyState.resultType result)) → T.dangles)
    (s : BodyState) (location : Location) (isCall : Bool) :
    Abides T (s.emit types location isCall result) fun s' =>
      ∃ emitted, s.Emitted location isCall result emitted s' := by
  have hdata : types.dataTypeOf (BodyState.resultType result) = none → T.dangles := by
    refine fun hnone => hd fun ⟨hclosed, hdefines⟩ => ?_
    obtain ⟨data, hdata⟩ := hclosed.dataTypeOf hdefines
    cases hdata.symm.trans hnone
  obtain type | v | op | ⟨dst, src, type⟩ := result
  · exact (present hdata).bind fun data _ => .pure ⟨_, .undefined type data⟩
  · exact .pure ⟨_, .value v⟩
  · exact (present hdata).bind fun data _ => .pure ⟨_, .operation op data⟩
  · exact .pure ⟨_, .store dst src type⟩

namespace BodyState

variable {types : TypeTable} {s s' : BodyState} {r : Record} {isCall : Bool} {p p' : Progress}

theorem emitted_of_lower {x : Decoder Lowered} (h : s.lower types isCall x p = .ok s' p') :
    ∃ result emitted, attempt x p = .ok result p' ∧
      s.Emitted p.location isCall result emitted s' := by
  obtain ⟨location, p₁, hhere, h⟩ := exists_of_bind_ok h
  cases hhere
  obtain ⟨result, p₂, hattempt, h⟩ := exists_of_bind_ok h
  have hemit : Abides (.strict (fun _ => False) False True)
      (s.emit types p.location isCall result) fun s' =>
        ∃ emitted, s.Emitted p.location isCall result emitted s' :=
    .bodyEmit (fun _ => trivial) s p.location isCall
  obtain ⟨rfl, emitted, hemitted⟩ := hemit.unreported (fun _ h => h) h
  exact ⟨result, emitted, hattempt, hemitted⟩

def supported : List FunctionCode :=
  [.ret, .binary, .cast, .compare, .extract, .gep, .load, .select, .call]

theorem isSome_lowering? {scope : FunctionScope} {values : Values} {code : FunctionCode}
    (h : code ∈ supported) (hret : code ≠ .ret) :
    (lowering? scope values r code).isSome = true := by
  cases code with
  | ret => exact absurd rfl hret
  | binary | cast | load | extract | compare | select | call | gep => rfl
  | _ => simp [supported] at h

theorem step_of_lowering {scope : FunctionScope} {code : FunctionCode} {x : Decoder Lowered}
    (hreturned : s.returned = false) (hcode : FunctionCode.ofNat? r.code.toNat = some code)
    (hx : lowering? scope s.values r code = some x) (blockCount : Nat) :
    s.step scope blockCount r = s.lower scope.types (code = .call) x := by
  unfold step
  rw [hreturned, if_neg (by decide), hcode]
  cases code with
  | ret => cases hx
  | _ => simp only [hx]

theorem step_cases {P : Decoder BodyState → Prop} (scope : FunctionScope) (blockCount : Nat)
    (s : BodyState) (r : Record)
    (hreject : ∀ f : Finding, f.isError = true →
      (s.returned = false → ∀ code ∈ supported, FunctionCode.ofNat? r.code.toNat ≠ some code) →
      P (reject f))
    (hret : FunctionCode.ofNat? r.code.toNat = some .ret → P (s.ret r))
    (hlower : ∀ code x, FunctionCode.ofNat? r.code.toNat = some code →
      lowering? scope s.values r code = some x → P (s.lower scope.types (code = .call) x)) :
    P (s.step scope blockCount r) := by
  unfold step
  split <;> rename_i hreturned
  · refine hreject _ rfl fun hnot => ?_
    rw [hreturned] at hnot
    cases hnot
  split
  · exact hret ‹_›
  · rename_i code hother hcode
    split
    · exact hlower code _ hcode ‹_›
    · refine hreject _ rfl fun _ code' hsupported hcode' => ?_
      rw [hcode] at hcode'
      cases hcode'
      have hsome : (lowering? scope s.values r code).isSome = true :=
        isSome_lowering? hsupported hother
      simp [*] at hsome
  · refine hreject _ rfl fun _ code _ hcode => ?_
    simp [*] at hcode

end BodyState

theorem BodyState.Emitted.steps {scope : FunctionScope} {s s' : BodyState} {r : Record}
    {code : FunctionCode} {result : Except (Option TypeId) Lowered} {location : Location}
    {emitted : Option Instruction}
    (h : s.Emitted location (code = .call) result emitted s')
    (hcode : FunctionCode.ofNat? r.code.toNat = some code)
    (hl : ∀ l, result = .ok l → Lowers scope s.values r code l)
    (htype : ∀ type, result = .error type → scope.types.Defines type) : s.Steps scope r s' := by
  cases h with
  | value v => exact .value hcode (hl _ rfl)
  | operation op data => exact .operation hcode (hl _ rfl) data location
  | store dst src type => exact .store hcode (hl _ rfl) location
  | undefined type data => exact .undefined (htype type rfl) data

namespace Abides

open BodyState

variable {T : Terms} {scope : FunctionScope} {s : BodyState} {r : Record}

/-- Giving up on a record does not give up on the body. -/
theorem bodyLower {code : FunctionCode} {x : Decoder Lowered}
    (hcode : FunctionCode.ofNat? r.code.toNat = some code)
    (hx : lowering? scope s.values r code = some x)
    (hnotes : ∀ f, (Terms.lowering scope s.values r code).notes f → T.notes f)
    (hblames : ∀ f, (Terms.lowering scope s.values r code).blames f → T.notes f)
    (hd : ¬ (scope.Sound ∧ s.values.Usable scope.types) → T.dangles) :
    Abides T (s.lower scope.types (code = .call) x) fun s' =>
      scope.Sound → s.values.Usable scope.types → Steps scope s r s' := by
  refine here.bind fun location _ => ((Abides.lowering hx).attempt hnotes hblames
    fun hdangles => hd hdangles.1).bind fun result ⟨hok, hgave⟩ => ?_
  refine (bodyEmit (fun hnot => hd fun ⟨hs, hu⟩ => hnot ⟨hs.types, ?_⟩) s location _).mono
    fun s' ⟨emitted, hemitted⟩ hs hu =>
      hemitted.steps hcode hok fun type heq => (hgave type heq).defined hs hu
  cases result with
  | ok l => exact ((hok l rfl).usable hs hu).type
  | error type => exact (hgave type rfl).defined hs hu

/-- The body is given up only for a record that it cannot have. -/
theorem bodyStep (hs : scope.Sound) (hu : s.values.Usable scope.types) (blockCount : Nat)
    (r : Record) (hnotes : ∀ f, T.notes f)
    (h : (s.returned = false →
      ∀ code ∈ supported, FunctionCode.ofNat? r.code.toNat ≠ some code) → T.leaves none) :
    Abides T (s.step scope blockCount r) (Steps scope s r) := by
  refine step_cases (P := fun x => Abides T x (Steps scope s r)) scope blockCount s r
    (fun f hf hnot => .reject hf (h hnot)) (fun _ => ?_) fun code x hcode hx => ?_
  · exact (ignoreBeyond r 1 fun _ _ => hnotes _).bind fun _ _ => (reportIf (hnotes _)).bind
      fun _ _ => .pure .ret
  · exact (bodyLower hcode hx (fun f _ => hnotes f) (fun f _ => hnotes f)
      fun hnot => absurd ⟨hs, hu⟩ hnot).mono fun _ hsteps => hsteps hs hu

end Abides

theorem Ensures.bodyStep {E : GivesUp} {scope : FunctionScope} {s : BodyState} (hs : scope.Sound)
    (hu : s.values.Usable scope.types) (blockCount : Nat) (r : Record) :
    Ensures E (s.step scope blockCount r) (s.Steps scope r) :=
  (Abides.bodyStep (T := .safe) hs hu blockCount r (fun _ => trivial)
    fun _ => ⟨rfl, trivial⟩).ensures Terms.within_safe

/-! ## Single assignment -/

namespace Operation

theorem ssaWrites_instruction (op : Operation) (data : DataType) (ssa : UInt32)
    (location : Location) : (op.instruction data ssa location).ssaWrites = [ssa.toNat] := by
  cases h : op.place <;> simp [Instruction.ssaWrites, instruction, h, ResultPlace.destinations,
    DstParam.discarded, register, Register.ssaId?]

theorem eq_of_mem_dst {op : Operation} {data : DataType} {ssa : UInt32} {location : Location}
    {dst : DstParam} (h : dst ∈ (op.instruction data ssa location).dst) :
    dst.register = op.register data ssa ∨ dst = .discarded := by
  cases hp : op.place <;> simp [instruction, hp, ResultPlace.destinations] at h <;> grind

theorem forall_ssaReads_instruction {op : Operation} {n : Nat}
    (h : ∀ src ∈ op.src, src.register.Below n) (data : DataType) (ssa : UInt32)
    (location : Location) : ∀ id ∈ (op.instruction data ssa location).ssaReads, id < n := by
  refine Instruction.forall_ssaReads rfl h fun dst hdst index hindex => Index.below_of_fixed ?_
  rcases eq_of_mem_dst hdst with hdst | rfl
  · rw [hdst] at hindex
    obtain rfl := List.mem_singleton.mp hindex
    rfl
  · cases hindex

end Operation

namespace BodyState

structure Scheduled (n : Nat) (s : BodyState) : Prop where
  values : ∀ v ∈ s.values, v.Below s.ssaCount.toNat
  instructions : SingleAssignment s.instructions.toList s.ssaCount.toNat
  count : s.ssaCount.toNat ≤ n

/-- What holds of a body after at most `n` records. Registers are numbered in 32 bits, so that the
discipline depends on the number of records. -/
structure Sound (types : TypeTable) (n : Nat) (s : BodyState) : Prop where
  usable : s.values.Usable types
  scheduled : n < UInt32.size → s.Scheduled n

variable {types : TypeTable} {n : Nat} {s s' : BodyState} {isCall : Bool} {v : Value}

theorem Sound.next (h : s.Sound types n) (hu : s'.values.Usable types)
    (hnext : n + 1 < UInt32.size → s.Scheduled n → s'.Scheduled (n + 1)) :
    s'.Sound types (n + 1) :=
  ⟨hu, fun hn => hnext hn (h.scheduled (Nat.lt_of_succ_lt hn))⟩

theorem mem_values_define {v' : Value} (h : v' ∈ (s.define isCall v).values) :
    v' ∈ s.values ∨ v' = v := by
  unfold define at h
  split at h
  · exact .inl h
  · exact Array.mem_push.mp h

@[simp] theorem ssaCount_define : (s.define isCall v).ssaCount = s.ssaCount := by
  unfold define
  split <;> rfl

theorem usable_define (h : s.values.Usable types) (hv : v.Usable types) :
    (s.define isCall v).values.Usable types := by
  intro v' hmem
  rcases mem_values_define hmem with hmem | rfl
  · exact h v' hmem
  · exact hv

namespace Scheduled

variable (h : s.Scheduled n)
include h

theorem below_define {m : Nat} (hm : s.ssaCount.toNat ≤ m) (hv : v.Below m) :
    ∀ v' ∈ (s.define isCall v).values, v'.Below m := by
  intro v' hmem
  rcases mem_values_define hmem with hmem | rfl
  · exact (h.values v' hmem).mono hm
  · exact hv

theorem value (hv : v.Below s.ssaCount.toNat) : (s.define isCall v).Scheduled (n + 1) := by
  refine ⟨?_, ?_, ?_⟩
  · rw [ssaCount_define]
    exact h.below_define (Nat.le_refl _) hv
  · rw [ssaCount_define, instructions_define]
    exact h.instructions
  · rw [ssaCount_define]
    exact Nat.le_succ_of_le h.count

theorem operation (hn : n + 1 < UInt32.size) {op : Operation}
    (hop : ∀ src ∈ op.src, src.register.Below s.ssaCount.toNat) (data : DataType)
    (location : Location) :
    Scheduled (n + 1)
      { s.define isCall (op.value data s.ssaCount) with
        instructions := s.instructions.push (op.instruction data s.ssaCount location)
        ssaCount := s.ssaCount + 1 } := by
  -- The only place where a number is taken, and so the only one where it could wrap round.
  have hcount := h.count
  have hnext : (s.ssaCount + 1).toNat = s.ssaCount.toNat + 1 := by
    rw [UInt32.toNat_add]
    exact Nat.mod_eq_of_lt (Nat.lt_of_le_of_lt (Nat.succ_le_succ hcount) hn)
  have hresult : (op.register data s.ssaCount).Below (s.ssaCount.toNat + 1) := by
    refine Register.below_iff.mpr ⟨?_, ?_⟩
    · simp [Operation.register, Register.ssaId?]
    · intro index hindex
      obtain rfl := List.mem_singleton.mp hindex
      exact Index.below_of_fixed rfl
  refine ⟨?_, ?_, ?_⟩
  · simp only [hnext]
    exact h.below_define (Nat.le_succ _) (Value.below_register hresult)
  · simp only [hnext, Array.toList_push]
    exact h.instructions.concat (Operation.forall_ssaReads_instruction hop data _ location)
      (op.ssaWrites_instruction data _ location)
  · simp only [hnext]
    exact Nat.succ_le_succ hcount

theorem store {dst : DstParam} {src : SrcParam} {type : Option TypeId}
    (hl : (Lowered.store dst src type).Below s.ssaCount.toNat) (location : Location) :
    Scheduled (n + 1)
      { s.define isCall { type, kind := .register .unknown } with
        instructions :=
          s.instructions.push { opcode := .mov, location, dst := [dst], src := [src] } } := by
  obtain ⟨hwrite, hindices, hsrc⟩ := hl
  refine ⟨?_, ?_, ?_⟩
  · simp only [ssaCount_define]
    exact h.below_define (Nat.le_refl _)
      (Value.below_register (Register.below_of_ne_ssa nofun (by simp [Register.unknown])))
  · simp only [ssaCount_define, Array.toList_push]
    refine h.instructions.concat (k := 0) (Instruction.forall_ssaReads rfl ?_ ?_) ?_
    · simpa using hsrc
    · simpa using hindices
    · simp [Instruction.ssaWrites, hwrite]
  · simp only [ssaCount_define]
    exact Nat.le_succ_of_le h.count

end Scheduled

end BodyState

/-! ## Bodies -/

namespace BodyState

variable {scope : FunctionScope} {values : Values} {n temps arrays : Nat} {s s' : BodyState}
  {r : Record}

theorem Sound.step (hs : scope.Sound) (h : s.Sound scope.types n) (hstep : s.Steps scope r s') :
    s'.Sound scope.types (n + 1) := by
  cases hstep with
  | ret =>
    exact h.next h.usable fun _ hsched =>
      ⟨hsched.values, hsched.instructions, Nat.le_succ_of_le hsched.count⟩
  | value _ hl =>
    exact h.next (usable_define h.usable (hl.usable hs h.usable)) fun _ hsched =>
      hsched.value (hl.below hsched.values hs)
  | operation _ hl data location =>
    have husable := hl.usable hs h.usable
    exact h.next (usable_define h.usable (Value.usable_register husable _)) fun hn hsched =>
      hsched.operation hn (hl.below hsched.values hs) data location
  | store _ hl location =>
    have husable := hl.usable hs h.usable
    exact h.next (usable_define h.usable (Value.usable_register husable _)) fun _ hsched =>
      hsched.store (hl.below hsched.values hs) location
  | undefined htype data =>
    refine h.next (usable_define h.usable (Value.usable_register htype _)) fun _ hsched =>
      hsched.value (Value.below_register ?_)
    exact Register.below_of_ne_ssa nofun (by simp)

/-- The values that a body starts with are of module scope, and so read no register. -/
theorem Reaches.sound (hs : scope.Sound) (hv : ∀ v ∈ values, v.Static scope.types temps arrays)
    {before : List Record} (h : Reaches scope values before s) :
    s.Sound scope.types before.length := by
  induction h with
  | start =>
    exact ⟨fun v hmem => (hv v hmem).usable, fun _ =>
      ⟨fun v hmem => (hv v hmem).below _, .nil, Nat.zero_le _⟩⟩
  | @next before s s' r h hstep ih =>
    rw [List.length_append, List.length_singleton]
    exact ih.step hs ((Ensures.bodyStep hs ih.usable 1 r).of_yields (E := .anyhow) hstep)

theorem Reaches.steps (hs : scope.Sound) (hv : ∀ v ∈ values, v.Static scope.types temps arrays)
    {before : List Record} (h : Reaches scope values before s)
    (hstep : Yields (s.step scope 1 r) s') : s.Steps scope r s' :=
  (Ensures.bodyStep hs (h.sound hs hv).usable 1 r).of_yields (E := .anyhow) hstep

end BodyState

namespace Ensures

open BodyState

variable {E : GivesUp} {scope : FunctionScope}

theorem checkBlockCount (r : Record) :
    Ensures E (FunctionBody.checkBlockCount r) fun count => count = 1 := by
  unfold FunctionBody.checkBlockCount
  split
  · exact .reject rfl
  · exact .reject rfl
  · exact .pure rfl
  · exact .reject rfl

theorem findDefinition (hc : scope.types.Closed) {values : Values}
    (hu : values.Usable scope.types) :
    ∃ found, FunctionBody.findDefinition scope.types values = some found ∧
      ∀ index, found = some index → index < values.size := by
  obtain ⟨found, hfound⟩ := TypeTable.exists_findM?
    (p := fun i => do FunctionBody.isDefinition scope.types (← values[i]?))
    (l := List.range values.size) fun i hi => by
      have hlt := List.mem_range.mp hi
      obtain ⟨signature, hsignature, -⟩ := (hu _ (Array.getElem_mem hlt)).signature hc
      exact ⟨_, by
        rw [Array.getElem?_eq_getElem hlt]
        simp only [Option.bind_eq_bind, Option.bind_some, FunctionBody.isDefinition, hsignature]
        rfl⟩
  refine ⟨found, hfound, ?_⟩
  rintro index rfl
  exact List.mem_range.mp (TypeTable.of_findM?_eq_some hfound).1

/-- A body is what its records lead to. The first of them counts the blocks. -/
theorem bodyDecode (hs : scope.Sound) {values : Values} {temps arrays : Nat}
    (hv : ∀ v ∈ values, v.Static scope.types temps arrays) (block : Block) :
    Ensures E (FunctionBody.decode scope values block) fun body =>
      ∃ s, Reaches scope values block.records.tail s ∧
        body = { instructions := s.instructions.toList, ssaCount := s.ssaCount } := by
  have hu : values.Usable scope.types := fun v hmem => (hv v hmem).usable
  obtain ⟨found, hfound, hindex⟩ := findDefinition hs.types hu
  refine (present ⟨_, hfound⟩).bind fun found' hfound' => (orReject rfl).bind fun index hsome => ?_
  rw [hfound] at hfound'
  have hlt := hindex index ((Option.some.inj hfound').trans hsome)
  obtain ⟨signature, hsignature, -⟩ := (hu _ (Array.getElem_mem hlt)).signature hs.types
  refine (present ⟨_, Array.getElem?_eq_getElem hlt⟩).bind fun definition hdefinition => ?_
  rw [Array.getElem?_eq_getElem hlt] at hdefinition
  cases hdefinition
  refine (present ⟨_, hsignature⟩).bind fun _ _ => (rejectIf rfl).bind fun _ _ => ?_
  split
  · rename_i first second rest hrecords
    rw [hrecords, List.tail_cons]
    refine (checkBlockCount first).bind fun _ hcount => ?_
    subst hcount
    have hstart : ∃ before, second :: rest = before ++ (second :: rest) ∧
        Reaches scope values before { values } := ⟨[], rfl, .start⟩
    refine (foldRecords (fun _ after s =>
      ∃ before, second :: rest = before ++ after ∧ Reaches scope values before s)
      (fun _ r after s ⟨before, hsplit, h⟩ => ?_) hstart).bind fun s h => ?_
    · refine (bodyStep hs (h.sound hs hv).usable 1 r).yields.mono fun s' hs' => ?_
      exact ⟨before ++ [r], by simp [hsplit], h.next hs'.2⟩
    · obtain ⟨before, hsplit, h⟩ := h
      rw [List.append_nil] at hsplit
      split
      · exact .pure ⟨s, hsplit ▸ h, rfl⟩
      · exact .reject rfl
  · exact .reject rfl

end Ensures

/-! ## Modules -/

namespace Functions

mutual

/-- While `block` is decoded, a block `b` in it is met whose body starts with `values`. -/
inductive MeetsBody (scope : FunctionScope) :
    (level : Nat) → State → (block : Block) → (values : Values) → (b : Block) → Prop where
  | here {level : Nat} {s inner : State} {header : BlockHeader} {records : List Record}
      {blocks : List Block} (hkind : BlockKind.ofId? header.id = some .function)
      (hinner : Yields (decodeAll scope (level + 1) s blocks) inner) :
      MeetsBody scope level s (.mk header records blocks) inner.pool.values
        (.mk header records blocks)
  | inside {level : Nat} {s : State} {header : BlockHeader} {records : List Record}
      {blocks : List Block} {values : Values} {b : Block}
      (h : MeetsBodyIn scope (level + 1) s blocks values b) :
      MeetsBody scope level s (.mk header records blocks) values b

inductive MeetsBodyIn (scope : FunctionScope) :
    (level : Nat) → State → (blocks : List Block) → (values : Values) → (b : Block) → Prop where
  | first {level : Nat} {s : State} {block : Block} {blocks : List Block} {values : Values}
      {b : Block} (h : MeetsBody scope level s block values b) :
      MeetsBodyIn scope level s (block :: blocks) values b
  | later {level : Nat} {s s' : State} {block : Block} {blocks : List Block} {values : Values}
      {b : Block} (hfirst : Yields (decode scope level s block) s')
      (h : MeetsBodyIn scope level s' blocks values b) :
      MeetsBodyIn scope level s (block :: blocks) values b

end

variable {scope : FunctionScope}

mutual

theorem MeetsBody.mem_all {level : Nat} {s : State} {block : Block} {values : Values} {b : Block} :
    MeetsBody scope level s block values b → b ∈ block.all
  | .here _ _ => by
    rw [Block.all]
    exact List.mem_cons_self
  | .inside h => by
    rw [Block.all]
    exact List.mem_cons_of_mem _ h.mem_allOf

theorem MeetsBodyIn.mem_allOf {level : Nat} {s : State} {blocks : List Block} {values : Values}
    {b : Block} : MeetsBodyIn scope level s blocks values b → b ∈ Block.allOf blocks
  | .first h => by
    rw [Block.allOf]
    exact List.mem_append_left _ h.mem_all
  | .later _ h => by
    rw [Block.allOf]
    exact List.mem_append_right _ h.mem_allOf

end

/-- `body` is decoded from `b`, with values of module scope. -/
structure DecodedFrom (scope : FunctionScope) (temps : Nat) (values : Values) (b : Block)
    (body : FunctionBody) : Prop where
  static : ∃ arrays, ∀ v ∈ values, v.Static scope.types temps arrays
  yields : Yields (FunctionBody.decode scope values b) body

/-- From `s` to `s'` the constants stay of module scope, and a body that is new is decoded from a
block that is met. -/
structure State.Follows (scope : FunctionScope) (temps least : Nat)
    (meets : Values → Block → Prop) (s s' : State) : Prop where
  pool : s'.pool.Sound scope.types temps least
  body : ∀ body, s'.body = some body →
    s.body = some body ∨ ∃ values b, meets values b ∧ DecodedFrom scope temps values b body

theorem State.Follows.mono {temps least : Nat} {meets meets' : Values → Block → Prop}
    {s s' : State} (h : s.Follows scope temps least meets s')
    (hmeets : ∀ values b, meets values b → meets' values b) :
    s.Follows scope temps least meets' s' := by
  refine ⟨h.pool, fun body hbody => (h.body body hbody).imp_right ?_⟩
  rintro ⟨values, b, hmeet, hdecoded⟩
  exact ⟨values, b, hmeets values b hmeet, hdecoded⟩

theorem State.Follows.trans {temps least least' : Nat} {meets : Values → Block → Prop}
    {s s' s'' : State} (h : s.Follows scope temps least meets s')
    (h' : s'.Follows scope temps least' meets s'') : s.Follows scope temps least' meets s'' := by
  refine ⟨h'.pool, fun body hbody => ?_⟩
  rcases h'.body body hbody with hbody | hnew
  · exact h.body body hbody
  · exact .inr hnew

end Functions

theorem Values.mem_of_mem_take {values : Values} {n : Nat} {v : Value} (h : v ∈ values.take n) :
    v ∈ values := by
  rw [Array.mem_def, Array.take_eq_extract, Array.toList_extract] at h
  exact Array.mem_def.mpr (List.mem_of_mem_take h)

namespace Ensures

open Functions

variable {E : GivesUp} {scope : FunctionScope} {temps : Nat}

mutual

theorem functionsDecode (hs : scope.Sound) (level least : Nat) (s : State)
    (h : s.pool.Sound scope.types temps least) :
    (block : Block) → Ensures E (Functions.decode scope level s block)
      (s.Follows scope temps least (MeetsBody scope level s block))
  | .mk header records blocks => by
    rw [Functions.decode]
    -- What is in the block may add arrays, but takes none away.
    have hstart : s.pool.Sound scope.types temps s.pool.arrays.size :=
      ⟨h.values, h.complete, Nat.le_refl _⟩
    refine (functionsDecodeAll hs (level + 1) _ s hstart blocks).yields.bind
      fun inner ⟨hinner, hyields⟩ => (setLine _).bind fun _ _ => (setColumn _).bind fun _ _ => ?_
    have hleast : least ≤ inner.pool.arrays.size := Nat.le_trans h.arrays hinner.pool.arrays
    have hsame : inner.pool.Sound scope.types temps least :=
      ⟨hinner.pool.values, hinner.pool.complete, hleast⟩
    have hinside : s.Follows scope temps _ (MeetsBody scope level s (.mk header records blocks))
        inner := hinner.mono fun _ _ => MeetsBody.inside
    split
    · split
      · exact (constantsDecode hs.types hsame _).bind fun pool hpool => .pure ⟨hpool, hinside.body⟩
      · exact .pure ⟨hsame, hinside.body⟩
    · rename_i hkind
      refine Ensures.bind (P := DecodedFrom scope temps inner.pool.values
        (.mk header records blocks)) ?_ fun body hbody =>
          .pure ⟨⟨fun v hv => ?_, fun v hv => ?_, hleast⟩, ?_⟩
      · unfold decodeBody
        split
        · exact .reject rfl
        · exact (bodyDecode hs hinner.pool.values _).yields.mono fun body hbody =>
            ⟨⟨_, hinner.pool.values⟩, hbody.2⟩
      · exact hinner.pool.values v (Values.mem_of_mem_take hv)
      · exact hinner.pool.complete v (Values.mem_of_mem_take hv)
      · rintro _ ⟨⟩
        exact .inr ⟨_, _, .here hkind hyields, hbody⟩
    · exact .pure ⟨hsame, hinside.body⟩

theorem functionsDecodeAll (hs : scope.Sound) (level least : Nat) (s : State)
    (h : s.pool.Sound scope.types temps least) :
    (blocks : List Block) → Ensures E (Functions.decodeAll scope level s blocks)
      (s.Follows scope temps least (MeetsBodyIn scope level s blocks))
  | [] => by
    rw [Functions.decodeAll]
    exact .pure ⟨h, fun _ hbody => .inl hbody⟩
  | block :: blocks => by
    rw [Functions.decodeAll]
    refine (functionsDecode hs level least s h block).yields.bind fun s' ⟨hs', hyields⟩ => ?_
    refine (functionsDecodeAll hs level least s' hs'.pool blocks).mono fun s'' hs'' => ?_
    exact (hs'.mono fun _ _ => MeetsBodyIn.first).trans
      (hs''.mono fun _ _ => MeetsBodyIn.later hyields)

end

end Ensures

end Dxil
