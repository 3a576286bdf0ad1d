import Dxil.Proofs.Module.Constants
import Dxil.Proofs.Shader.Layout

/-!
# Dxil.Proofs.Module.Globals

Functions and global variables of a module.

* `Globals.Step` : what a record of a module can do.
* `Abides.globalsAdd` : it does nothing else.
* `Globals.State.Sound` : the values are of module scope, the register arrays are declared in the
  order of their numbers, and pending initial data belongs to a declaration that exists.
* `Ensures.globalsDecode` : all values of module scope, with the declarations of the register
  arrays.
-/

namespace Dxil

/-- The number of operands that a record may have. It warns of more. -/
def ModuleCode.most : ModuleCode → Nat
  | version => 1
  | globalVar => 13
  | function => 15

namespace Globals

/-- What a record of a module can do. -/
inductive Step (types : TypeTable) (s : State) (r : Record) : State → Prop where
  | skip (hcode : ModuleCode.ofNat? r.code.toNat ∈ [none, some .version]) : Step types s r s
  | function {pointer pointee result : TypeId} {params : List TypeId} {space : UInt64}
      (hcode : ModuleCode.ofNat? r.code.toNat = some .function)
      (hpointer : types.get? pointer = some (.pointer pointee space))
      (hfunction : types.get? pointee = some (.function result params)) (decl : FunctionDecl) :
      Step types s r
        { s with values := s.values.push { type := some pointer, kind := .function decl } }
  | array {pointer : TypeId} {temp : IndexableTemp}
      (hcode : ModuleCode.ofNat? r.code.toNat = some .globalVar) (hpointer : pointer < types.size)
      (hregister : temp.register = UInt32.ofNat s.instructions.size)
      (hdata : temp.initialiser = none) (initialiser : UInt64) (location : Location) :
      Step types s r (s.declare pointer temp initialiser location)

end Globals

namespace Abides

open Globals

variable {T : Terms} {types : TypeTable} {r : Record}

theorem skipOperands {is : List Nat} (h : ∀ i ∈ is, i < r.operands.length) :
    Abides T (is.forM (Dxil.skipOperand r)) fun _ => True :=
  forM fun i hi => skipOperand (h i hi)

section

variable (hno : T.leaves none)
include hno

theorem checkVersion (hcounts : T.Counts r 1) :
    Abides T (Globals.checkVersion r) fun _ => True := by
  refine (checkOperands r 1 1 (fun _ => hno) hcounts).bind fun _ h => (operand (by omega)).bind
    fun version _ => ?_
  split
  · exact .pure trivial
  · exact .reject rfl hno

theorem checkAddressSpace (space : UInt64) :
    Abides T (Globals.checkAddressSpace space) fun _ => True := by
  unfold Globals.checkAddressSpace
  split
  · exact .pure trivial
  · exact .reject rfl hno
  · exact .reject rfl hno

theorem variableType {declared : TypeId} (h : declared < types.size) (index : Nat)
    (flags : UInt64) :
    Abides T (Globals.variableType types index declared flags) fun e =>
      (types.Closed → e.1 < types.size) ∧ e.2.1 < types.size := by
  unfold Globals.variableType
  split
  · exact (lookupPointer rfl hno fun hnot => absurd h hnot).bind fun pointer hp =>
      .pure ⟨fun _ => h, TypeTable.lt_of_get? hp⟩
  · refine (typeOf fun hnot => absurd h hnot).bind fun type htype => ?_
    split
    · exact .pure ⟨fun hc => hc.references declared _ htype _ (by simp [Ty.references]), h⟩
    · exact .reject rfl hno

section

variable (hd : ¬ types.Closed → T.dangles)
include hd

theorem declareFunction {s : State} (symbols : SymbolTable) (hsilent : T.silent)
    (hcounts : T.Counts r 15) (hcode : ModuleCode.ofNat? r.code.toNat = some .function) :
    Abides T (Globals.declareFunction types symbols s r) (Step types s r) := by
  refine (checkOperands r 8 15 (fun _ => hno) hcounts).bind fun _ h => (operand (by omega)).bind
    fun id _ => (lookup hno).bind fun type htype => (typeOf fun hnot => absurd htype.2 hnot).bind
    fun kind hkind => (present fun hnone => ?_).bind fun found hfound => ?_
  · obtain ⟨_, hsome⟩ := TypeTable.exists_pointerTo 0 htype.2
    cases hsome.symm.trans hnone
  split
  · rename_i result params pointer
    refine (skipOperands (by simp; omega)).bind fun _ _ => (typeOf fun hnot => hd fun hc =>
      hnot (hc.references type _ hkind result (by simp [Ty.references]))).bind fun _ _ =>
      (operand (by omega)).bind fun _ _ =>
      .pure (.function hcode (TypeTable.get?_of_pointerTo hfound) hkind _)
  · exact .abandon hsilent hno

theorem variableLayout {type : TypeId} (h : types.Closed → type < types.size) (index : Nat) :
    Abides T (Globals.variableLayout types index type) fun _ => True := by
  refine (typeOf fun hnot => hd fun hc => hnot (h hc)).bind fun kind hkind => ?_
  split
  · refine (typeOf fun hnot => hd fun hc => hnot (hc.references type _ hkind _ ?_)).bind
      fun _ _ => ?_
    · simp [Ty.references]
    split
    · exact .pure trivial
    · exact .reject rfl hno
  · split
    · exact .pure trivial
    · exact .reject rfl hno

theorem declareVariable {s : State} (hcounts : T.Counts r 13)
    (hcode : ModuleCode.ofNat? r.code.toNat = some .globalVar) :
    Abides T (Globals.declareVariable types s r) (Step types s r) :=
  (checkOperands r 6 13 (fun _ => hno) hcounts).bind fun _ h => (operand (by omega)).bind
    fun id _ => (lookup hno).bind fun _ hdeclared => (operand (by omega)).bind fun flags _ =>
    (variableType hno hdeclared.2 _ flags).bind fun _ htypes =>
    (variableLayout hno hd htypes.1 _).bind fun _ _ => (operand (by omega)).bind
    fun initialiser _ => (skipOperands (by simp; omega)).bind fun _ _ =>
    (operand (by omega)).bind fun _ _ => (rejectIf rfl fun _ => hno).bind fun _ _ =>
    (checkAddressSpace hno _).bind fun _ _ => here.bind fun location _ =>
    .pure (.array hcode htypes.2 rfl rfl initialiser location)

/-- The error of a function that is not declared comes after the one that it was given up for. -/
theorem globalsAdd (symbols : SymbolTable) (s : State) (hnotes : ∀ f, f.isError = true → T.notes f)
    (hcounts : ∀ code, ModuleCode.ofNat? r.code.toNat = some code → T.Counts r code.most) :
    Abides T (Globals.add types symbols s r) (Step types s r) := by
  unfold Globals.add
  split <;> rename_i hcode
  · exact (checkVersion hno (hcounts _ hcode)).bind fun _ _ => .pure (.skip (by simp [hcode]))
  · exact .orReport rfl hnotes
      (declareFunction (T := T.deferred) hno hd symbols trivial (hcounts _ hcode) hcode)
  · exact declareVariable hno hd (hcounts _ hcode) hcode
  · exact .pure (.skip (by simp [hcode]))

end

end

end Abides

namespace Globals

/-- The register arrays are declared in the order of their numbers. -/
def DeclaresTemps (arrays : Nat) (is : Array Instruction) : Prop :=
  ∀ (k : Nat) (i : Instruction), is[k]? = some i → i.DeclaresTemp arrays (UInt32.ofNat k)

structure State.Sound (types : TypeTable) (n : Nat) (s : State) : Prop where
  values : ∀ v ∈ s.values, v.Static types s.instructions.size 0
  complete : s.values.Complete types
  instructions : DeclaresTemps 0 s.instructions
  pending : ∀ e ∈ s.pending, e.1 < s.instructions.size
  count : s.instructions.size ≤ n

variable {types : TypeTable} {n : Nat} {s : State}

theorem State.Sound.skip (h : s.Sound types n) : s.Sound types (n + 1) :=
  ⟨h.values, h.complete, h.instructions, h.pending, Nat.le_succ_of_le h.count⟩

theorem State.Sound.function (h : s.Sound types n) {pointer pointee result : TypeId}
    {params : List TypeId} {space : UInt64}
    (hp : types.get? pointer = some (.pointer pointee space))
    (hf : types.get? pointee = some (.function result params)) (decl : FunctionDecl) :
    State.Sound types (n + 1)
      { s with values := s.values.push { type := some pointer, kind := .function decl } } := by
  refine ⟨fun v hv => ?_, h.complete.push ⟨rfl, fun _ _ => ?_⟩, h.instructions, h.pending,
    Nat.le_succ_of_le h.count⟩
  · rcases Array.mem_push.mp hv with hv | rfl
    · exact h.values v hv
    · exact ⟨TypeTable.defines_some (TypeTable.lt_of_get? hp), by rintro _ ⟨⟩, by rintro _ ⟨⟩,
        by rintro _ ⟨⟩, fun _ => ⟨_, hp, rfl⟩, by rintro _ ⟨⟩⟩
  · simp [Value.signature, TypeTable.pointedFunction, hp, hf]

/-- The new register array is the last one, and its register is counted from zero. -/
theorem State.Sound.declare (h : s.Sound types n) {pointer : TypeId} (hp : pointer < types.size)
    {temp : IndexableTemp} (htemp : temp.register = UInt32.ofNat s.instructions.size)
    (hdata : temp.initialiser = none) (initialiser : UInt64) (location : Location) :
    (s.declare pointer temp initialiser location).Sound types (n + 1) := by
  refine ⟨fun v hv => ?_, h.complete.push ⟨rfl, nofun⟩, fun k i hi => ?_, fun e he => ?_, ?_⟩
  · simp only [State.declare, Array.size_push]
    rcases Array.mem_push.mp hv with hv | rfl
    · exact (h.values v hv).mono (by omega) (Nat.le_refl 0)
    · refine Value.static_register hp (.temp rfl _ [] rfl (by simp) ?_ (by simp)) nofun
      rw [htemp, UInt32.toNat_ofNat']
      exact Nat.lt_succ_of_le (Nat.mod_le _ _)
  · rw [State.declare, Array.getElem?_push] at hi
    by_cases hlast : k = s.instructions.size
    · rw [if_pos hlast] at hi
      cases hi
      exact ⟨rfl, ⟨rfl, rfl⟩, temp, rfl, hlast ▸ htemp, by simp [hdata]⟩
    · rw [if_neg hlast] at hi
      exact h.instructions k i hi
  · simp only [State.declare, Array.size_push] at he ⊢
    split at he
    · exact Nat.lt_succ_of_lt (h.pending e he)
    · rcases Array.mem_push.mp he with he | rfl
      · exact Nat.lt_succ_of_lt (h.pending e he)
      · exact Nat.lt_succ_self _
  · simp only [State.declare, Array.size_push]
    exact Nat.succ_le_succ h.count

theorem Step.sound {r : Record} {s' : State} (h : Step types s r s') (hs : s.Sound types n) :
    s'.Sound types (n + 1) := by
  cases h with
  | skip => exact hs.skip
  | function hcode hpointer hfunction decl => exact hs.function hpointer hfunction decl
  | array hcode hpointer hregister hdata initialiser location =>
    exact hs.declare hpointer hregister hdata initialiser location

theorem mem_of_initialiser? {values : Values} {index : UInt64} {n : Nat}
    (h : initialiser? values index = some (some n)) : ∃ v ∈ values, v.kind = .array n := by
  unfold initialiser? at h
  cases hv : values.at? index with
  | none => simp [hv] at h
  | some v =>
    simp only [hv] at h
    refine ⟨v, Values.mem_of_at? hv, ?_⟩
    cases hkind : v.kind with
    | array i =>
      simp only [hkind, Option.some.injEq] at h
      rw [h]
    | _ => simp [hkind] at h

end Globals

theorem Instruction.DeclaresTemp.initialise {arrays : Nat} {register : UInt32} {i : Instruction}
    (h : i.DeclaresTemp arrays register) {data : Option Nat}
    (hdata : ∀ n, data = some n → n < arrays) :
    (Globals.initialise i data).DeclaresTemp arrays register := by
  obtain ⟨temp, htemp, hregister, -⟩ := h.declares
  simp only [Globals.initialise, htemp]
  exact ⟨h.opcode, h.operands, _, rfl, hregister, hdata⟩

theorem Instruction.DeclaresTemp.mono {arrays arrays' : Nat} {register : UInt32} {i : Instruction}
    (h : i.DeclaresTemp arrays register) (hle : arrays ≤ arrays') :
    i.DeclaresTemp arrays' register := by
  obtain ⟨temp, htemp, hregister, hdata⟩ := h.declares
  exact ⟨h.opcode, h.operands, temp, htemp, hregister,
    fun n hn => Nat.lt_of_lt_of_le (hdata n hn) hle⟩

/-! ## Decoding -/

namespace Ensures

open Globals

variable {E : GivesUp} {types : TypeTable} {n : Nat} {s : State}

theorem globalsAdd (hc : types.Closed) (symbols : SymbolTable) (s : State) (r : Record) :
    Ensures E (Globals.add types symbols s r) (Step types s r) :=
  (Abides.globalsAdd (T := .safe) ⟨rfl, trivial⟩ (fun hnot => hnot hc) symbols s
    (fun _ _ => trivial) fun _ _ _ _ => trivial).ensures Terms.within_safe

/-- Declarations keep their number and register while initial data is resolved. -/
theorem resolve {values : Values} {arrays : Nat}
    (harrays : ∀ v ∈ values, ∀ i, v.kind = .array i → i < arrays)
    {instructions : Array Instruction} {e : Nat × UInt64} (hlt : e.1 < instructions.size)
    (htemps : DeclaresTemps arrays instructions) :
    Ensures E (Globals.resolve values instructions e) fun is =>
      is.size = instructions.size ∧ DeclaresTemps arrays is := by
  unfold Globals.resolve
  cases hdata : initialiser? values e.2 with
  | none => exact (report _).bind fun _ _ => .pure ⟨rfl, htemps⟩
  | some data =>
    refine (present ⟨_, Array.getElem?_eq_getElem hlt⟩).bind fun i hi => .pure ⟨by simp, ?_⟩
    intro k j hj
    rw [Array.getElem?_setIfInBounds] at hj
    by_cases hk : e.1 = k
    · subst hk
      rw [if_pos rfl, if_pos hlt] at hj
      cases hj
      refine (htemps e.1 i hi).initialise fun n hn => ?_
      obtain ⟨v, hv, hkind⟩ := mem_of_initialiser? (hn ▸ hdata)
      exact harrays v hv n hkind
    · rw [if_neg hk] at hj
      exact htemps k j hj

theorem resolveAll {values : Values} {arrays : Nat}
    (harrays : ∀ v ∈ values, ∀ i, v.kind = .array i → i < arrays)
    {pending : List (Nat × UInt64)} {instructions : Array Instruction}
    (hpending : ∀ e ∈ pending, e.1 < instructions.size)
    (htemps : DeclaresTemps arrays instructions) :
    Ensures E (pending.foldlM (Globals.resolve values) instructions) fun is =>
      is.size = instructions.size ∧ DeclaresTemps arrays is := by
  induction pending generalizing instructions with
  | nil => exact .pure ⟨rfl, htemps⟩
  | cons e pending ih =>
    rw [List.foldlM_cons]
    refine (resolve harrays (hpending e List.mem_cons_self) htemps).bind fun is his => ?_
    have hrest : ∀ e ∈ pending, e.1 < is.size :=
      fun e he => his.1 ▸ hpending e (List.mem_cons_of_mem _ he)
    exact (ih hrest his.2).mono fun _ h => ⟨h.1.trans his.1, h.2⟩

/-- Every register array comes from a record of its own. -/
theorem globalsDecode (hc : types.Closed) (symbols : SymbolTable) (root : Block) :
    Ensures .loudly (Globals.decode types symbols root) fun g =>
      g.pool.Sound types g.temps.length 0 ∧ g.temps.length ≤ root.records.length ∧
        ∀ (k : Nat) (i : Instruction), g.temps[k]? = some i →
          i.DeclaresTemp g.pool.arrays.size (UInt32.ofNat k) := by
  refine (setLine _).bind fun _ _ => ?_
  have hstart : State.Sound types 0 {} :=
    ⟨by simp, by simp [Values.Complete], by simp [DeclaresTemps], by simp, by simp⟩
  refine (foldRecords (fun n _ s => s.Sound types n)
    (fun _ r _ s hs => (globalsAdd hc symbols s r).mono fun _ hstep => hstep.sound hs)
    hstart).bind fun s hs => ?_
  have hvalues : ConstantPool.Sound types s.instructions.size 0 { values := s.values } :=
    ⟨hs.values, hs.complete, Nat.zero_le _⟩
  refine (constantsDecodeAll hc hvalues _).bind fun pool hpool => ?_
  have htemps : DeclaresTemps pool.arrays.size s.instructions :=
    fun k i hi => (hs.instructions k i hi).mono (Nat.zero_le _)
  refine (resolveAll (fun v hv => (hpool.values v hv).array)
    (fun e he => hs.pending e (by simpa using he)) htemps).bind fun is his => .pure ⟨?_, ?_, ?_⟩
  · simpa [his.1] using hpool
  · simpa [his.1] using hs.count
  · simpa [DeclaresTemps] using his.2

end Ensures

theorem Gives.globalsAdd (types : TypeTable) (symbols : SymbolTable) (s : Globals.State)
    (r : Record) : Gives (Globals.add types symbols s r) (Globals.Step types s r) :=
  (Abides.globalsAdd (T := .any) trivial (fun _ => trivial) symbols s (fun _ _ => trivial)
    fun _ _ _ _ => trivial).gives

end Dxil
