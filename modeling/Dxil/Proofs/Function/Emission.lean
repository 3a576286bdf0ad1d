import Dxil.Proofs.Function.Body

/-!
# Dxil.Proofs.Function.Emission

Every instruction of a body was emitted for one of its records.

* `FunctionBody.ComesTo` : a record that a body comes to, and the state it comes to it in.
* `BodyState.Emits` : the instruction that a record is turned into.
* `Functions.DecodedFrom.pushed`, `Functions.DecodedFrom.emitted` : a body has no other
  instructions.
* `Register.Resolved` : what the registers are that the values of a body are held by.
* `FunctionBody.Keeps` : what a body keeps true of the registers of its values.
* `FunctionBody.ComesTo.all` : whatever a body does, it is true of them.
-/

namespace Dxil

/-- A body that starts with `values` comes to record `r` in state `s`. -/
def FunctionBody.ComesTo (scope : FunctionScope) (values : Values) (records : List Record)
    (r : Record) (s : BodyState) : Prop :=
  ∃ before after, records = before ++ r :: after ∧ BodyState.Reaches scope values before s

namespace BodyState

/-- The instructions that a record can be turned into. -/
inductive Emits (scope : FunctionScope) (s : BodyState) (r : Record) : Instruction → Prop where
  | operation {code : FunctionCode} {op : Operation}
      (hl : Lowers scope s.values r code (.operation op)) (data : DataType)
      (location : Location) : Emits scope s r (op.instruction data s.ssaCount location)
  | store {code : FunctionCode} {dst : DstParam} {src : SrcParam} {type : Option TypeId}
      (hl : Lowers scope s.values r code (.store dst src type)) (location : Location) :
      Emits scope s r { opcode := .mov, location, dst := [dst], src := [src] }

variable {scope : FunctionScope} {values : Values} {s s' : BodyState} {r : Record}
  {i : Instruction} {records before after : List Record}

theorem Steps.pushed (h : s.Steps scope r s') (hi : i ∈ s'.instructions) :
    i ∈ s.instructions ∨ s'.instructions = s.instructions.push i := by
  cases h with
  | ret => exact .inl hi
  | value | undefined =>
    rw [instructions_define] at hi
    exact .inl hi
  | operation | store =>
    rcases Array.mem_push.mp hi with hi | rfl
    · exact .inl hi
    · exact .inr rfl

theorem Steps.emits (h : s.Steps scope r s') (hi : s'.instructions = s.instructions.push i) :
    s.Emits scope r i := by
  have hsize : s'.instructions.size = s.instructions.size + 1 := by
    rw [hi, Array.size_push]
  cases h with
  | ret => simp at hsize
  | value | undefined => simp [instructions_define] at hsize
  | operation _ hl data location =>
    obtain ⟨rfl, -⟩ := Array.push_eq_push.mp hi
    exact .operation hl data location
  | store _ hl location =>
    obtain ⟨rfl, -⟩ := Array.push_eq_push.mp hi
    exact .store hl location

theorem Reaches.pushed (hs : scope.Sound) {temps arrays : Nat}
    (hv : ∀ v ∈ values, v.Static scope.types temps arrays) (h : Reaches scope values before s)
    (hrecords : records = before ++ after) (hi : i ∈ s.instructions) :
    ∃ r s₁ s₂, FunctionBody.ComesTo scope values records r s₁ ∧ s₁.Steps scope r s₂ ∧
      s₂.instructions = s₁.instructions.push i := by
  induction h generalizing after with
  | start => simp at hi
  | @next before s s' r h hstep ih =>
    have hsplit : records = before ++ r :: after := by simp [hrecords]
    have hstep := h.steps hs hv hstep
    rcases hstep.pushed hi with hi | hpush
    · exact ih hsplit hi
    · exact ⟨r, s, s', ⟨before, after, hsplit, h⟩, hstep, hpush⟩

end BodyState

section

variable {scope : FunctionScope} {temps : Nat} {values : Values} {b : Block} {body : FunctionBody}
  (hs : scope.Sound) (h : Functions.DecodedFrom scope temps values b body) {i : Instruction}
  (hi : i ∈ body.instructions)
include hs h hi

theorem Functions.DecodedFrom.pushed :
    ∃ r s s', FunctionBody.ComesTo scope values b.records.tail r s ∧ s.Steps scope r s' ∧
      s'.instructions = s.instructions.push i := by
  obtain ⟨arrays, hstatic⟩ := h.static
  obtain ⟨s, hreaches, rfl⟩ := (Ensures.bodyDecode hs hstatic b).of_yields (E := .anyhow) h.yields
  exact hreaches.pushed hs hstatic (List.append_nil _).symm (Array.mem_toList_iff.mp hi)

theorem Functions.DecodedFrom.emitted :
    ∃ r s, FunctionBody.ComesTo scope values b.records.tail r s ∧ s.Emits scope r i := by
  obtain ⟨r, s, s', hcomes, hstep, hpush⟩ := h.pushed hs hi
  exact ⟨r, s, hcomes, hstep.emits hpush⟩

end

/-! ## The registers of an instruction -/

namespace BodyState.Emits

variable {scope : FunctionScope} {s : BodyState} {r : Record} {i : Instruction}

theorem declaration (h : s.Emits scope r i) : i.declaration = none := by
  cases h <;> rfl

theorem dst (h : s.Emits scope r i) : ∀ dst ∈ i.dst,
    (dst.register.type ∈ [.ssa, .null] ∧ ∀ index ∈ dst.register.indices, index.relative = none) ∨
      ∃ element row column e, WritesOutput scope s.values r element row column e dst := by
  cases h with
  | @operation _ op _ data location =>
    intro dst hdst
    refine .inl ?_
    rcases Operation.eq_of_mem_dst hdst with hresult | rfl
    · rw [hresult]
      simp [Operation.register]
    · simp [DstParam.discarded]
  | store hl =>
    intro dst hdst
    obtain rfl := List.mem_singleton.mp hdst
    exact .inr hl.writesOutput

end BodyState.Emits

/-! ## The registers of values -/

/-- No input and no output. The index of a buffer is bound as `binds` says, and a register array is
one of `temps`. -/
structure Register.Resolved (temps : Nat) (binds : UInt32 → Value → Prop) (m : Register) :
    Prop where
  noSignature : m.type.isSignature = false
  buffer : m.type = .constBuffer → ∃ id index row,
    m.indices = [{ offset := id }, RegisterIndex.ofAddress index, row] ∧ binds id index
  temp : m.type = .idxTemp → ∃ first rest, m.indices = first :: rest ∧ rest.length ≤ 1 ∧
    first.offset.toNat < temps

namespace Register

variable {temps : Nat} {binds : UInt32 → Value → Prop}

theorem resolved_of_ne {m : Register} (hsignature : m.type.isSignature = false)
    (hbuffer : m.type ≠ .constBuffer) (htemp : m.type ≠ .idxTemp) : m.Resolved temps binds :=
  ⟨hsignature, fun h => absurd h hbuffer, fun h => absurd h htemp⟩

theorem resolved_constantBuffer {id : UInt32} {index : Value} (nonUniform : Bool)
    (h : binds id index) :
    (constantBuffer id (.ofAddress index) nonUniform).Resolved temps binds :=
  ⟨rfl, fun _ => ⟨id, index, _, rfl, h⟩, by simp [constantBuffer]⟩

theorem Static.resolved {m : Register} (h : m.Static temps) :
    m.All (Resolved temps binds) := by
  cases h with
  | constant constant =>
    refine all_of_fixed (resolved_of_ne ?_ ?_ ?_) (by simp [constant.indices])
    all_goals
      have htype := constant.type
      simp only [List.mem_cons, List.not_mem_nil, or_false] at htype
      rcases htype with h | h | h | h <;> simp [h, RegisterType.isSignature]
  | temp type first rest indices length offset fixed =>
    refine all_of_fixed ⟨?_, ?_, fun _ => ⟨first, rest, indices, length, offset⟩⟩ fixed
    · rw [type]
      rfl
    · simp [type]

end Register

/-- A buffer has all its indices, so that none is set as an element, and a register array has no
index for a row. -/
theorem Lasting.resolved (temps : Nat) (binds : UInt32 → Value → Prop) :
    Lasting (Register.Resolved temps binds) := by
  refine ⟨fun {a b} h htype hindices => ?_, fun {a index} h _ hwhole => ?_,
    fun {a index} h _ => ?_⟩
  · refine ⟨htype ▸ h.noSignature, ?_, ?_⟩
    · rw [htype, hindices]
      exact h.buffer
    · rw [htype, hindices]
      exact h.temp
  · refine ⟨h.noSignature, fun hbuffer => ?_, fun htemp => ?_⟩
    · obtain ⟨_, _, _, hindices, -⟩ := h.buffer hbuffer
      simp [hindices] at hwhole
    · obtain ⟨first, rest, hindices, -, hfirst⟩ := h.temp htemp
      exact ⟨first, [index], by simp [Register.withElement, hindices], Nat.le_refl _, hfirst⟩
  · refine ⟨h.noSignature, fun hbuffer => ?_, fun htemp => ?_⟩
    · obtain ⟨id, element, row, hindices, hbinds⟩ := h.buffer hbuffer
      exact ⟨id, element, index, by simp [hindices], hbinds⟩
    · obtain ⟨first, rest, hindices, hlength, hfirst⟩ := h.temp htemp
      refine ⟨first, rest, ?_, hlength, hfirst⟩
      have hlast : a.indices.length ≤ 2 := by simpa [hindices] using hlength
      exact (List.set_eq_of_length_le hlast).trans hindices

/-- The body has a call that makes a handle to an index of the descriptor with a number. -/
def FunctionBody.Binds (scope : FunctionScope) (values : Values) (records : List Record)
    (id : UInt32) (index : Value) : Prop :=
  ∃ r s, ComesTo scope values records r s ∧ MakesHandle scope s.values r id index

namespace BodyState

variable {scope : FunctionScope} {values : Values} {s s' : BodyState} {r : Record}
  {records before after : List Record}

/-- What holds of the registers of values goes on to hold of them, if it does of single-assignment
registers, undefined and unknown ones, and handles. -/
theorem Steps.all {ψ : Register → Prop} (h : s.Steps scope r s') (hψ : Lasting ψ)
    (hfixed : ∀ m : Register, m.type ∈ [.ssa, .undef, .invalid] →
      (∀ index ∈ m.indices, index.relative = none) → ψ m)
    (hhandle : ∀ id index nonUniform, MakesHandle scope s.values r id index →
      ψ (.constantBuffer id (.ofAddress index) nonUniform))
    (hv : ∀ v ∈ s.values, v.All ψ) : ∀ v ∈ s'.values, v.All ψ := by
  have hdefine {isCall : Bool} {v : Value} (hnew : v.All ψ) :
      ∀ v' ∈ (s.define isCall v).values, v'.All ψ := by
    intro v' hmem
    rcases mem_values_define hmem with hmem | rfl
    · exact hv v' hmem
    · exact hnew
  have hall {m : Register} (htype : m.type ∈ [.ssa, .undef, .invalid])
      (hindices : ∀ index ∈ m.indices, index.relative = none) : m.All ψ :=
    Register.all_of_fixed (hfixed m htype hindices) hindices
  have hunknown : ∀ index ∈ Register.unknown.indices, index.relative = none := by
    simp [Register.unknown]
  cases h with
  | ret => exact hv
  | value _ hl =>
    exact hdefine (hl.inherits hψ hv hhandle fun _ _ _ _ _ => .inr (hfixed _ (by decide) hunknown))
  | @operation _ op =>
    refine hdefine (Value.all_register (hall ?_ ?_))
    · simp [Operation.register]
    · simp [Operation.register]
  | store => exact hdefine (Value.all_register (hall (by decide) hunknown))
  | undefined htype data => exact hdefine (Value.all_register (hall (by simp) (by simp)))

end BodyState

/-- What a body keeps true of the registers that its values are held by: what lowering changes does
not matter, and it holds of the values that the body starts with, of results and of handles. -/
structure FunctionBody.Keeps (scope : FunctionScope) (values : Values) (records : List Record)
    (ψ : Register → Prop) : Prop where
  lasting : Lasting ψ
  start : ∀ v ∈ values, v.All ψ
  fixed : ∀ m : Register, m.type ∈ [.ssa, .undef, .invalid] →
    (∀ index ∈ m.indices, index.relative = none) → ψ m
  handle : ∀ r s id index nonUniform, ComesTo scope values records r s →
    MakesHandle scope s.values r id index → ψ (.constantBuffer id (.ofAddress index) nonUniform)

section

variable {scope : FunctionScope} {values : Values} {s : BodyState} {r : Record}
  {records before after : List Record} (hs : scope.Sound) {temps arrays : Nat}
  (hv : ∀ v ∈ values, v.Static scope.types temps arrays)
include hs hv

-- What is kept may depend on all records, those to come included, so that it stays true on the way.
theorem BodyState.Reaches.all {ψ : Register → Prop} (hψ : FunctionBody.Keeps scope values records ψ)
    (h : Reaches scope values before s) (hrecords : records = before ++ after) :
    ∀ v ∈ s.values, v.All ψ := by
  induction h generalizing after with
  | start => exact hψ.start
  | @next before s s' r h hstep ih =>
    have hsplit : records = before ++ r :: after := by simp [hrecords]
    exact (h.steps hs hv hstep).all hψ.lasting hψ.fixed
      (fun id index nonUniform => hψ.handle r s id index nonUniform ⟨before, after, hsplit, h⟩)
      (ih hsplit)

theorem FunctionBody.ComesTo.all {ψ : Register → Prop} (hψ : Keeps scope values records ψ)
    (h : ComesTo scope values records r s) : ∀ v ∈ s.values, v.All ψ := by
  obtain ⟨before, after, hsplit, hreaches⟩ := h
  exact hreaches.all hs hv hψ hsplit

omit hs in
theorem FunctionBody.Keeps.resolved :
    Keeps scope values records (Register.Resolved temps (Binds scope values records)) := by
  refine ⟨.resolved _ _, fun v hmem => ?_, fun m hm _ => ?_,
    fun r s id index nonUniform hcomes hmakes => ?_⟩
  · exact ⟨fun r hr => ((hv v hmem).register r hr).resolved,
      fun r hr => absurd hr ((hv v hmem).handle r)⟩
  · simp only [List.mem_cons, List.not_mem_nil, or_false] at hm
    rcases hm with hm | hm | hm <;>
      exact Register.resolved_of_ne (by rw [hm]; rfl) (by simp [hm]) (by simp [hm])
  · exact Register.resolved_constantBuffer nonUniform ⟨r, s, hcomes, hmakes⟩

end

/-! ## The operands of instructions -/

namespace BodyState.Emits

variable {scope : FunctionScope} {values : Values} {temps arrays : Nat} {records : List Record}
  {s : BodyState} {r : Record} {i : Instruction} (h : s.Emits scope r i) (hs : scope.Sound)
  (hv : ∀ v ∈ values, v.Static scope.types temps arrays)
  (hcomes : FunctionBody.ComesTo scope values records r s)
include h hs hv hcomes

section

variable {ψ : Register → Prop} (hψ : FunctionBody.Keeps scope values records ψ)
include hψ

theorem all_src : ∀ src ∈ i.src, src.register.All ψ ∨
    ∃ element row column e, ReadsInput scope s.values r element row column e src := by
  have hinherits {code : FunctionCode} {l : Lowered} (hl : Lowers scope s.values r code l) :
      l.Inherits scope s.values r ψ :=
    hl.inherits hψ.lasting (hcomes.all hs hv hψ)
      (fun id index nonUniform => hψ.handle r s id index nonUniform hcomes)
      fun _ _ _ _ _ => .inr (hψ.fixed _ (by decide) (by simp [Register.unknown]))
  cases h with
  | operation hl => exact hinherits hl
  | store hl =>
    intro src hsrc
    obtain rfl := List.mem_singleton.mp hsrc
    exact .inl (hinherits hl).2

theorem all_index : ∀ m ∈ i.src.map Source.register ++ i.dst.map DstParam.register,
    ∀ index ∈ m.indices, index.All ψ := by
  have hvalues := hcomes.all hs hv hψ
  obtain ⟨_, -, hinputs⟩ := hs.inputParams
  obtain ⟨_, -, houtputs⟩ := hs.outputParams
  intro m hm
  rcases List.mem_append.mp hm with hm | hm
  · obtain ⟨src, hsrc, rfl⟩ := List.mem_map.mp hm
    rcases h.all_src hs hv hcomes hψ src hsrc with hsource | ⟨element, row, column, e, hreads⟩
    · exact (Register.all_iff.mp hsource).2
    · obtain ⟨_, _, hcall⟩ := hreads.call
      exact hreads.access.all_indices hinputs (hvalues row (hcall.defined row (by simp)))
  · obtain ⟨dst, hdst, rfl⟩ := List.mem_map.mp hm
    rcases h.dst dst hdst with ⟨-, hfixed⟩ | ⟨element, row, column, e, hwrites⟩
    · exact fun index hindex => Index.all_of_fixed (hfixed index hindex)
    · obtain ⟨_, _, hcall⟩ := hwrites.call
      exact hwrites.access.all_indices houtputs (hvalues row (hcall.defined row (by simp)))

end

theorem src : ∀ src ∈ i.src,
    src.register.All (Register.Resolved temps (FunctionBody.Binds scope values records)) ∨
      ∃ element row column e, ReadsInput scope s.values r element row column e src :=
  h.all_src hs hv hcomes (.resolved hv)

/-- No input and no output is an address. -/
theorem all_indices : ∀ m ∈ i.src.map Source.register ++ i.dst.map DstParam.register,
    ∀ index ∈ m.indices,
      index.All (Register.Resolved temps (FunctionBody.Binds scope values records)) :=
  h.all_index hs hv hcomes (.resolved hv)

theorem forall_mentions {χ : Register → Prop}
    (hresolved : ∀ m : Register,
      m.Resolved temps (FunctionBody.Binds scope values records) → χ m)
    (hresult : ∀ m : Register, m.type ∈ [.ssa, .null] → χ m)
    (hinput : ∀ element row column e src, ReadsInput scope s.values r element row column e src →
      χ src.register)
    (houtput : ∀ element row column e dst,
      WritesOutput scope s.values r element row column e dst → χ dst.register) :
    ∀ m ∈ i.mentions, χ m := by
  have hindices : ∀ m ∈ i.src.map Source.register ++ i.dst.map DstParam.register,
      χ m → m.All χ := by
    intro m hm hself
    refine Register.all_iff.mpr ⟨hself, fun index hindex src hsrc => ?_⟩
    exact (h.all_indices hs hv hcomes m hm index hindex src hsrc).mono hresolved
  refine Instruction.forall_mentions.mpr ⟨fun src hsrc => ?_, fun dst hdst => ?_, ?_⟩
  · refine hindices _ (List.mem_append_left _ (List.mem_map_of_mem hsrc)) ?_
    rcases h.src hs hv hcomes src hsrc with hsource | ⟨element, row, column, e, hreads⟩
    · exact hresolved _ (Register.all_iff.mp hsource).1
    · exact hinput _ _ _ _ _ hreads
  · refine hindices _ (List.mem_append_right _ (List.mem_map_of_mem hdst)) ?_
    rcases h.dst dst hdst with ⟨htype, -⟩ | ⟨element, row, column, e, hwrites⟩
    · exact hresult _ htype
    · exact houtput _ _ _ _ _ hwrites
  · simp [h.declaration]

end BodyState.Emits

end Dxil
