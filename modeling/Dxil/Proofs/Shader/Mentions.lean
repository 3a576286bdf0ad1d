import Dxil.Proofs.Shader.SingleAssignment

/-!
# Dxil.Proofs.Shader.Mentions

The registers that an operand mentions: its own, and those that its indices are relative to, at any
depth.

* `Register.mentions`, `Instruction.mentions`
* `Register.addresses`, `Instruction.sources` : the sources by which they are read.
* `Register.All ψ` : every register that is mentioned is as `ψ` says.
-/

namespace Dxil

/-- The offset of the first index. -/
def Register.number (r : Register) : Nat := r.indices.head?.elim 0 fun index => index.offset.toNat

mutual

/-- A register, and those that its indices are relative to. -/
def Register.mentions : Register → List Register
  | .mk type data indices dimension immediate alignment nonUniform =>
    .mk type data indices dimension immediate alignment nonUniform :: mentionsOfIndices indices

def mentionsOfIndices : List (Index Register) → List Register
  | [] => []
  | ⟨_, none, _⟩ :: rest => mentionsOfIndices rest
  | ⟨_, some ⟨register, _, _⟩, _⟩ :: rest => register.mentions ++ mentionsOfIndices rest

end

mutual

/-- The sources that the indices of a register are relative to, at any depth. -/
def Register.addresses : Register → List SrcParam
  | .mk _ _ indices _ _ _ _ => addressesOfIndices indices

def addressesOfIndices : List (Index Register) → List SrcParam
  | [] => []
  | ⟨_, none, _⟩ :: rest => addressesOfIndices rest
  | ⟨_, some ⟨register, swizzle, modifier⟩, _⟩ :: rest =>
    ⟨register, swizzle, modifier⟩ :: register.addresses ++ addressesOfIndices rest

end

/-- The registers of an instruction: of its sources, its destinations and its declaration, each with
what its indices are relative to. -/
def Instruction.mentions (i : Instruction) : List Register :=
  (i.src.map Source.register ++ i.dst.map DstParam.register ++
    i.declaration.elim [] Declaration.registers).flatMap Register.mentions

/-- What an instruction reads, also for the addresses of its registers. -/
def Instruction.sources (i : Instruction) : List SrcParam :=
  i.src ++ (i.src.map Source.register ++ i.dst.map DstParam.register ++
    i.declaration.elim [] Declaration.registers).flatMap Register.addresses

theorem Register.mentions_eq (r : Register) : r.mentions = r :: mentionsOfIndices r.indices := by
  cases r
  simp only [mentions]

theorem mem_mentionsOfIndices {indices : List RegisterIndex} {r : Register} :
    r ∈ mentionsOfIndices indices ↔
      ∃ index ∈ indices, ∃ src, index.relative = some src ∧ r ∈ src.register.mentions := by
  induction indices with
  | nil => simp [mentionsOfIndices]
  | cons index rest ih =>
    match index with
    | ⟨_, none, _⟩ => simp [mentionsOfIndices, ih]
    | ⟨_, some ⟨register, _, _⟩, _⟩ => simp [mentionsOfIndices, ih]

mutual

theorem Register.mentions_eq_addresses :
    (r : Register) → r.mentions = r :: r.addresses.map Source.register
  | .mk type data indices dimension immediate alignment nonUniform => by
    rw [Register.mentions, Register.addresses, mentionsOfIndices_eq_addresses indices]

theorem mentionsOfIndices_eq_addresses :
    (indices : List (Index Register)) →
      mentionsOfIndices indices = (addressesOfIndices indices).map Source.register
  | [] => by rw [mentionsOfIndices, addressesOfIndices, List.map_nil]
  | ⟨_, none, _⟩ :: rest => by
    rw [mentionsOfIndices, addressesOfIndices, mentionsOfIndices_eq_addresses rest]
  | ⟨_, some ⟨register, _, _⟩, _⟩ :: rest => by
    rw [mentionsOfIndices, addressesOfIndices, register.mentions_eq_addresses,
      mentionsOfIndices_eq_addresses rest, List.map_append, List.map_cons]

end

mutual

theorem Register.exists_of_mem_addresses : (r : Register) → ∀ src ∈ r.addresses,
    ∃ m ∈ r.mentions, ∃ index ∈ m.indices, index.relative = some src
  | .mk type data indices dimension immediate alignment nonUniform => by
    intro src hsrc
    rw [Register.addresses] at hsrc
    rw [Register.mentions]
    rcases exists_of_mem_addressesOfIndices indices src hsrc with hindex | ⟨m, hm, hindex⟩
    · exact ⟨_, List.mem_cons_self, hindex⟩
    · exact ⟨m, List.mem_cons_of_mem _ hm, hindex⟩

theorem exists_of_mem_addressesOfIndices : (indices : List (Index Register)) →
    ∀ src ∈ addressesOfIndices indices, (∃ index ∈ indices, index.relative = some src) ∨
      ∃ m ∈ mentionsOfIndices indices, ∃ index ∈ m.indices, index.relative = some src
  | [] => by simp [addressesOfIndices]
  | ⟨_, none, _⟩ :: rest => by
    intro src hsrc
    rw [addressesOfIndices] at hsrc
    rw [mentionsOfIndices]
    refine (exists_of_mem_addressesOfIndices rest src hsrc).imp_left ?_
    exact fun ⟨index, hindex, h⟩ => ⟨index, List.mem_cons_of_mem _ hindex, h⟩
  | ⟨_, some ⟨register, _, _⟩, _⟩ :: rest => by
    intro src hsrc
    rw [addressesOfIndices, List.cons_append, List.mem_cons, List.mem_append] at hsrc
    rw [mentionsOfIndices]
    rcases hsrc with rfl | hsrc | hsrc
    · exact .inl ⟨_, List.mem_cons_self, rfl⟩
    · obtain ⟨m, hm, hindex⟩ := register.exists_of_mem_addresses src hsrc
      exact .inr ⟨m, List.mem_append_left _ hm, hindex⟩
    · rcases exists_of_mem_addressesOfIndices rest src hsrc with
        ⟨index, hindex, h⟩ | ⟨m, hm, hindex⟩
      · exact .inl ⟨index, List.mem_cons_of_mem _ hindex, h⟩
      · exact .inr ⟨m, List.mem_append_right _ hm, hindex⟩

end

/-! ## What holds of all registers -/

def Register.All (ψ : Register → Prop) (r : Register) : Prop := ∀ m ∈ r.mentions, ψ m

def Index.All (ψ : Register → Prop) (index : RegisterIndex) : Prop :=
  ∀ src, index.relative = some src → src.register.All ψ

section

variable {ψ : Register → Prop}

theorem Register.all_iff {r : Register} :
    r.All ψ ↔ ψ r ∧ ∀ index ∈ r.indices, index.All ψ := by
  unfold All
  rw [mentions_eq]
  constructor
  · intro h
    refine ⟨h r List.mem_cons_self, fun index hindex src hsrc m hm => ?_⟩
    exact h m (List.mem_cons_of_mem _ (mem_mentionsOfIndices.mpr ⟨index, hindex, src, hsrc, hm⟩))
  · rintro ⟨hself, hindices⟩ m hm
    rcases List.mem_cons.mp hm with rfl | hm
    · exact hself
    · obtain ⟨index, hindex, src, hsrc, hm⟩ := mem_mentionsOfIndices.mp hm
      exact hindices index hindex src hsrc m hm

theorem Index.all_of_fixed {index : RegisterIndex} (h : index.relative = none) : index.All ψ := by
  intro src hsrc
  simp [h] at hsrc

theorem Register.all_of_fixed {r : Register} (hself : ψ r)
    (h : ∀ index ∈ r.indices, index.relative = none) : r.All ψ :=
  all_iff.mpr ⟨hself, fun index hindex => Index.all_of_fixed (h index hindex)⟩

theorem Register.forall_addresses {r : Register} (h : ∀ index ∈ r.indices, index.All ψ) :
    ∀ src ∈ r.addresses, ψ src.register := by
  intro src hsrc
  have hmention : src.register ∈ mentionsOfIndices r.indices := by
    have htail := r.mentions_eq.symm.trans r.mentions_eq_addresses
    rw [(List.cons.inj htail).2]
    exact List.mem_map_of_mem hsrc
  obtain ⟨index, hindex, outer, houter, hmem⟩ := mem_mentionsOfIndices.mp hmention
  exact h index hindex outer houter _ hmem

theorem Register.All.mono {χ : Register → Prop} {r : Register} (h : r.All ψ)
    (hψ : ∀ m, ψ m → χ m) : r.All χ :=
  fun m hm => hψ m (h m hm)

theorem Register.All.withIndices {r r' : Register} (h : r.All ψ) (hself : ψ r')
    (hindices : ∀ index ∈ r'.indices, index ∈ r.indices ∨ index.All ψ) : r'.All ψ :=
  all_iff.mpr ⟨hself, fun index hindex =>
    (hindices index hindex).elim ((all_iff.mp h).2 index) id⟩

theorem Instruction.forall_mentions {i : Instruction} :
    (∀ m ∈ i.mentions, ψ m) ↔
      (∀ src ∈ i.src, src.register.All ψ) ∧ (∀ dst ∈ i.dst, dst.register.All ψ) ∧
        ∀ d, i.declaration = some d → ∀ r ∈ d.registers, r.All ψ := by
  simp only [mentions, List.mem_flatMap, List.mem_append, List.mem_map]
  constructor
  · intro h
    refine ⟨fun src hsrc m hm => h m ⟨_, .inl (.inl ⟨src, hsrc, rfl⟩), hm⟩,
      fun dst hdst m hm => h m ⟨_, .inl (.inr ⟨dst, hdst, rfl⟩), hm⟩, fun d hd r hr m hm => ?_⟩
    exact h m ⟨r, .inr (by simpa [hd] using hr), hm⟩
  · rintro ⟨hsrc, hdst, hdecl⟩ m ⟨r, (⟨src, hmem, rfl⟩ | ⟨dst, hmem, rfl⟩) | hr, hm⟩
    · exact hsrc src hmem m hm
    · exact hdst dst hmem m hm
    · cases hd : i.declaration with
      | none => simp [hd] at hr
      | some d => exact hdecl d hd r (by simpa [hd] using hr) m hm

end

/-! ## Single-assignment registers -/

mutual

theorem Register.ssaReads_eq_mentions :
    (r : Register) → r.ssaReads = r.mentions.filterMap Register.ssaId?
  | .mk type data indices dimension immediate alignment nonUniform => by
    rw [Register.ssaReads, Register.mentions, ssaReadsOfIndices_eq_mentions indices,
      List.filterMap_cons]
    split <;> simp_all

theorem ssaReadsOfIndices_eq_mentions :
    (indices : List (Index Register)) →
      ssaReadsOfIndices indices = (mentionsOfIndices indices).filterMap Register.ssaId?
  | [] => by rw [ssaReadsOfIndices, mentionsOfIndices, List.filterMap_nil]
  | ⟨_, none, _⟩ :: rest => by
    rw [ssaReadsOfIndices, mentionsOfIndices, ssaReadsOfIndices_eq_mentions rest]
  | ⟨_, some ⟨register, _, _⟩, _⟩ :: rest => by
    rw [ssaReadsOfIndices, mentionsOfIndices, List.filterMap_append,
      register.ssaReads_eq_mentions, ssaReadsOfIndices_eq_mentions rest]

end

def SsaBelow (n : Nat) (m : Register) : Prop := m.type = .ssa → m.number < n

theorem SsaBelow.of_ne {m : Register} (h : m.type ≠ .ssa) (n : Nat) : SsaBelow n m :=
  fun hssa => absurd hssa h

theorem Register.below_iff_all {n : Nat} {r : Register} : r.Below n ↔ r.All (SsaBelow n) := by
  simp only [Below, All, SsaBelow, ssaReads_eq_mentions, List.mem_filterMap]
  constructor
  · intro h m hm hssa
    exact h _ ⟨m, hm, if_pos hssa⟩
  · rintro h id ⟨m, hm, hid⟩
    unfold ssaId? at hid
    split at hid
    · cases hid
      exact h m hm ‹_›
    · cases hid

theorem Index.below_iff_all {n : Nat} {index : RegisterIndex} :
    index.Below n ↔ index.All (SsaBelow n) := by
  simp only [Below, All, Register.below_iff_all]

end Dxil
