import Dxil.Shader.Program

/-!
# Dxil.Proofs.Shader.SingleAssignment

Single-assignment registers: which of them an instruction writes and reads, and when a list of
instructions keeps to the discipline.

* `Register.ssaReads` : what is read along with a register, through all indices.
* `SingleAssignment` : the registers are written in order, each once, and read only after that.
* `Register.Below n` : reads only registers with numbers below `n`.
* `SingleAssignment.concat`, `SingleAssignment.prepend` : one more instruction, and declarations in
  front.
-/

namespace Dxil

/-- The number of a single-assignment register; `none` for all other registers. -/
def Register.ssaId? (r : Register) : Option Nat :=
  if r.type = .ssa then some (r.indices.head?.elim 0 fun index => index.offset.toNat) else none

mutual

/-- The single-assignment registers that are read along with a register: itself, if it is one, and
those that its indices are relative to. -/
def Register.ssaReads : Register → List Nat
  | .mk type data indices dimension immediate alignment nonUniform =>
    (Register.mk type data indices dimension immediate alignment nonUniform).ssaId?.toList ++
      ssaReadsOfIndices indices

def ssaReadsOfIndices : List (Index Register) → List Nat
  | [] => []
  | ⟨_, none, _⟩ :: rest => ssaReadsOfIndices rest
  | ⟨_, some ⟨register, _, _⟩, _⟩ :: rest => register.ssaReads ++ ssaReadsOfIndices rest

end

/-- The registers that a declaration names. -/
def Declaration.registers : Declaration → List Register
  | constantBuffer src _ _ => [src.register]
  | register dst _ | registerSemantic dst _ _ => [dst.register]
  | globalFlags _ | threadGroupSize _ _ _ | indexableTemp _ => []

namespace Instruction

def ssaWrites (i : Instruction) : List Nat := i.dst.filterMap fun dst => dst.register.ssaId?

/-- The single-assignment registers that an instruction reads: as a source, in the address of a
source or destination, or in a declaration. -/
def ssaReads (i : Instruction) : List Nat :=
  i.src.flatMap (fun src => src.register.ssaReads) ++
    i.dst.flatMap (fun dst => ssaReadsOfIndices dst.register.indices) ++
    (i.declaration.elim [] Declaration.registers).flatMap Register.ssaReads

end Instruction

/-- Registers `0` to `count - 1` are written in this order, each once, and what an instruction reads
was written by one before it. -/
structure SingleAssignment (is : List Instruction) (count : Nat) : Prop where
  writes : is.flatMap Instruction.ssaWrites = List.range count
  reads : ∀ k i, is[k]? = some i → ∀ id ∈ i.ssaReads,
    id ∈ (is.take k).flatMap Instruction.ssaWrites

/-! ## Registers below a number -/

def Register.Below (n : Nat) (r : Register) : Prop := ∀ id ∈ r.ssaReads, id < n

def Index.Below (n : Nat) (index : RegisterIndex) : Prop :=
  ∀ src, index.relative = some src → src.register.Below n

theorem Register.ssaReads_eq (r : Register) :
    r.ssaReads = r.ssaId?.toList ++ ssaReadsOfIndices r.indices := by
  cases r
  simp only [ssaReads]

theorem mem_ssaReadsOfIndices {indices : List RegisterIndex} {id : Nat} :
    id ∈ ssaReadsOfIndices indices ↔
      ∃ index ∈ indices, ∃ src, index.relative = some src ∧ id ∈ src.register.ssaReads := by
  induction indices with
  | nil => simp [ssaReadsOfIndices]
  | cons index rest ih =>
    match index with
    | ⟨_, none, _⟩ => simp [ssaReadsOfIndices, ih]
    | ⟨_, some ⟨register, _, _⟩, _⟩ => simp [ssaReadsOfIndices, ih]

theorem Register.below_iff {n : Nat} {r : Register} :
    r.Below n ↔ (∀ id, r.ssaId? = some id → id < n) ∧ ∀ index ∈ r.indices, index.Below n := by
  constructor
  · intro h
    refine ⟨fun id hid => h id (by simp [ssaReads_eq, hid]), fun index hindex src hsrc id hid => ?_⟩
    refine h id ?_
    rw [ssaReads_eq, List.mem_append]
    exact .inr (mem_ssaReadsOfIndices.mpr ⟨index, hindex, src, hsrc, hid⟩)
  · rintro ⟨hself, hindices⟩ id hid
    rw [ssaReads_eq, List.mem_append] at hid
    rcases hid with hid | hid
    · exact hself id (by simpa using hid)
    · obtain ⟨index, hindex, src, hsrc, hmem⟩ := mem_ssaReadsOfIndices.mp hid
      exact hindices index hindex src hsrc id hmem

theorem Index.below_of_fixed {n : Nat} {index : RegisterIndex}
    (h : index.relative = none) : index.Below n := by
  intro src hsrc
  simp [h] at hsrc

theorem Register.below_of_ne_ssa {n : Nat} {r : Register} (htype : r.type ≠ .ssa)
    (h : ∀ index ∈ r.indices, index.Below n) : r.Below n :=
  below_iff.mpr ⟨by simp [ssaId?, htype], h⟩

/-! ## Instructions -/

/-- A known register that no instruction computes, at fixed indices. -/
structure Register.Fixed (r : Register) : Prop where
  notSsa : r.type ≠ .ssa
  known : r.type ≠ .invalid
  indices : ∀ index ∈ r.indices, index.relative = none

theorem Register.Fixed.below {r : Register} (h : r.Fixed) (n : Nat) : r.Below n :=
  below_of_ne_ssa h.notSsa fun index hindex => Index.below_of_fixed (h.indices index hindex)

/-- An instruction that computes nothing, and that names only fixed registers. -/
structure Instruction.IsDeclaration (i : Instruction) : Prop where
  dst : i.dst = []
  src : i.src = []
  declares : ∃ d, i.declaration = some d ∧ ∀ r ∈ d.registers, r.Fixed

namespace Instruction.IsDeclaration

variable {i : Instruction} (h : i.IsDeclaration)
include h

theorem ssaWrites : i.ssaWrites = [] := by simp [Instruction.ssaWrites, h.dst]

theorem ssaReads : i.ssaReads = [] := by
  obtain ⟨d, hd, hregisters⟩ := h.declares
  refine List.eq_nil_iff_forall_not_mem.mpr fun id hid => ?_
  simp only [Instruction.ssaReads, h.src, h.dst, hd, List.flatMap_nil, List.nil_append,
    Option.elim_some, List.mem_flatMap] at hid
  obtain ⟨r, hr, hid⟩ := hid
  exact Nat.not_lt_zero id ((hregisters r hr).below 0 id hid)

end Instruction.IsDeclaration

theorem Instruction.forall_ssaReads {n : Nat} {i : Instruction} (hdecl : i.declaration = none)
    (hsrc : ∀ src ∈ i.src, src.register.Below n)
    (hdst : ∀ dst ∈ i.dst, ∀ index ∈ dst.register.indices, index.Below n) :
    ∀ id ∈ i.ssaReads, id < n := by
  intro id hid
  simp only [ssaReads, hdecl, Option.elim_none, List.flatMap_nil, List.append_nil,
    List.mem_append, List.mem_flatMap] at hid
  rcases hid with ⟨src, hmem, hid⟩ | ⟨dst, hmem, hid⟩
  · exact hsrc src hmem id hid
  · obtain ⟨index, hindex, src, hrel, hid⟩ := mem_ssaReadsOfIndices.mp hid
    exact hdst dst hmem index hindex src hrel id hid

namespace SingleAssignment

theorem nil : SingleAssignment [] 0 := ⟨rfl, by simp⟩

theorem concat {is : List Instruction} {count k : Nat} (h : SingleAssignment is count)
    {i : Instruction} (hreads : ∀ id ∈ i.ssaReads, id < count)
    (hwrites : i.ssaWrites = List.range' count k) :
    SingleAssignment (is ++ [i]) (count + k) := by
  refine ⟨?_, fun j i' hget id hid => ?_⟩
  · rw [List.flatMap_append, h.writes, List.flatMap_singleton, hwrites]
    simpa [List.range_eq_range'] using List.range'_append_1 (s := 0) (m := count) (n := k)
  · by_cases hj : j < is.length
    · rw [List.getElem?_append_left hj] at hget
      rw [List.take_append_of_le_length (Nat.le_of_lt hj)]
      exact h.reads j i' hget id hid
    · have hlast : j = is.length ∧ i' = i := by
        have hlt := (List.getElem?_eq_some_iff.mp hget).1
        rw [List.length_append, List.length_singleton] at hlt
        obtain rfl : j = is.length := by omega
        simpa using hget.symm
      obtain ⟨rfl, rfl⟩ := hlast
      rw [List.take_left, h.writes]
      exact List.mem_range.mpr (hreads id hid)

theorem prepend {ds is : List Instruction} {count : Nat} (hd : ∀ i ∈ ds, i.IsDeclaration)
    (h : SingleAssignment is count) : SingleAssignment (ds ++ is) count := by
  have hnone : ds.flatMap Instruction.ssaWrites = [] :=
    List.flatMap_eq_nil_iff.mpr fun i hi => (hd i hi).ssaWrites
  refine ⟨by rw [List.flatMap_append, hnone, List.nil_append, h.writes], ?_⟩
  intro k i hget id hid
  by_cases hk : k < ds.length
  · rw [List.getElem?_append_left hk] at hget
    rw [(hd i (List.mem_of_getElem? hget)).ssaReads] at hid
    cases hid
  · rw [List.getElem?_append_right (Nat.le_of_not_lt hk)] at hget
    rw [List.take_append, List.flatMap_append, List.mem_append]
    exact .inr (h.reads _ i hget id hid)

end SingleAssignment

end Dxil
