import Dxil.Proofs.Budget

/-!
# Dxil.Proofs.ValueCounts

The exact numbers of values of a module, and which of them are held to 32 bits.

* `Block.valuesAfter`, `Block.bodyCounts` : the values after a block, and those that each function
  body in it comes to.
* `Block.limited` : the counts that are compared with the limit. There is none among them for what a
  body adds.
* `ValueBudget.ofModule?_exact` : a budget holds the exact counts, and there is one exactly if none
  of the limited counts is too large.
* `ValueBudget.not_always_in_limit` : so the count of a body can be.
-/

namespace Dxil

open ValueBudget (declared reached definesConstant)

/-! ## Exact counts -/

mutual

/-- The values after a block, from `n` on. Those of a function end with it. -/
def Block.valuesAfter : Block → (n : Nat) → Nat
  | .mk header records blocks, n =>
    match BlockKind.ofId? header.id with
    | some .constants =>
      Block.valuesAfterAll blocks (declared header records n) + records.countP definesConstant
    | some .function => n
    | _ => Block.valuesAfterAll blocks (declared header records n)

def Block.valuesAfterAll : List Block → (n : Nat) → Nat
  | [], n => n
  | block :: blocks, n => Block.valuesAfterAll blocks (block.valuesAfter n)

end

mutual

/-- The values that each function in a block comes to, in order: those before it, its constants, and
one for each record but the first. -/
def Block.bodyCounts : Block → (n : Nat) → List Nat
  | .mk header records blocks, n =>
    Block.bodyCountsAll blocks (declared header records n) ++
      if BlockKind.ofId? header.id = some .function then
        [Block.valuesAfterAll blocks (declared header records n) + (max records.length 1 - 1)]
      else []

def Block.bodyCountsAll : List Block → (n : Nat) → List Nat
  | [], _ => []
  | block :: blocks, n => block.bodyCounts n ++ Block.bodyCountsAll blocks (block.valuesAfter n)

end

mutual

/-- The counts that are compared with the limit: the values after each block. -/
def Block.limited : Block → (n : Nat) → List Nat
  | .mk header records blocks, n =>
    Block.limitedAll blocks (declared header records n) ++
      [(Block.mk header records blocks).valuesAfter n]

def Block.limitedAll : List Block → (n : Nat) → List Nat
  | [], _ => []
  | block :: blocks, n => block.limited n ++ Block.limitedAll blocks (block.valuesAfter n)

end

namespace ValueBudget

def addBodies (b : ValueBudget) (counts : List Nat) : ValueBudget :=
  { functions := b.functions ++ counts, capacity := counts.foldl max b.capacity }

theorem addBodies_nil (b : ValueBudget) : b.addBodies [] = b := by
  simp [addBodies]

theorem addBodies_append (b : ValueBudget) (counts counts' : List Nat) :
    b.addBodies (counts ++ counts') = (b.addBodies counts).addBodies counts' := by
  simp [addBodies]

theorem addFunction_eq (b : ValueBudget) (n : Nat) (records : List Record) :
    b.addFunction n records = b.addBodies [n + (max records.length 1 - 1)] := rfl

theorem reached_eq (header : BlockHeader) (records : List Record) (blocks : List Block) (n : Nat)
    (b : ValueBudget) :
    reached header records n (Block.valuesAfterAll blocks (declared header records n))
        (b.addBodies (Block.bodyCountsAll blocks (declared header records n))) =
      ((Block.mk header records blocks).valuesAfter n,
        b.addBodies ((Block.mk header records blocks).bodyCounts n)) := by
  rw [Block.valuesAfter, Block.bodyCounts, reached]
  by_cases hfunction : BlockKind.ofId? header.id = some .function
  · rw [if_pos hfunction, hfunction, addBodies_append, ← addFunction_eq]
  · rw [if_neg hfunction, List.append_nil]
    cases hkind : BlockKind.ofId? header.id with
    | none => rfl
    | some kind =>
      cases kind with
      | function => exact absurd hkind hfunction
      | _ => rfl

mutual

/-- Counting gives the exact numbers, unless one of those that are compared is too large. -/
theorem count_eq (n : Nat) (b : ValueBudget) : (block : Block) →
    count block n b = if ∀ m ∈ block.limited n, m < UInt32.size then
      some (block.valuesAfter n, b.addBodies (block.bodyCounts n)) else none
  | .mk header records blocks => by
    rw [count_mk, countAll_eq (declared header records n) b blocks]
    have hlimited : (∀ m ∈ (Block.mk header records blocks).limited n, m < UInt32.size) ↔
        (∀ m ∈ Block.limitedAll blocks (declared header records n), m < UInt32.size) ∧
          (Block.mk header records blocks).valuesAfter n < UInt32.size := by
      rw [Block.limited, List.forall_mem_append, List.forall_mem_singleton]
    by_cases hinner : ∀ m ∈ Block.limitedAll blocks (declared header records n), m < UInt32.size
    · rw [if_pos hinner]
      change close header records n _ _ = _
      unfold close
      rw [reached_eq]
      by_cases hafter : (Block.mk header records blocks).valuesAfter n < UInt32.size
      · rw [if_pos hafter, if_pos (hlimited.mpr ⟨hinner, hafter⟩)]
      · rw [if_neg hafter, if_neg fun h => hafter (hlimited.mp h).2]
    · rw [if_neg hinner, if_neg fun h => hinner (hlimited.mp h).1]
      rfl

theorem countAll_eq (n : Nat) (b : ValueBudget) : (blocks : List Block) →
    countAll blocks n b = if ∀ m ∈ Block.limitedAll blocks n, m < UInt32.size then
      some (Block.valuesAfterAll blocks n, b.addBodies (Block.bodyCountsAll blocks n)) else none
  | [] => by
    rw [countAll, Block.limitedAll, Block.valuesAfterAll, Block.bodyCountsAll, addBodies_nil,
      if_pos (by simp)]
  | block :: blocks => by
    rw [countAll, count_eq n b block, Block.limitedAll, Block.valuesAfterAll, Block.bodyCountsAll,
      addBodies_append]
    have hlimited : (∀ m ∈ block.limited n ++ Block.limitedAll blocks (block.valuesAfter n),
          m < UInt32.size) ↔ (∀ m ∈ block.limited n, m < UInt32.size) ∧
        ∀ m ∈ Block.limitedAll blocks (block.valuesAfter n), m < UInt32.size :=
      List.forall_mem_append
    by_cases hfirst : ∀ m ∈ block.limited n, m < UInt32.size
    · rw [if_pos hfirst]
      dsimp only
      rw [countAll_eq (block.valuesAfter n) _ blocks]
      by_cases hrest : ∀ m ∈ Block.limitedAll blocks (block.valuesAfter n), m < UInt32.size
      · rw [if_pos hrest, if_pos (hlimited.mpr ⟨hfirst, hrest⟩)]
      · rw [if_neg hrest, if_neg fun h => hrest (hlimited.mp h).2]
    · rw [if_neg hfirst, if_neg fun h => hfirst (hlimited.mp h).1]

end

theorem valuesAfter_lt {block : Block} {n : Nat} (h : ∀ m ∈ block.limited n, m < UInt32.size) :
    block.valuesAfter n < UInt32.size := by
  obtain ⟨header, records, blocks⟩ := block
  rw [Block.limited, List.forall_mem_append, List.forall_mem_singleton] at h
  exact h.2

theorem valuesAfterAll_lt {n : Nat} (hn : n < UInt32.size) (blocks : List Block)
    (h : ∀ m ∈ Block.limitedAll blocks n, m < UInt32.size) :
    Block.valuesAfterAll blocks n < UInt32.size := by
  induction blocks generalizing n with
  | nil =>
    rw [Block.valuesAfterAll]
    exact hn
  | cons block blocks ih =>
    rw [Block.limitedAll, List.forall_mem_append] at h
    rw [Block.valuesAfterAll]
    exact ih (valuesAfter_lt h.1) h.2

mutual

/-- What a body comes to is held to the limit but for the records of the body. -/
theorem bodyCounts_lt {n : Nat} : (block : Block) → (∀ m ∈ block.limited n, m < UInt32.size) →
    ∀ k ∈ block.bodyCounts n, ∃ f ∈ block.all, f.isFunction = true ∧
      k < UInt32.size + (f.records.length - 1)
  | .mk header records blocks, h => by
    intro k hk
    have hafter := valuesAfter_lt h
    rw [Block.limited, List.forall_mem_append] at h
    rw [Block.bodyCounts, List.mem_append] at hk
    rw [Block.all]
    rcases hk with hk | hk
    · obtain ⟨f, hf, hfacts⟩ := bodyCountsAll_lt blocks h.1 k hk
      exact ⟨f, List.mem_cons_of_mem _ hf, hfacts⟩
    · by_cases hfunction : BlockKind.ofId? header.id = some .function
      · rw [if_pos hfunction, List.mem_singleton] at hk
        refine ⟨_, List.mem_cons_self, decide_eq_true hfunction, ?_⟩
        -- The values before a function are compared with the limit after it.
        have hbefore : declared header records n < UInt32.size := by
          have hmodule : header.id ≠ BlockKind.module.id := by
            intro hid
            rw [hid] at hfunction
            cases hfunction
          rw [Block.valuesAfter, hfunction] at hafter
          rw [declared, if_neg hmodule]
          exact hafter
        have hinner := valuesAfterAll_lt hbefore blocks h.1
        rw [hk]
        change _ < UInt32.size + (records.length - 1)
        omega
      · rw [if_neg hfunction] at hk
        cases hk

theorem bodyCountsAll_lt {n : Nat} : (blocks : List Block) →
    (∀ m ∈ Block.limitedAll blocks n, m < UInt32.size) →
    ∀ k ∈ Block.bodyCountsAll blocks n, ∃ f ∈ Block.allOf blocks, f.isFunction = true ∧
      k < UInt32.size + (f.records.length - 1)
  | [], _ => by
    intro k hk
    rw [Block.bodyCountsAll] at hk
    cases hk
  | block :: blocks, h => by
    intro k hk
    rw [Block.limitedAll, List.forall_mem_append] at h
    rw [Block.bodyCountsAll, List.mem_append] at hk
    rw [Block.allOf]
    rcases hk with hk | hk
    · obtain ⟨f, hf, hfacts⟩ := bodyCounts_lt block h.1 k hk
      exact ⟨f, List.mem_append_left _ hf, hfacts⟩
    · obtain ⟨f, hf, hfacts⟩ := bodyCountsAll_lt blocks h.2 k hk
      exact ⟨f, List.mem_append_right _ hf, hfacts⟩

end

/-! ## Modules -/

theorem ofModule?_eq (root : Block) :
    ofModule? root = if ∀ m ∈ root.limited 0, m < UInt32.size then
      some { functions := root.bodyCounts 0
             capacity := max ((root.bodyCounts 0).foldl max 0) (root.valuesAfter 0) }
    else none := by
  unfold ofModule?
  rw [count_eq]
  by_cases h : ∀ m ∈ root.limited 0, m < UInt32.size
  · rw [if_pos h, if_pos h]
    simp [addBodies]
  · rw [if_neg h, if_neg h]

/-- A budget holds the exact counts. Those after each block are below the limit, and where one would
not be there is no budget. The count of a body exceeds the limit by less than the records of the
body. -/
theorem ofModule?_exact (root : Block) :
    (∀ budget, ofModule? root = some budget →
      budget.functions = root.bodyCounts 0 ∧
      budget.capacity = max ((root.bodyCounts 0).foldl max 0) (root.valuesAfter 0) ∧
      root.valuesAfter 0 < UInt32.size ∧
      ∀ n ∈ budget.functions, ∃ f ∈ root.all, f.isFunction = true ∧
        n < UInt32.size + (f.records.length - 1)) ∧
    (ofModule? root = none ↔ ∃ m ∈ root.limited 0, UInt32.size ≤ m) := by
  rw [ofModule?_eq]
  by_cases h : ∀ m ∈ root.limited 0, m < UInt32.size
  · rw [if_pos h]
    refine ⟨?_, ?_⟩
    · rintro _ ⟨⟩
      exact ⟨rfl, rfl, valuesAfter_lt h, bodyCounts_lt root h⟩
    · simpa using h
  · rw [if_neg h]
    refine ⟨by rintro _ ⟨⟩, ?_⟩
    simpa using h

/-! ## A body beyond the limit -/

def singleBody (n : Nat) : Block :=
  .mk { id := BlockKind.module.id, width := 3, start := 0, length := 0, level := 0 } []
    [.mk { id := BlockKind.function.id, width := 3, start := 0, length := 0, level := 1 }
      (List.replicate n { code := 0, operands := [] }) []]

theorem ofModule?_singleBody (n : Nat) :
    ofModule? (singleBody (n + 1)) = some { functions := [n], capacity := n } := by
  have hmodule : BlockKind.ofId? BlockKind.module.id = some .module := by decide
  have hfunction : BlockKind.ofId? BlockKind.function.id = some .function := by decide
  have hne : BlockKind.function.id ≠ BlockKind.module.id := by decide
  have hafter : (singleBody (n + 1)).valuesAfter 0 = 0 := by
    simp [singleBody, Block.valuesAfter, Block.valuesAfterAll, declared, hmodule, hfunction]
  have hbodies : (singleBody (n + 1)).bodyCounts 0 = [n] := by
    simp [singleBody, Block.bodyCounts, Block.bodyCountsAll, Block.valuesAfterAll, declared,
      hmodule, hfunction, hne]
  have hlimited : (singleBody (n + 1)).limited 0 = [0, 0] := by
    simp [singleBody, Block.limited, Block.limitedAll, Block.valuesAfter, Block.valuesAfterAll,
      declared, hmodule, hfunction]
  rw [ofModule?_eq, hafter, hbodies, hlimited, if_pos (by decide)]
  simp

/-- Records of a body are values, and nothing keeps them from being too many. -/
theorem not_always_in_limit :
    ¬ ∀ (root : Block) (budget : ValueBudget), ofModule? root = some budget →
      budget.capacity < UInt32.size ∧ ∀ n ∈ budget.functions, n < UInt32.size := by
  intro h
  exact Nat.lt_irrefl _ (h _ _ (ofModule?_singleBody UInt32.size)).1

end ValueBudget

end Dxil
