import Dxil.Proofs.Module.TypeTable

/-!
# Dxil.Proofs.Module.PointerSearch

The search for a pointer type goes once round the table, from the type behind the pointee to the
one before it.

* `TypeTable.others` : the other types of a table in this order.
* `pointerTo_eq_find?` : the search as a plain one through this list.
* `pointerTo_first` : it finds the first pointer, and misses none.
-/

namespace Dxil

theorem findM?_eq_find? {α : Type} {p : α → Option Bool} {q : α → Bool} {l : List α}
    (h : ∀ a ∈ l, p a = some (q a)) : l.findM? p = some (l.find? q) := by
  induction l with
  | nil => rfl
  | cons a l ih =>
    have hrest := ih fun b hb => h b (List.mem_cons_of_mem _ hb)
    simp only [List.findM?, h a List.mem_cons_self, Option.bind_eq_bind, Option.bind_some,
      List.find?_cons]
    cases q a with
    | true => rfl
    | false => exact hrest

namespace TypeTable

/-- All types of a table of `size` but type `id`: those behind it, then those before it. -/
def others (size id : Nat) : List TypeId := List.range' (id + 1) (size - (id + 1)) ++ List.range id

variable {t : TypeTable} {size id k : Nat}

theorem mem_others (h : id < size) : k ∈ others size id ↔ k < size ∧ k ≠ id := by
  simp only [others, List.mem_append, List.mem_range'_1, List.mem_range]
  omega

/-- Offsets from 1 on, taken round the table, lead past every other type in order. -/
theorem map_offset_eq_others (h : id < size) :
    ((List.range' 1 (size - 1)).map fun offset => (id + offset) % size) = others size id := by
  apply List.ext_getElem
  · simp only [others, List.length_map, List.length_append, List.length_range', List.length_range]
    omega
  · intro i hi _
    simp only [List.length_map, List.length_range'] at hi
    simp only [others, List.getElem_map, List.getElem_range', List.getElem_append,
      List.length_range', List.getElem_range, Nat.one_mul]
    split
    · -- Up to the end of the table.
      rw [Nat.mod_eq_of_lt (by omega)]
      omega
    · -- From its start on.
      rw [Nat.mod_eq_sub_mod (by omega), Nat.mod_eq_of_lt (by omega)]
      omega

theorem pointerTo_eq_find? (space : UInt64) (h : id < t.size) :
    t.pointerTo id space =
      some ((others t.size id).find? fun k => t.get? k = some (.pointer id space)) := by
  rw [pointerTo, map_offset_eq_others h]
  refine findM?_eq_find? fun k hk => ?_
  obtain ⟨type, htype⟩ := get?_of_lt ((mem_others h).mp hk).1
  simp only [htype, Option.bind_eq_bind, Option.bind_some, Option.some.injEq]
  rfl

/-- The search for a pointer type to type `id` in an address space goes once round the table, in the
order `id + 1`, `id + 2`, and so on to the last type, then 0, 1, and so on to `id - 1`. It gives the
first type in this order that is such a pointer, and none exactly if no other type is one. -/
theorem pointerTo_first (t : TypeTable) (id : TypeId) (space : UInt64) (h : id < t.size) :
    (∀ k, t.pointerTo id space = some (some k) ↔
      t.get? k = some (.pointer id space) ∧ ∃ before after,
        List.range' (id + 1) (t.size - (id + 1)) ++ List.range id = before ++ k :: after ∧
        ∀ j ∈ before, t.get? j ≠ some (.pointer id space)) ∧
    (t.pointerTo id space = some none ↔ ∀ k, k ≠ id → t.get? k ≠ some (.pointer id space)) := by
  rw [pointerTo_eq_find? space h]
  constructor
  · intro k
    simp only [Option.some.injEq, List.find?_eq_some_iff_append, decide_eq_true_eq,
      Bool.not_eq_true', decide_eq_false_iff_not]
    exact Iff.rfl
  · simp only [Option.some.injEq, List.find?_eq_none, decide_eq_true_eq]
    constructor
    · intro hnone k hne hk
      exact hnone k ((mem_others h).mpr ⟨lt_of_get? hk, hne⟩) hk
    · intro hnone k hk
      exact hnone k ((mem_others h).mp hk).2

/-- A pointer before its pointee, behind one in another address space. -/
theorem pointerTo_first_wraps :
    let t : TypeTable := { types := #[.pointer 2 0, .int 32, .float 32, .pointer 2 3] }
    2 < t.size ∧ 1 < t.size ∧ t.pointerTo 2 0 = some (some 0) ∧ t.pointerTo 1 0 = some none := by
  intro t
  have hfound := (pointerTo_first t 2 0 (by decide)).1 0
  have hnone := (pointerTo_first t 1 0 (by decide)).2
  refine ⟨by decide, by decide, hfound.mpr ⟨by decide, [3], [1], by decide, by decide⟩, ?_⟩
  refine hnone.mpr fun k _ hk => ?_
  have hlt : k < 4 := lt_of_get? hk
  have hall : ∀ k < 4, t.get? k ≠ some (.pointer 1 0) := by decide
  exact hall k hlt hk

end TypeTable

end Dxil
