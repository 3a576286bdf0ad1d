import Dxil.Proofs.Function.IgnoredOperands

/-!
# Dxil.Proofs.Function.References

References by distance are resolved exactly where they lead back to a value that exists and may be
used.

* `RefersBack` : the position that a distance leads back to, without any wrap.
* `resolves_iff_refersBack` : the wrap makes no difference if the list of values is not too long.
* `resolve_exact` : the position that is resolved, and that there is an error without one.
-/

namespace Dxil

/-- Operand `i` of a record is a distance that leads back from `count` values to position `index`,
which is one of them and below the bound. Only the lower half of the operand counts. -/
def RefersBack (scope : FunctionScope) (count : Nat) (r : Record) (i index : Nat) : Prop :=
  ∃ operand, r.operands[i]? = some operand ∧ 1 ≤ operand.toNat % 0x100000000 ∧
    operand.toNat % 0x100000000 ≤ count ∧ count - operand.toNat % 0x100000000 < scope.bound ∧
    index = count - operand.toNat % 0x100000000

theorem RefersBack.lt {scope : FunctionScope} {count : Nat} {r : Record} {i index : Nat}
    (h : RefersBack scope count r i index) : index < count := by
  obtain ⟨_, _, hpos, hle, _, rfl⟩ := h
  omega

/-! ## Distances -/

section

variable {count : Nat} (hcount : count < 0x100000000) (operand : UInt64)
include hcount

theorem toNat_sub_distance :
    (UInt32.ofNat count - operand.toUInt32).toNat =
      (0x100000000 - operand.toNat % 0x100000000 + count) % 0x100000000 := by
  rw [UInt32.toNat_sub, UInt32.toNat_ofNat_of_lt' hcount, UInt64.toNat_toUInt32]

theorem sub_distance_lt_iff :
    (UInt32.ofNat count - operand.toUInt32).toNat < count ↔
      1 ≤ operand.toNat % 0x100000000 ∧ operand.toNat % 0x100000000 ≤ count := by
  rw [toNat_sub_distance hcount]
  omega

theorem sub_distance_eq (hle : operand.toNat % 0x100000000 ≤ count) :
    (UInt32.ofNat count - operand.toUInt32).toNat = count - operand.toNat % 0x100000000 := by
  rw [toNat_sub_distance hcount]
  omega

end

/-! ## Resolving -/

section

variable {scope : FunctionScope} {count : Nat} {r : Record} {known : Option TypeId} {i index : Nat}

theorem Resolves.unique {index' : Nat} (h : Resolves scope count r i index)
    (h' : Resolves scope count r i index') : index = index' := by
  obtain ⟨distance, hdistance, rfl, -⟩ := h
  obtain ⟨distance', hdistance', rfl, -⟩ := h'
  cases hdistance.symm.trans hdistance'
  rfl

theorem resolve_of_resolves (h : Resolves scope count r i index) (known : Option TypeId)
    (p : Progress) : resolve scope count r known i p = .ok (index, i + 1) p := by
  refine Abides.eq_ok (.mono (.resolve fun hno => absurd h (hno index)) ?_) p
  rintro ⟨index', _⟩ ⟨hindex', rfl⟩
  rw [h.unique hindex']

/-- A position is resolved, or there is none and one error is reported. -/
theorem resolves_or_rejected (scope : FunctionScope) (count : Nat) (r : Record)
    (known : Option TypeId) (i : Nat) (p : Progress) :
    (∃ e, resolve scope count r known i p = .ok e p ∧
      Resolves scope count r i e.1 ∧ e.2 = i + 1) ∨
    (∀ index, ¬ Resolves scope count r i index) ∧ ∃ f : Finding, f.isError = true ∧
      resolve scope count r known i p = .error (.invalid none) (p.add ⟨p.location, f⟩) :=
  Abides.ok_or_rejected (.resolve fun hno => ⟨rfl, hno⟩) p

theorem resolves_iff_refersBack (hcount : count < 0x100000000) :
    Resolves scope count r i index ↔ RefersBack scope count r i index := by
  constructor
  · rintro ⟨operand, hget, rfl, hbound, hlt⟩
    obtain ⟨hpos, hle⟩ := (sub_distance_lt_iff hcount operand).mp hlt
    rw [sub_distance_eq hcount operand hle] at hbound ⊢
    exact ⟨operand, hget, hpos, hle, hbound, rfl⟩
  · rintro ⟨operand, hget, hpos, hle, hbound, rfl⟩
    have hlt := (sub_distance_lt_iff hcount operand).mpr ⟨hpos, hle⟩
    rw [sub_distance_eq hcount operand hle] at hlt
    exact ⟨operand, hget, (sub_distance_eq hcount operand hle).symm, hbound, hlt⟩

end

section

variable (scope : FunctionScope) {count : Nat} (hcount : count < 0x100000000) (r : Record)
  (known : Option TypeId) (i : Nat) (p : Progress)
include hcount

/-- A reference is resolved exactly if its distance leads back to a value below the bound. It is
then resolved to that value's position, one operand is read and nothing is reported. There is an
error otherwise, in particular for the value that the record defines itself and those to come. -/
theorem resolve_exact :
    (∀ index next p', resolve scope count r known i p = .ok (index, next) p' ↔
      RefersBack scope count r i index ∧ next = i + 1 ∧ p' = p) ∧
    ((∀ index, ¬ RefersBack scope count r i index) →
      ∃ f : Finding, f.isError = true ∧
        resolve scope count r known i p = .error (.invalid none) (p.add ⟨p.location, f⟩)) ∧
    ∀ index next p', resolve scope count r known i p = .ok (index, next) p' → index < count := by
  have hiff : ∀ index, Resolves scope count r i index ↔ RefersBack scope count r i index :=
    fun _ => resolves_iff_refersBack hcount
  have hexact : ∀ index next p', resolve scope count r known i p = .ok (index, next) p' ↔
      RefersBack scope count r i index ∧ next = i + 1 ∧ p' = p := by
    intro index next p'
    rw [← hiff]
    constructor
    · intro hrun
      obtain ⟨_, hok, hresolves, hnext⟩ | ⟨-, _, -, herror⟩ :=
        resolves_or_rejected scope count r known i p
      · rw [hok] at hrun
        cases hrun
        exact ⟨hresolves, hnext, rfl⟩
      · rw [herror] at hrun
        cases hrun
    · rintro ⟨hresolves, rfl, rfl⟩
      exact resolve_of_resolves hresolves known p'
  refine ⟨hexact, fun hnone => ?_, fun index next p' hrun => ((hexact index next p').mp hrun).1.lt⟩
  obtain ⟨_, -, hresolves, -⟩ | ⟨-, hrejected⟩ := resolves_or_rejected scope count r known i p
  · exact absurd ((hiff _).mp hresolves) (hnone _)
  · exact hrejected

end

/-- The longest list of values. A distance almost as long leads back to its second value, and one of
zero to the value that the record defines itself. -/
theorem resolve_exact_farthest :
    0xffffffff < 0x100000000 ∧
    resolve variableScope 0xffffffff { code := 2, operands := [0x1fffffffe] } none 0
      { location := { source := defaultSourceName } } =
        .ok (1, 1) { location := { source := defaultSourceName } } ∧
    ∃ f : Finding, f.isError = true ∧
      resolve variableScope 0xffffffff { code := 2, operands := [0x100000000] } none 0
        { location := { source := defaultSourceName } } =
          .error (.invalid none) (Progress.add { location := { source := defaultSourceName } }
            ⟨{ source := defaultSourceName }, f⟩) := by
  refine ⟨by decide, ?_, ?_⟩
  · exact ((resolve_exact variableScope (by decide) _ none 0 _).1 1 1 _).mpr
      ⟨⟨0x1fffffffe, rfl, by decide, by decide, by decide, by decide⟩, rfl, rfl⟩
  · refine (resolve_exact variableScope (by decide) _ none 0 _).2.1 fun index hback => ?_
    obtain ⟨operand, hget, hpos, -⟩ := hback
    cases hget
    exact absurd hpos (by decide)

end Dxil
