import Dxil.Proofs.Module.ConstantRecords

/-!
# Dxil.Proofs.Module.RotatedIntegers

Integers are stored with their sign in bit 0, and decoding gives every integer of a width back.

* `FitsSigned` : the integers of a width.
* `encodeRotated` : the operand that an integer is stored as.
* `signRotated_encodeRotated` : as an integer, the operand stands for the one that was stored. At 64
  bits the least integer has no room for its magnitude, and only the sign is left of it.
* `decodeRotated_encodeRotated` : decoding gives its bits.
-/

namespace Dxil

/-- An integer of a width, in two's complement. -/
def FitsSigned (width : Nat) (v : Int) : Prop :=
  -(Nat.pow 2 (width - 1) : Nat) ≤ v ∧ v < (Nat.pow 2 (width - 1) : Nat)

/-- The operand that an integer is stored as: twice its magnitude, and one more below zero. What
goes beyond 64 bits is lost. -/
def encodeRotated (v : Int) : UInt64 := UInt64.ofNat (2 * v.natAbs + if v < 0 then 1 else 0)

section

variable {width : Nat} {v : Int}

theorem FitsSigned.natAbs_le (h : FitsSigned width v) (hwidth : width ≤ 64) :
    v.natAbs ≤ Nat.pow 2 (width - 1) ∧ Nat.pow 2 (width - 1) ≤ 0x8000000000000000 := by
  obtain ⟨hlow, hhigh⟩ := h
  refine ⟨by omega, ?_⟩
  exact Nat.pow_le_pow_right (n := 2) (j := 63) (by decide) (by omega)

theorem toNat_encodeRotated (v : Int) :
    (encodeRotated v).toNat = (2 * v.natAbs + if v < 0 then 1 else 0) % 0x10000000000000000 :=
  UInt64.toNat_ofNat'

theorem signRotated_encodeRotated (hwidth : width ≤ 64) (h : FitsSigned width v) :
    signRotated (encodeRotated v) width = v := by
  obtain ⟨hle, hhalf⟩ := h.natAbs_le hwidth
  have hencode := toNat_encodeRotated v
  have hone : encodeRotated v = 1 ↔ (encodeRotated v).toNat = 1 := UInt64.toNat_inj.symm
  unfold signRotated
  by_cases hsign : v < 0
  · rw [if_pos hsign] at hencode
    by_cases hleast : v.natAbs = 0x8000000000000000
    · -- Twice this magnitude is lost, and the lone sign stands for the least integer.
      rw [if_pos (hone.mpr (by omega))]
      omega
    · rw [if_neg (mt hone.mp (by omega)), if_pos (by omega)]
      omega
  · have hlt := h.2
    rw [if_neg hsign] at hencode
    rw [if_neg (mt hone.mp (by omega)), if_neg (by omega)]
    omega

theorem toNat_decodeRotated_lt (operand : UInt64) (hwidth : width ≤ 64) :
    (decodeRotated operand width).toNat < Nat.pow 2 width := by
  rw [toNat_decodeRotated_eq operand hwidth]
  exact Nat.mod_lt _ (Nat.pow_pos (by decide))

theorem toNat_decodeRotated_one (hpos : 1 ≤ width) (hwidth : width ≤ 64) :
    (decodeRotated 1 width).toNat = Nat.pow 2 (width - 1) := by
  have hshift : min (max width 1) 64 - 1 = width - 1 := by omega
  rw [toNat_decodeRotated_eq 1 hwidth, decodeWide, if_pos rfl, hshift,
    toNat_one_shiftLeft (by omega)]
  exact Nat.mod_eq_of_lt (Nat.pow_lt_pow_right (by decide) (by omega))

/-- Every integer of a width is decoded to its bits from the operand that it is stored as, the lone
sign to those of the least integer, and any operand to no more bits than the width has. -/
theorem decodeRotated_encodeRotated (hpos : 1 ≤ width) (hwidth : width ≤ 64) :
    (∀ v, FitsSigned width v →
      ((decodeRotated (encodeRotated v) width).toNat : Int) = v % (Nat.pow 2 width : Nat)) ∧
    (decodeRotated 1 width).toNat = Nat.pow 2 (width - 1) ∧
    ∀ operand, (decodeRotated operand width).toNat < Nat.pow 2 width := by
  refine ⟨fun v hv => ?_, toNat_decodeRotated_one hpos hwidth, fun operand =>
    toNat_decodeRotated_lt operand hwidth⟩
  rw [toNat_decodeRotated _ hpos hwidth, signRotated_encodeRotated hwidth hv]

end

/-- The least integers of 64 and of 32 bits. The second has room for its magnitude. -/
theorem decodeRotated_encodeRotated_least :
    (((decodeRotated (encodeRotated (-0x8000000000000000)) 64).toNat : Int) =
        -0x8000000000000000 % (Nat.pow 2 64 : Nat) ∧
      encodeRotated (-0x8000000000000000) = 1) ∧
    ((decodeRotated (encodeRotated (-0x80000000)) 32).toNat : Int) =
        -0x80000000 % (Nat.pow 2 32 : Nat) ∧
      encodeRotated (-0x80000000) ≠ 1 :=
  ⟨⟨(decodeRotated_encodeRotated (by decide) (by decide)).1 _ ⟨by decide, by decide⟩, rfl⟩,
    (decodeRotated_encodeRotated (by decide) (by decide)).1 _ ⟨by decide, by decide⟩, by decide⟩

end Dxil
