import Dxil.Proofs.Bits.Sees

/-!
# Dxil.Proofs.Bits.Vbr

Writing numbers at a variable bit rate, and moves to word boundaries.

* `vbrBits` : a number in chunks, each but the last marked as followed by another.
* `readVbr_of_sees` : reading takes back every 64-bit number so written.
* `padding` and `align_of_sees` : zeros up to the next word boundary are what alignment passes.
-/

namespace Dxil

theorem bind_of_ok {ε σ α β : Type} {x : EStateM ε σ α} {f : α → EStateM ε σ β} {s s' : σ} {a : α}
    (h : x s = .ok a s') : (x >>= f) s = f a s' := by
  change EStateM.bind x f s = _
  rw [EStateM.bind, h]

/-- The chunks of a number, least significant first. A chunk has `width - 1` bits of it, below the
bit that says whether another one follows. -/
def vbrBits (width value : Nat) : List Bool :=
  if width < 2 ∨ value < Nat.pow 2 (width - 1) then bitsOf width value
  else
    bitsOf width (Nat.pow 2 (width - 1) + value % Nat.pow 2 (width - 1)) ++
      vbrBits width (value / Nat.pow 2 (width - 1))
termination_by value
decreasing_by
  rename_i h
  have hpow : 2 ≤ Nat.pow 2 (width - 1) := by
    simpa using Nat.pow_le_pow_right (n := 2) (by omega) (show 1 ≤ width - 1 by omega)
  exact Nat.div_lt_self (by omega) hpow

theorem le_length_vbrBits (width value : Nat) : width ≤ (vbrBits width value).length := by
  rw [vbrBits]
  split <;> simp

namespace Cursor

variable {c : Cursor} {width value : Nat}

theorem readChunks_of_sees (hw : 2 ≤ width) (hw' : width ≤ 32) {chunks shift : Nat} (sum : Nat)
    (hfit : value * Nat.pow 2 shift < UInt64.size) (hpos : 0 < chunks)
    (hchunks : 64 ≤ chunks * (width - 1) + shift) (h : c.Sees (vbrBits width value)) :
    readChunks width chunks shift sum c =
      .ok (sum + value * Nat.pow 2 shift) (c.forward (vbrBits width value).length) := by
  -- One chunk per step: the rest of the number counts in units `width - 1` bits higher.
  induction chunks generalizing c value shift sum with
  | zero => omega
  | succ chunks ih =>
    obtain ⟨n, rfl⟩ : ∃ n, width = n + 1 := ⟨width - 1, by omega⟩
    simp only [Nat.add_sub_cancel] at hchunks ih ⊢
    rw [readChunks]
    simp only [Nat.add_sub_cancel]
    have hpow : Nat.pow 2 (n + 1) = Nat.pow 2 n + Nat.pow 2 n := by
      rw [Nat.pow_eq, Nat.pow_eq, Nat.pow_succ]
      omega
    have hshift : Nat.pow 2 (shift + n) = Nat.pow 2 shift * Nat.pow 2 n := Nat.pow_add 2 shift n
    have hn : 0 < Nat.pow 2 n := Nat.two_pow_pos n
    by_cases hlast : value < Nat.pow 2 n
    · have hbits : vbrBits (n + 1) value = bitsOf (n + 1) value := by
        rw [vbrBits, if_pos (.inr hlast)]
      rw [hbits] at h ⊢
      rw [bind_of_ok (read_of_sees hw' (by omega) h), Nat.mod_eq_of_lt hlast,
        if_neg (by omega), if_pos hlast, length_bitsOf]
      rfl
    · have hbits : vbrBits (n + 1) value =
          bitsOf (n + 1) (Nat.pow 2 n + value % Nat.pow 2 n) ++
            vbrBits (n + 1) (value / Nat.pow 2 n) := by
        rw [vbrBits, if_neg (by simp only [Nat.add_sub_cancel]; omega)]
        rfl
      have hmod : value % Nat.pow 2 n < Nat.pow 2 n := Nat.mod_lt _ hn
      have hsplit : value * Nat.pow 2 shift =
          value % Nat.pow 2 n * Nat.pow 2 shift +
            value / Nat.pow 2 n * Nat.pow 2 (shift + n) := by
        rw [hshift, Nat.mul_comm (Nat.pow 2 shift), ← Nat.mul_assoc, ← Nat.add_mul]
        congr 1
        rw [Nat.mul_comm]
        exact (Nat.mod_add_div value _).symm
      rw [hbits] at h ⊢
      obtain ⟨hchunk, hrest⟩ := sees_append.mp h
      rw [length_bitsOf] at hrest
      -- Another chunk is allowed, for the number reaches bit `shift + n`, which is below 64.
      have hmore : 0 < chunks := by
        have hle : Nat.pow 2 (shift + n) ≤ value * Nat.pow 2 shift := by
          rw [hshift, Nat.mul_comm]
          exact Nat.mul_le_mul_right _ (by omega)
        have hlt : shift + n < 64 :=
          (Nat.pow_lt_pow_iff_right (a := 2) (by omega)).mp (Nat.lt_of_le_of_lt hle hfit)
        rcases Nat.eq_zero_or_pos chunks with rfl | hc
        · omega
        · exact hc
      rw [bind_of_ok (read_of_sees hw' (by omega) hchunk), Nat.add_mod_left,
        Nat.mod_eq_of_lt hmod, if_neg (by omega), if_neg (by omega),
        ih _ (by omega) hmore (by rw [Nat.succ_mul] at hchunks; omega) hrest]
      simp only [forward_forward, List.length_append, length_bitsOf, hsplit, Nat.add_assoc]

theorem readVbr_of_sees (hw : 2 ≤ width) (hw' : width ≤ 32) (hv : value < UInt64.size)
    (h : c.Sees (vbrBits width value)) :
    readVbr width c = .ok value (c.forward (vbrBits width value).length) := by
  obtain ⟨n, rfl⟩ : ∃ n, width = n + 2 := ⟨width - 2, by omega⟩
  have hdiv := Nat.div_add_mod (64 + n) (n + 1)
  have hmod := Nat.mod_lt (64 + n) (show 0 < n + 1 by omega)
  have hone : value * Nat.pow 2 0 = value := Nat.mul_one value
  rw [readVbr, if_neg (by omega)]
  simp only [show n + 2 - 2 = n by omega, show n + 2 - 1 = n + 1 by omega]
  have hchunks : 64 ≤ (64 + n) / (n + 1) * (n + 2 - 1) + 0 := by
    rw [show n + 2 - 1 = n + 1 by omega, Nat.mul_comm]
    omega
  rw [readChunks_of_sees hw hw' 0 (by omega) (Nat.div_pos (by omega) (by omega)) hchunks h,
    hone, Nat.zero_add]

end Cursor

/-! ## Word boundaries -/

def padding (pos : Nat) : List Bool := List.replicate ((32 - pos % 32) % 32) false

theorem dvd_length_padding (pos : Nat) : 32 ∣ pos + (padding pos).length := by
  simp only [padding, List.length_replicate]
  omega

theorem Cursor.align_of_sees {c : Cursor} (h : c.Sees (padding c.pos)) :
    c.align = c.forward (padding c.pos).length := by
  refine Cursor.ext rfl ?_
  rw [Cursor.forward_pos h.length_le]
  simp only [padding, List.length_replicate, Cursor.align]
  omega

end Dxil
