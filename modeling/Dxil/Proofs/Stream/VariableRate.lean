import Dxil.Proofs.Stream.Records

/-!
# Dxil.Proofs.Stream.VariableRate

Numbers at a variable bit rate, read from bits that nobody need have written as such.

* `Cursor.remaining` : the bits ahead of a cursor.
* `vbrChunk`, `EndsAt`, `vbrSum` : what a string of bits says at a variable bit rate. The sum is an
  unbounded number.
* `readChunks_eq_ok_iff` : the loop, from any chunk on.
* `readVbr_exact` : reading gives a number exactly if it ends inside the stream and has 64 bits.
-/

namespace Dxil

open Cursor

/-! ## The bits ahead -/

theorem length_flatMap_bitsOf (words : List UInt32) :
    (words.flatMap fun w => bitsOf 32 w.toNat).length = 32 * words.length := by
  induction words with
  | nil => rfl
  | cons w words ih =>
    rw [List.flatMap_cons, List.length_append, length_bitsOf, ih, List.length_cons]
    omega

theorem getElem?_flatMap_bitsOf (words : List UInt32) (k : Nat) :
    (words.flatMap fun w => bitsOf 32 w.toNat)[k]? =
      words[k / 32]?.map fun w => w.toNat.testBit (k % 32) := by
  induction words generalizing k with
  | nil => rfl
  | cons w words ih =>
    rw [List.flatMap_cons]
    by_cases hk : k < 32
    · rw [List.getElem?_append_left (by simpa using hk), getElem?_bitsOf hk,
        show k / 32 = 0 by omega, Nat.mod_eq_of_lt hk]
      rfl
    · rw [List.getElem?_append_right (by simpa using hk), length_bitsOf, ih,
        show k / 32 = (k - 32) / 32 + 1 by omega, List.getElem?_cons_succ,
        show (k - 32) % 32 = k % 32 by omega]

namespace Cursor

/-- The bits ahead, from the lowest of each word on. -/
def remaining (c : Cursor) : List Bool :=
  (c.words.toList.flatMap fun w => bitsOf 32 w.toNat).drop c.pos

variable {c : Cursor} {width n : Nat}

@[simp] theorem length_remaining (c : Cursor) : c.remaining.length = c.left := by
  rw [remaining, List.length_drop, length_flatMap_bitsOf, Array.length_toList, left]

theorem remaining_forward (h : n ≤ c.left) : (c.forward n).remaining = c.remaining.drop n := by
  rw [remaining, remaining, List.drop_drop, forward_pos h, forward_words]

theorem left_forward (h : n ≤ c.left) : (c.forward n).left = c.left - n := by
  rw [← length_remaining, remaining_forward h, List.length_drop, length_remaining]

theorem sees_take_remaining (c : Cursor) (n : Nat) : c.Sees (c.remaining.take n) := by
  intro i b h
  rw [List.getElem?_take] at h
  split at h
  · rwa [remaining, List.getElem?_drop, getElem?_flatMap_bitsOf, Array.getElem?_toList] at h
  · cases h

end Cursor

theorem natOfBits_lt (bits : List Bool) : natOfBits bits < Nat.pow 2 bits.length := by
  induction bits with
  | nil => exact Nat.one_pos
  | cons b bits ih =>
    have hb := Bool.toNat_lt b
    rw [Nat.pow_eq] at ih ⊢
    rw [natOfBits, List.length_cons, Nat.pow_succ]
    omega

theorem bitsOf_natOfBits (bits : List Bool) : bitsOf bits.length (natOfBits bits) = bits := by
  apply List.ext_getElem?
  intro i
  by_cases hi : i < bits.length
  · rw [getElem?_bitsOf hi, testBit_natOfBits, List.getD_eq_getElem?_getD,
      List.getElem?_eq_getElem hi, Option.getD_some]
  · rw [List.getElem?_eq_none (by simpa using hi), List.getElem?_eq_none (by omega)]

theorem Cursor.read_of_le {c : Cursor} {width : Nat} (hw : width ≤ 32) (h : width ≤ c.left) :
    read width c = .ok (natOfBits (c.remaining.take width)) (c.forward width) := by
  have hlength : (c.remaining.take width).length = width := by
    rw [List.length_take, length_remaining, Nat.min_eq_left h]
  have hlt := natOfBits_lt (c.remaining.take width)
  have hsees := c.sees_take_remaining width
  rw [← bitsOf_natOfBits (c.remaining.take width)] at hsees
  rw [hlength] at hlt hsees
  exact read_of_sees hw hlt hsees

theorem Cursor.read_of_not_le {c : Cursor} {width : Nat} (hw : width ≤ 32)
    (h : ¬ width ≤ c.left) : read width c = .error .bufferOverflow c := by
  rw [read, if_neg (by omega), dif_neg h]

/-! ## What bits say at a variable bit rate -/

/-- Chunk number `i` of a string of bits. -/
def vbrChunk (width : Nat) (bits : List Bool) (i : Nat) : Nat :=
  natOfBits ((bits.drop (i * width)).take width)

/-- Chunk number `m` is the first without the bit that says that another one follows. -/
structure EndsAt (width : Nat) (bits : List Bool) (m : Nat) : Prop where
  follows : ∀ i < m, (vbrChunk width bits i).testBit (width - 1) = true
  last : (vbrChunk width bits m).testBit (width - 1) = false

def vbrPayload (width : Nat) (bits : List Bool) (i : Nat) : Nat :=
  vbrChunk width bits i % Nat.pow 2 (width - 1) * Nat.pow 2 (i * (width - 1))

/-- The number in the chunks up to number `m`, however large. -/
def vbrSum (width : Nat) (bits : List Bool) : (m : Nat) → Nat
  | 0 => vbrPayload width bits 0
  | m + 1 => vbrSum width bits m + vbrPayload width bits (m + 1)

section

variable {width m : Nat} {bits : List Bool}

theorem vbrChunk_lt (width : Nat) (bits : List Bool) (i : Nat) :
    vbrChunk width bits i < Nat.pow 2 width :=
  Nat.lt_of_lt_of_le (natOfBits_lt _) (Nat.pow_le_pow_right (by omega) (List.length_take_le _ _))

theorem vbrChunk_zero (width : Nat) (bits : List Bool) :
    vbrChunk width bits 0 = natOfBits (bits.take width) := by
  rw [vbrChunk, Nat.zero_mul, List.drop_zero]

theorem vbrChunk_drop (width : Nat) (bits : List Bool) (i : Nat) :
    vbrChunk width (bits.drop width) i = vbrChunk width bits (i + 1) := by
  rw [vbrChunk, vbrChunk, List.drop_drop, Nat.succ_mul, Nat.add_comm]

theorem testBit_vbrChunk (hw : 1 ≤ width) (i : Nat) :
    (vbrChunk width bits i).testBit (width - 1) =
      decide (Nat.pow 2 (width - 1) ≤ vbrChunk width bits i) := by
  obtain ⟨n, rfl⟩ : ∃ n, width = n + 1 := ⟨width - 1, by omega⟩
  have hlt := vbrChunk_lt (n + 1) bits i
  rw [Nat.add_sub_cancel]
  by_cases h : Nat.pow 2 n ≤ vbrChunk (n + 1) bits i
  · rw [decide_eq_true h]
    exact Nat.testBit_of_two_pow_le_and_two_pow_add_one_gt h hlt
  · rw [decide_eq_false h]
    exact Nat.testBit_lt_two_pow (Nat.lt_of_not_le h)

theorem endsAt_zero :
    EndsAt width bits 0 ↔ (vbrChunk width bits 0).testBit (width - 1) = false :=
  ⟨fun h => h.last, fun h => ⟨by simp, h⟩⟩

theorem EndsAt.eq_zero (h : EndsAt width bits m)
    (htop : (vbrChunk width bits 0).testBit (width - 1) = false) : m = 0 := by
  refine Nat.eq_zero_of_not_pos fun hm => ?_
  rw [h.follows 0 hm] at htop
  cases htop

theorem EndsAt.ne_zero (h : EndsAt width bits m)
    (htop : (vbrChunk width bits 0).testBit (width - 1) = true) : m ≠ 0 := by
  rintro rfl
  rw [h.last] at htop
  cases htop

theorem endsAt_succ : EndsAt width bits (m + 1) ↔
    (vbrChunk width bits 0).testBit (width - 1) = true ∧ EndsAt width (bits.drop width) m := by
  constructor
  · intro h
    refine ⟨h.follows 0 (by omega), fun i hi => ?_, ?_⟩
    · rw [vbrChunk_drop]
      exact h.follows (i + 1) (by omega)
    · rw [vbrChunk_drop]
      exact h.last
  · rintro ⟨hfirst, hfollows, hlast⟩
    refine ⟨fun i hi => ?_, ?_⟩
    · cases i with
      | zero => exact hfirst
      | succ i =>
        rw [← vbrChunk_drop]
        exact hfollows i (by omega)
    · rw [← vbrChunk_drop]
      exact hlast

theorem vbrPayload_drop (width : Nat) (bits : List Bool) (i : Nat) :
    vbrPayload width bits (i + 1) =
      vbrPayload width (bits.drop width) i * Nat.pow 2 (width - 1) := by
  have hpow : Nat.pow 2 ((i + 1) * (width - 1)) =
      Nat.pow 2 (i * (width - 1)) * Nat.pow 2 (width - 1) := by
    rw [Nat.succ_mul]
    exact Nat.pow_add 2 _ _
  rw [vbrPayload, vbrPayload, vbrChunk_drop, hpow, Nat.mul_assoc]

theorem vbrSum_zero :
    vbrSum width bits 0 = natOfBits (bits.take width) % Nat.pow 2 (width - 1) := by
  rw [vbrSum, vbrPayload, vbrChunk_zero, Nat.zero_mul]
  exact Nat.mul_one _

theorem vbrSum_zero_lt (width : Nat) (bits : List Bool) :
    vbrSum width bits 0 < Nat.pow 2 (width - 1) := by
  rw [vbrSum_zero]
  exact Nat.mod_lt _ (Nat.two_pow_pos _)

/-- The chunks behind the first count in units `width - 1` bits higher. -/
theorem vbrSum_succ : vbrSum width bits (m + 1) =
    vbrSum width bits 0 + vbrSum width (bits.drop width) m * Nat.pow 2 (width - 1) := by
  induction m with
  | zero =>
    change vbrSum width bits 0 + vbrPayload width bits 1 = _
    rw [vbrPayload_drop]
    rfl
  | succ m ih =>
    change vbrSum width bits (m + 1) + vbrPayload width bits (m + 1 + 1) = _
    rw [ih, vbrPayload_drop, Nat.add_assoc, ← Nat.add_mul]
    rfl

end

/-! ## Reading it -/

namespace Cursor

variable {width chunks shift sum v m : Nat} {c c' : Cursor}

section

variable (hw : 1 ≤ width) (hw' : width ≤ 32) (h : width ≤ c.left)
include hw hw' h

theorem readChunks_of_last (hlast : (vbrChunk width c.remaining 0).testBit (width - 1) = false) :
    readChunks width (chunks + 1) shift sum c =
      if UInt64.size ≤ vbrSum width c.remaining 0 * Nat.pow 2 shift then
        .error .vbrOverflow (c.forward width)
      else .ok (sum + vbrSum width c.remaining 0 * Nat.pow 2 shift) (c.forward width) := by
  rw [testBit_vbrChunk hw, vbrChunk_zero, decide_eq_false_iff_not] at hlast
  rw [readChunks, bind_of_ok (read_of_le hw' h), vbrSum_zero]
  dsimp only
  rw [if_pos (Nat.lt_of_not_le hlast)]
  split <;> rfl

theorem readChunks_of_more (hmore : (vbrChunk width c.remaining 0).testBit (width - 1) = true) :
    readChunks width (chunks + 1) shift sum c =
      if UInt64.size ≤ vbrSum width c.remaining 0 * Nat.pow 2 shift then
        .error .vbrOverflow (c.forward width)
      else
        readChunks width chunks (shift + (width - 1))
          (sum + vbrSum width c.remaining 0 * Nat.pow 2 shift) (c.forward width) := by
  rw [testBit_vbrChunk hw, vbrChunk_zero, decide_eq_true_eq] at hmore
  rw [readChunks, bind_of_ok (read_of_le hw' h), vbrSum_zero]
  dsimp only
  rw [if_neg (Nat.not_lt.mpr hmore)]
  split <;> rfl

end

theorem pow_shift_add (shift n : Nat) : Nat.pow 2 (shift + n) = Nat.pow 2 n * Nat.pow 2 shift := by
  rw [Nat.add_comm]
  exact Nat.pow_add 2 n shift

/-- A number in units of `2 ^ shift` has 64 bits if what is behind its first `n` bits has. -/
theorem mul_pow_lt_iff {first n : Nat} (rest : Nat) (hfirst : first < Nat.pow 2 n)
    (h : shift + n ≤ 64) :
    (first + rest * Nat.pow 2 n) * Nat.pow 2 shift < UInt64.size ↔
      rest * Nat.pow 2 (shift + n) < UInt64.size := by
  obtain ⟨k, hk⟩ : ∃ k, 64 = k + (shift + n) := ⟨64 - (shift + n), by omega⟩
  have hsize : UInt64.size = Nat.pow 2 k * Nat.pow 2 (shift + n) := by
    rw [show UInt64.size = Nat.pow 2 64 from rfl, hk]
    exact Nat.pow_add 2 k (shift + n)
  constructor
  · intro hlt
    refine Nat.lt_of_le_of_lt ?_ hlt
    rw [pow_shift_add, ← Nat.mul_assoc]
    exact Nat.mul_le_mul_right _ (Nat.le_add_left _ _)
  · intro hlt
    rw [hsize] at hlt
    have hrest : rest + 1 ≤ Nat.pow 2 k := Nat.lt_of_mul_lt_mul_right hlt
    calc (first + rest * Nat.pow 2 n) * Nat.pow 2 shift
        < (rest + 1) * Nat.pow 2 n * Nat.pow 2 shift := by
          refine Nat.mul_lt_mul_of_pos_right ?_ (Nat.two_pow_pos shift)
          rw [Nat.succ_mul]
          omega
      _ = (rest + 1) * Nat.pow 2 (shift + n) := by rw [pow_shift_add, Nat.mul_assoc]
      _ ≤ UInt64.size := by
          rw [hsize]
          exact Nat.mul_le_mul_right _ hrest

/-- The number ahead ends with chunk `m`, inside the stream and among the next `chunks` chunks, and
in units of `2 ^ shift` it has 64 bits. -/
structure EndsAmong (width chunks shift : Nat) (c : Cursor) (m : Nat) : Prop where
  ends : EndsAt width c.remaining m
  inside : (m + 1) * width ≤ c.left
  among : m < chunks
  fits : vbrSum width c.remaining m * Nat.pow 2 shift < UInt64.size

/-- The same, seen from behind a chunk that another one follows. -/
theorem endsAmong_succ (hleft : width ≤ c.left) (hshift : shift + (width - 1) ≤ 64)
    (hmore : (vbrChunk width c.remaining 0).testBit (width - 1) = true) :
    EndsAmong width (chunks + 1) shift c (m + 1) ↔
      EndsAmong width chunks (shift + (width - 1)) (c.forward width) m := by
  have hfits := mul_pow_lt_iff (vbrSum width (c.remaining.drop width) m)
    (vbrSum_zero_lt width c.remaining) hshift
  rw [← vbrSum_succ] at hfits
  have hinside : (m + 1 + 1) * width ≤ c.left ↔ (m + 1) * width ≤ c.left - width := by
    rw [Nat.succ_mul]
    omega
  constructor
  · rintro ⟨hends, hin, hamong, hfit⟩
    refine ⟨?_, ?_, by omega, ?_⟩
    · rw [remaining_forward hleft]
      exact (endsAt_succ.mp hends).2
    · rw [left_forward hleft]
      exact hinside.mp hin
    · rw [remaining_forward hleft]
      exact hfits.mp hfit
  · rintro ⟨hends, hin, hamong, hfit⟩
    rw [remaining_forward hleft] at hends hfit
    rw [left_forward hleft] at hin
    exact ⟨endsAt_succ.mpr ⟨hmore, hends⟩, hinside.mpr hin, by omega, hfits.mpr hfit⟩

/-- The loop, with as many chunks to go as can still start below bit 64. -/
theorem readChunks_eq_ok_iff (hw : 2 ≤ width) (hw' : width ≤ 32)
    (hleast : 64 ≤ chunks * (width - 1) + shift)
    (hmost : chunks * (width - 1) + shift < 64 + (width - 1)) :
    readChunks width chunks shift sum c = .ok v c' ↔
      ∃ m, EndsAmong width chunks shift c m ∧
        v = sum + vbrSum width c.remaining m * Nat.pow 2 shift ∧
        c' = c.forward ((m + 1) * width) := by
  induction chunks generalizing c shift sum with
  | zero => exact ⟨by rintro ⟨⟩, by rintro ⟨m, ⟨-, -, ⟨⟩, -⟩, -⟩⟩
  | succ chunks ih =>
    rw [Nat.succ_mul] at hleast hmost
    by_cases hleft : width ≤ c.left
    · cases htop : (vbrChunk width c.remaining 0).testBit (width - 1) with
      | false =>
        rw [readChunks_of_last (by omega) hw' hleft htop]
        constructor
        · intro h
          split at h
          · cases h
          · cases h
            refine ⟨0, ⟨endsAt_zero.mpr htop, by omega, by omega, Nat.lt_of_not_le ‹_›⟩, rfl, ?_⟩
            rw [Nat.zero_add, Nat.one_mul]
        · rintro ⟨m, hends, rfl, rfl⟩
          obtain rfl := hends.ends.eq_zero htop
          rw [if_neg (Nat.not_le.mpr hends.fits), Nat.zero_add, Nat.one_mul]
      | true =>
        rw [readChunks_of_more (by omega) hw' hleft htop]
        rcases Nat.eq_zero_or_pos chunks with rfl | hpos
        · -- The next chunk would start at bit 64 or beyond it.
          constructor
          · intro h
            split at h
            · cases h
            · cases h
          · rintro ⟨m, hends, -⟩
            have hamong := hends.among
            exact absurd (by omega) (hends.ends.ne_zero htop)
        · have hchunks := Nat.le_mul_of_pos_left (width - 1) hpos
          have hshift : shift + (width - 1) ≤ 64 := by omega
          have hfit : vbrSum width c.remaining 0 * Nat.pow 2 shift < UInt64.size := by
            simpa using (mul_pow_lt_iff 0 (vbrSum_zero_lt width c.remaining) hshift).mpr
              (by simp)
          rw [if_neg (Nat.not_le.mpr hfit), ih (by omega) (by omega)]
          constructor
          · rintro ⟨m, hends, rfl, rfl⟩
            refine ⟨m + 1, (endsAmong_succ hleft hshift htop).mpr hends, ?_, ?_⟩
            · rw [remaining_forward hleft, vbrSum_succ, Nat.add_mul, pow_shift_add, Nat.mul_assoc,
                Nat.add_assoc]
            · rw [forward_forward, Nat.succ_mul (m + 1), Nat.add_comm width]
          · rintro ⟨m, hends, rfl, rfl⟩
            obtain ⟨m, rfl⟩ := Nat.exists_eq_succ_of_ne_zero (hends.ends.ne_zero htop)
            refine ⟨m, (endsAmong_succ hleft hshift htop).mp hends, ?_, ?_⟩
            · rw [remaining_forward hleft, vbrSum_succ, Nat.add_mul, pow_shift_add, Nat.mul_assoc,
                Nat.add_assoc]
            · rw [forward_forward, Nat.succ_mul (m + 1), Nat.add_comm width]
    · rw [readChunks, bind_of_error (read_of_not_le hw' hleft)]
      refine ⟨by rintro ⟨⟩, ?_⟩
      rintro ⟨m, ⟨-, hin, -⟩, -⟩
      rw [Nat.succ_mul] at hin
      omega

theorem chunks_bounds (hw : 2 ≤ width) :
    64 ≤ (64 + (width - 2)) / (width - 1) * (width - 1) ∧
      (64 + (width - 2)) / (width - 1) * (width - 1) < 64 + (width - 1) := by
  obtain ⟨n, rfl⟩ : ∃ n, width = n + 2 := ⟨width - 2, by omega⟩
  have hdiv := Nat.div_add_mod (64 + n) (n + 1)
  have hmod := Nat.mod_lt (64 + n) (show 0 < n + 1 by omega)
  simp only [show n + 2 - 2 = n by omega, show n + 2 - 1 = n + 1 by omega]
  rw [Nat.mul_comm]
  omega

/-- Reading at a variable bit rate gives what the bits ahead say, and nothing else.

A number is read exactly if it ends inside the stream, with one of the chunks that start below bit
64, and has 64 bits. The cursor then comes to lie right behind its last chunk. So every 64-bit
number is read back wherever it was written. -/
theorem readVbr_exact (width : Nat) (hw : 2 ≤ width) (hw' : width ≤ 32) :
    (∀ (c c' : Cursor) (v : Nat), readVbr width c = .ok v c' ↔
      ∃ m, EndsAt width c.remaining m ∧ (m + 1) * width ≤ c.remaining.length ∧
        m < (64 + (width - 2)) / (width - 1) ∧ vbrSum width c.remaining m < UInt64.size ∧
        v = vbrSum width c.remaining m ∧
        c'.words = c.words ∧ c'.pos = c.pos + (m + 1) * width) ∧
    ∀ (value : UInt64) (before after : List Bool),
      readVbr width (between before (vbrBits width value.toNat ++ after)) =
        .ok value.toNat (between (before ++ vbrBits width value.toNat) after) := by
  constructor
  · intro c c' v
    obtain ⟨hleast, hmost⟩ := chunks_bounds hw
    have hone (n : Nat) : n * Nat.pow 2 0 = n := Nat.mul_one n
    rw [readVbr, if_neg (by omega), readChunks_eq_ok_iff hw hw' hleast hmost]
    constructor
    · rintro ⟨m, ⟨hends, hinside, hamong, hfits⟩, rfl, rfl⟩
      rw [hone] at hfits
      refine ⟨m, hends, by rwa [length_remaining], hamong, hfits, ?_, rfl, forward_pos hinside⟩
      rw [hone, Nat.zero_add]
    · rintro ⟨m, hends, hinside, hamong, hfits, rfl, hwords, hpos⟩
      rw [length_remaining] at hinside
      refine ⟨m, ⟨hends, hinside, hamong, by rwa [hone]⟩, ?_, ?_⟩
      · rw [hone, Nat.zero_add]
      · exact Cursor.ext hwords (hpos.trans (forward_pos hinside).symm)
  · intro value before after
    rw [readVbr_of_sees hw hw' value.toNat_lt (sees_between _ _ _), forward_between]

/-- The largest number in the widest chunks, off a word boundary. Its last chunk reaches beyond bit
64, where it has only zeros. -/
theorem readVbr_exact_widest :
    let value : UInt64 := 0xffffffffffffffff
    let c := between (List.replicate 7 true) (vbrBits 32 value.toNat ++ [true])
    2 ≤ 32 ∧ 32 ≤ 32 ∧ (∃ c', readVbr 32 c = .ok value.toNat c') ∧
      ∃ m, EndsAt 32 c.remaining m ∧ m < 3 ∧ vbrSum 32 c.remaining m = value.toNat := by
  intro value c
  obtain ⟨hexact, hwritten⟩ := readVbr_exact 32 (by decide) (by decide)
  have hread := hwritten value (List.replicate 7 true) [true]
  obtain ⟨m, hends, -, hamong, -, hsum, -⟩ := (hexact _ _ _).mp hread
  exact ⟨by decide, by decide, ⟨_, hread⟩, m, hends, hamong, hsum.symm⟩

end Cursor

end Dxil
