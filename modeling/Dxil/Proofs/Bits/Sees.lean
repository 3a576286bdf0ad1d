import Dxil.Bits.Cursor

/-!
# Dxil.Proofs.Bits.Sees

What a cursor has in front of it, bit by bit.

* `bitsOf` : the low bits of a number, lowest first.
* `bit?` : a bit of a list of words.
* `Cursor.Sees c bits` : the bits come next. A reader is described by what it returns on a cursor
  that sees the right bits; it leaves the cursor at `c.forward n`, where `n` bits were read.
-/

namespace Dxil

/-- The low `width` bits of a number, lowest first. -/
def bitsOf (width value : Nat) : List Bool := (List.range width).map value.testBit

@[simp] theorem length_bitsOf (width value : Nat) : (bitsOf width value).length = width := by
  simp [bitsOf]

theorem getElem?_bitsOf {width value i : Nat} (hi : i < width) :
    (bitsOf width value)[i]? = some (value.testBit i) := by
  simp [bitsOf, hi]

def bit? (words : Array UInt32) (k : Nat) : Option Bool :=
  words[k / 32]?.map fun w => w.toNat.testBit (k % 32)

theorem lt_of_bit? {words : Array UInt32} {k : Nat} {b : Bool} (h : bit? words k = some b) :
    k < 32 * words.size := by
  simp only [bit?, Option.map_eq_some_iff] at h
  obtain ⟨w, hw, _⟩ := h
  obtain ⟨hlt, _⟩ := Array.getElem?_eq_some_iff.mp hw
  omega

theorem testBit_toNat_of_le (w : UInt32) {i : Nat} (hi : 32 ≤ i) : w.toNat.testBit i = false :=
  Nat.testBit_lt_two_pow (Nat.lt_of_lt_of_le w.toNat_lt (Nat.pow_le_pow_right (by omega) hi))

namespace Cursor

@[ext] theorem ext {c c' : Cursor} (hw : c.words = c'.words) (hp : c.pos = c'.pos) : c = c' := by
  cases c; cases c'
  simp_all

/-- The cursor `n` bits further on, at the end if there are fewer. -/
def forward (c : Cursor) (n : Nat) : Cursor :=
  ⟨c.words, min (c.pos + n) (32 * c.words.size), Nat.min_le_right _ _⟩

@[simp] theorem forward_words (c : Cursor) (n : Nat) : (c.forward n).words = c.words := rfl

@[simp] theorem forward_zero (c : Cursor) : c.forward 0 = c := by
  have := c.pos_le
  exact ext rfl (by simp only [forward]; omega)

@[simp] theorem forward_forward (c : Cursor) (m n : Nat) :
    (c.forward m).forward n = c.forward (m + n) := by
  apply ext
  · rfl
  · simp only [forward]
    omega

def Sees (c : Cursor) (bits : List Bool) : Prop :=
  ∀ i b, bits[i]? = some b → bit? c.words (c.pos + i) = some b

section

variable {c : Cursor} {bits as bs : List Bool} {width value : Nat}

theorem Sees.length_le (h : c.Sees bits) : bits.length ≤ c.left := by
  have := c.pos_le
  cases hn : bits.length with
  | zero => exact Nat.zero_le _
  | succ n =>
    have hlt := lt_of_bit? (h n _ (List.getElem?_eq_getElem (by omega)))
    simp only [left]
    omega

theorem forward_pos {n : Nat} (h : n ≤ c.left) : (c.forward n).pos = c.pos + n := by
  have := c.pos_le
  simp only [forward, left] at h ⊢
  omega

theorem sees_append : c.Sees (as ++ bs) ↔ c.Sees as ∧ (c.forward as.length).Sees bs := by
  constructor
  · intro h
    have ha : c.Sees as := by
      intro i b hb
      obtain ⟨hi, _⟩ := List.getElem?_eq_some_iff.mp hb
      exact h i b (by rwa [List.getElem?_append_left hi])
    refine ⟨ha, fun i b hb => ?_⟩
    rw [forward_pos ha.length_le, forward_words, Nat.add_assoc]
    refine h _ b ?_
    rw [List.getElem?_append_right (by omega)]
    simpa using hb
  · rintro ⟨ha, hs⟩ i b hb
    by_cases hi : i < as.length
    · exact ha i b (by rwa [List.getElem?_append_left hi] at hb)
    · rw [List.getElem?_append_right (by omega)] at hb
      have := hs _ b hb
      rwa [forward_pos ha.length_le, forward_words,
        show c.pos + as.length + (i - as.length) = c.pos + i by omega] at this

/-! ## Reading fields -/

theorem testBit_field (words : Array UInt32) (pos : Nat) {i : Nat} (hw : width ≤ 32)
    (hi : i < width) : (field words pos width).testBit i =
      (words.getD ((pos + i) / 32) 0).toNat.testBit ((pos + i) % 32) := by
  simp only [field, Nat.pow_eq, Nat.testBit_mod_two_pow, hi, decide_true, Bool.true_and,
    Nat.testBit_or, Nat.testBit_shiftRight, Nat.testBit_shiftLeft]
  -- The bit is in the first word or, if the field straddles two, in the second.
  by_cases hs : pos % 32 + i < 32
  · rw [show (pos + i) / 32 = pos / 32 by omega, show (pos + i) % 32 = pos % 32 + i by omega]
    simp [show ¬ 32 - pos % 32 ≤ i by omega]
  · rw [show (pos + i) / 32 = pos / 32 + 1 by omega,
      show (pos + i) % 32 = i - (32 - pos % 32) by omega, testBit_toNat_of_le _ (by omega)]
    simp [show 32 - pos % 32 ≤ i by omega]

theorem field_lt (words : Array UInt32) (pos width : Nat) :
    field words pos width < Nat.pow 2 width :=
  Nat.mod_lt _ (Nat.two_pow_pos width)

theorem field_of_dvd (words : Array UInt32) {pos : Nat} (hw : width ≤ 32) (hpos : 32 ∣ pos) :
    field words pos width = (words.getD (pos / 32) 0).toNat % Nat.pow 2 width := by
  apply Nat.eq_of_testBit_eq
  intro i
  rw [Nat.pow_eq, Nat.testBit_mod_two_pow]
  by_cases hi : i < width
  · rw [testBit_field _ _ hw hi, show (pos + i) / 32 = pos / 32 by omega,
      show (pos + i) % 32 = i by omega]
    simp [hi]
  · simp [field, Nat.testBit_mod_two_pow, hi]

theorem Sees.field_eq (hw : width ≤ 32) (hv : value < Nat.pow 2 width)
    (h : c.Sees (bitsOf width value)) : field c.words c.pos width = value := by
  apply Nat.eq_of_testBit_eq
  intro i
  by_cases hi : i < width
  · have hb := h i _ (getElem?_bitsOf hi)
    simp only [bit?, Option.map_eq_some_iff] at hb
    obtain ⟨w, hword, hb⟩ := hb
    rw [testBit_field _ _ hw hi, Array.getD_eq_getD_getElem?, hword]
    exact hb
  · have hpow : Nat.pow 2 width ≤ Nat.pow 2 i := Nat.pow_le_pow_right (by omega) (by omega)
    rw [Nat.testBit_lt_two_pow (Nat.lt_of_lt_of_le hv hpow),
      Nat.testBit_lt_two_pow (Nat.lt_of_lt_of_le (field_lt _ _ _) hpow)]

theorem read_of_sees (hw : width ≤ 32) (hv : value < Nat.pow 2 width)
    (h : c.Sees (bitsOf width value)) : read width c = .ok value (c.forward width) := by
  have hl : width ≤ c.left := by simpa using h.length_le
  have hadv : c.advance width hl = c.forward width := ext rfl (forward_pos hl).symm
  rw [read, if_neg (by omega), dif_pos hl, h.field_eq hw hv, hadv]

end

end Cursor

end Dxil
