import Dxil.Bits.Words

/-!
# Dxil.Bits.Cursor

A position in a stream of 32-bit words, read bit by bit from the least significant bit of each
word. Fields may straddle words.

* `Cursor` : words and a bit position inside them.
* `read`, `readFixed`, `readVbr` : fields of up to 32 bits, of up to 64 bits, and of variable bit
  rate; a failed read says where it left the cursor.
* `align`, `skipWords` : moves to word boundaries.
* `Shortens` : a reader that never goes back. Loops over a stream end by what is `left`.
-/

namespace Dxil

inductive BitError where
  /-- The field reaches past the last word. -/
  | bufferOverflow
  /-- The number needs more than 64 bits. -/
  | vbrOverflow
  | invalidWidth (width : Nat)
  deriving DecidableEq, Repr

def BitError.message : BitError → String
  | .bufferOverflow => "buffer overflow"
  | .vbrOverflow => "vbr overflow"
  | .invalidWidth width => s!"invalid field width {width}"

/-- A bit position in a list of words. The end of the last word is a position too. -/
structure Cursor where
  words : Array UInt32
  pos : Nat
  pos_le : pos ≤ 32 * words.size
  deriving DecidableEq

/-- Readers keep the cursor on failure. -/
abbrev BitReader := EStateM BitError Cursor

namespace Cursor

def start (words : Array UInt32) : Cursor := ⟨words, 0, Nat.zero_le _⟩

def at? (words : Array UInt32) (word bit : Nat) : Option Cursor :=
  if h : bit < 32 ∧ 32 * word + bit ≤ 32 * words.size then some ⟨words, 32 * word + bit, h.2⟩
  else none

def word (c : Cursor) : Nat := c.pos / 32

def bit (c : Cursor) : Nat := c.pos % 32

def left (c : Cursor) : Nat := 32 * c.words.size - c.pos

def isAtEnd (c : Cursor) : Bool := c.words.size ≤ c.word

/-- The number in the `width ≤ 32` bits from bit `pos` on. -/
def field (words : Array UInt32) (pos width : Nat) : Nat :=
  let low := (words.getD (pos / 32) 0).toNat >>> (pos % 32)
  let high := (words.getD (pos / 32 + 1) 0).toNat <<< (32 - pos % 32)
  (low ||| high) % Nat.pow 2 width

def advance (c : Cursor) (width : Nat) (h : width ≤ c.left) : Cursor :=
  ⟨c.words, c.pos + width, by have := c.pos_le; unfold left at h; omega⟩

def read (width : Nat) : BitReader Nat := fun c =>
  if 32 < width then .error (.invalidWidth width) c
  else if h : width ≤ c.left then .ok (field c.words c.pos width) (c.advance width h)
  else .error .bufferOverflow c

/-- A field of up to 64 bits. The low word of a wide field is read even if the high part is
missing. -/
def readFixed (width : Nat) : BitReader Nat :=
  if 64 < width then throw (.invalidWidth width)
  else if width ≤ 32 then read width
  else do
    let low ← read 32
    let high ← read (width - 32)
    pure (low + high * UInt32.size)

/-- At most `chunks` more chunks of a variable bit rate number. `sum` is the value of the chunks so
far and the next one counts in units of `2 ^ shift`. -/
def readChunks (width : Nat) : (chunks shift sum : Nat) → BitReader Nat
  | 0, _, _ => throw .vbrOverflow
  | chunks + 1, shift, sum => do
    let chunk ← read width
    let payload := chunk % Nat.pow 2 (width - 1)
    if UInt64.size ≤ payload * Nat.pow 2 shift then throw .vbrOverflow
    else
      let sum := sum + payload * Nat.pow 2 shift
      if chunk < Nat.pow 2 (width - 1) then pure sum
      else readChunks width chunks (shift + (width - 1)) sum

/-- A number in chunks of `width` bits, least significant first. The top bit of a chunk says that
another one follows. A chunk may not start beyond bit 64 of the number. -/
def readVbr (width : Nat) : BitReader Nat :=
  if width < 2 ∨ 32 < width then throw (.invalidWidth width)
  else readChunks width ((64 + (width - 2)) / (width - 1)) 0 0

def align (c : Cursor) : Cursor :=
  ⟨c.words, (c.pos + 31) / 32 * 32, by have := c.pos_le; omega⟩

def skipWords (count : Nat) : BitReader Unit := fun c =>
  if h : c.word + count ≤ c.words.size then
    .ok () ⟨c.words, 32 * (c.word + count), by omega⟩
  else .error .bufferOverflow c

end Cursor

/-! ## Readers that only move forward -/

def Shortens {ε α : Type} (x : EStateM ε Cursor α) : Prop :=
  ∀ c a c', x c = .ok a c' → c'.left ≤ c.left

namespace Shortens

variable {ε α β : Type}

theorem pure (a : α) : Shortens (Pure.pure a : EStateM ε Cursor α) := by
  intro c b c' h
  cases h
  exact Nat.le_refl _

theorem throw (e : ε) : Shortens (MonadExcept.throw e : EStateM ε Cursor α) := by
  intro c a c' h
  cases h

theorem bind {x : EStateM ε Cursor α} {f : α → EStateM ε Cursor β} (hx : Shortens x)
    (hf : ∀ a, Shortens (f a)) : Shortens (x >>= f) := by
  intro c b c' h
  change EStateM.bind x f c = _ at h
  unfold EStateM.bind at h
  split at h
  · rename_i a c₁ h₁
    exact Nat.le_trans (hf a c₁ b c' h) (hx c a c₁ h₁)
  · cases h

theorem map {x : EStateM ε Cursor α} (f : α → β) (hx : Shortens x) : Shortens (f <$> x) := by
  intro c b c' h
  change EStateM.map f x c = _ at h
  unfold EStateM.map at h
  split at h
  · rename_i a c₁ h₁
    cases h
    exact hx _ _ _ h₁
  · cases h

theorem read (width : Nat) : Shortens (Cursor.read width) := by
  intro c a c' h
  unfold Cursor.read at h
  split at h
  · cases h
  split at h
  · cases h
    simp only [Cursor.left, Cursor.advance]
    omega
  · cases h

theorem readFixed (width : Nat) : Shortens (Cursor.readFixed width) := by
  unfold Cursor.readFixed
  split
  · exact .throw _
  split
  · exact .read _
  · exact .bind (.read _) fun _ => .bind (.read _) fun _ => .pure _

theorem readChunks (width chunks shift sum : Nat) :
    Shortens (Cursor.readChunks width chunks shift sum) := by
  induction chunks generalizing shift sum with
  | zero => exact .throw _
  | succ chunks ih =>
    refine .bind (.read _) fun chunk => ?_
    dsimp only
    split
    · exact .throw _
    split
    · exact .pure _
    · exact ih _ _

theorem readVbr (width : Nat) : Shortens (Cursor.readVbr width) := by
  unfold Cursor.readVbr
  split
  · exact .throw _
  · exact .readChunks _ _ _ _

end Shortens

namespace Cursor

theorem left_align_le (c : Cursor) : c.align.left ≤ c.left := by
  simp only [left, align]
  omega

theorem left_lt_of_read {width v : Nat} {c c' : Cursor} (h : read width c = .ok v c')
    (hv : v ≠ 0) : c'.left < c.left := by
  unfold read at h
  split at h
  · cases h
  split at h
  · rename_i hw
    cases h
    have : width ≠ 0 := by
      rintro rfl
      simp [field, Nat.mod_one] at hv
    simp only [left, advance] at hw ⊢
    omega
  · cases h

theorem left_le_of_skipWords {count : Nat} {u : Unit} {c c' : Cursor}
    (h : skipWords count c = .ok u c') (hc : c.bit = 0) : c'.left ≤ c.left := by
  unfold skipWords at h
  split at h
  · cases h
    simp only [left, word, bit] at hc ⊢
    omega
  · cases h

end Cursor

end Dxil
