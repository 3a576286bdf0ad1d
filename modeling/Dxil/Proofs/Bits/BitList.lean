import Dxil.Proofs.Stream.Moves
import Dxil.Proofs.Stream.VariableRate

/-!
# Dxil.Proofs.Bits.BitList

A cursor is a list of bits that is read from the front, whatever it was asked for before.

* `bitsFrom` : the bits of words from a position on.
* `Cursor.Shows` : a cursor in `words` as a position and as a list of bits.
* `Cursor.Takes` : a reader that takes bits off the front of that list.
* `KeepsWords` : a reader that moves in its words, also where it fails.
* `Cursor.Request` and `Cursor.Reachable` : the cursors that requests lead to, met or not.
* `Cursor.reachable_bitList` : every one of them is such a list, and reads as one.
-/

namespace Dxil

/-- The bits from bit `bit` of word `word` on, the lowest of each word first. -/
def bitsFrom (words : Array UInt32) (word bit : Nat) : List Bool :=
  ((words.toList.drop word).flatMap fun w => bitsOf 32 w.toNat).drop bit

theorem natOfBits_append (as bs : List Bool) :
    natOfBits (as ++ bs) = natOfBits as + natOfBits bs * Nat.pow 2 as.length := by
  induction as with
  | nil => simp [natOfBits]
  | cons a as ih =>
    have hpow : Nat.pow 2 (as.length + 1) = Nat.pow 2 as.length * 2 := Nat.pow_succ 2 _
    rw [List.cons_append, natOfBits, natOfBits, ih, List.length_cons, hpow, Nat.mul_add,
      ← Nat.mul_assoc (natOfBits bs), Nat.mul_comm 2 (natOfBits bs * _), Nat.add_assoc]

namespace Cursor

variable {words : Array UInt32} {bits : List Bool} {c c' : Cursor} {n : Nat} {e : BitError}

theorem remaining_eq_bitsFrom (c : Cursor) : c.remaining = bitsFrom c.words c.word c.bit := by
  apply List.ext_getElem?
  intro k
  have hword : c.word + (c.bit + k) / 32 = (c.pos + k) / 32 := by
    simp only [word, bit]
    omega
  have hbit : (c.bit + k) % 32 = (c.pos + k) % 32 := by
    simp only [bit]
    omega
  rw [remaining, bitsFrom, List.getElem?_drop, List.getElem?_drop, getElem?_flatMap_bitsOf,
    getElem?_flatMap_bitsOf, List.getElem?_drop, hword, hbit]

/-- The cursor is at a position of `words`, and these are the bits from there on. The end of the
last word is the start of the one behind it. -/
structure Shows (words : Array UInt32) (c : Cursor) (bits : List Bool) : Prop where
  words_eq : c.words = words
  bit_lt : c.bit < 32
  word_le : c.word ≤ words.size
  bit_eq_zero : c.word = words.size → c.bit = 0
  bitsFrom_eq : bitsFrom words c.word c.bit = bits

theorem shows_remaining (h : c.words = words) : Shows words c c.remaining := by
  subst h
  have hle := c.pos_le
  refine ⟨rfl, Nat.mod_lt _ (by decide), ?_, ?_, c.remaining_eq_bitsFrom.symm⟩
  · simp only [word]
    omega
  · simp only [word, bit]
    omega

namespace Shows

theorem remaining_eq (h : Shows words c bits) : c.remaining = bits := by
  rw [remaining_eq_bitsFrom, h.words_eq, h.bitsFrom_eq]

theorem left_eq (h : Shows words c bits) : c.left = bits.length := by
  rw [← h.remaining_eq, length_remaining]

theorem forward (h : Shows words c bits) (hn : n ≤ bits.length) :
    Shows words (c.forward n) (bits.drop n) := by
  rw [← h.left_eq] at hn
  rw [← h.remaining_eq, ← remaining_forward hn]
  exact shows_remaining h.words_eq

/-- To the next boundary it is what the whole words ahead leave over. -/
theorem align (h : Shows words c bits) : Shows words c.align (bits.drop (bits.length % 32)) := by
  have hle := c.pos_le
  have hmod : bits.length % 32 ≤ bits.length := Nat.mod_le _ _
  have heq : c.align = c.forward (bits.length % 32) := by
    refine Cursor.ext rfl ?_
    rw [forward_pos (by rwa [h.left_eq]), ← h.left_eq]
    simp only [Cursor.align, left]
    omega
  rw [heq]
  exact h.forward hmod

end Shows

/-! ## Fields -/

/-- On a cursor that shows `bits`, `x` gives the number in the first `n` of them and drops these. If
there are fewer, it finds the end of the words. -/
structure Takes (x : BitReader Nat) (n : Nat) (words : Array UInt32) (c : Cursor)
    (bits : List Bool) : Prop where
  enough : n ≤ bits.length →
    ∃ c', x c = .ok (natOfBits (bits.take n)) c' ∧ Shows words c' (bits.drop n)
  short : bits.length < n → ∃ c', x c = .error .bufferOverflow c'

theorem Shows.takes_read (h : Shows words c bits) (hn : n ≤ 32) :
    Takes (read n) n words c bits := by
  constructor
  · intro hle
    refine ⟨c.forward n, ?_, h.forward hle⟩
    rw [read_of_le hn (by rwa [h.left_eq]), h.remaining_eq]
  · intro hlt
    exact ⟨c, read_of_not_le hn (by rw [h.left_eq]; omega)⟩

theorem readFixed_of_wide (hn : 32 < n) (hn' : n ≤ 64) :
    readFixed n = (do
      let low ← read 32
      let high ← read (n - 32)
      pure (low + high * UInt32.size)) := by
  rw [readFixed, if_neg (by omega), if_neg (by omega)]

theorem Shows.takes_readFixed (h : Shows words c bits) (hn : n ≤ 64) :
    Takes (readFixed n) n words c bits := by
  by_cases hnarrow : n ≤ 32
  · have hread : readFixed n = read n := by rw [readFixed, if_neg (by omega), if_pos hnarrow]
    rw [hread]
    exact h.takes_read hnarrow
  have hlow := h.takes_read (Nat.le_refl 32)
  rw [readFixed_of_wide (by omega) hn]
  constructor
  · intro hle
    obtain ⟨c₁, hfirst, hshows⟩ := hlow.enough (by omega)
    obtain ⟨c₂, hsecond, hend⟩ := (hshows.takes_read (show n - 32 ≤ 32 by omega)).enough
      (by rw [List.length_drop]; omega)
    refine ⟨c₂, ?_, ?_⟩
    · rw [bind_of_ok hfirst, bind_of_ok hsecond]
      have hsplit : bits.take n = bits.take 32 ++ (bits.drop 32).take (n - 32) := by
        rw [← List.take_add, show 32 + (n - 32) = n by omega]
      have hlength : (bits.take 32).length = 32 := by
        rw [List.length_take]
        omega
      rw [hsplit, natOfBits_append, hlength]
      rfl
    · rwa [List.drop_drop, show 32 + (n - 32) = n by omega] at hend
  · intro hlt
    by_cases hword : 32 ≤ bits.length
    · obtain ⟨c₁, hfirst, hshows⟩ := hlow.enough hword
      obtain ⟨c₂, hsecond⟩ := (hshows.takes_read (show n - 32 ≤ 32 by omega)).short
        (by rw [List.length_drop]; omega)
      exact ⟨c₂, (bind_of_ok hfirst).trans (bind_of_error hsecond)⟩
    · obtain ⟨c₁, hfirst⟩ := hlow.short (by omega)
      exact ⟨c₁, bind_of_error hfirst⟩

/-! ## Where a failure leaves the cursor -/

theorem eq_of_read_error (h : read n c = .error e c') : c' = c := by
  unfold read at h
  split at h
  · cases h
    rfl
  · split at h <;> cases h
    rfl

theorem eq_of_skipWords_error (h : skipWords n c = .error e c') : c' = c := by
  unfold skipWords at h
  split at h <;> cases h
  rfl

/-- The low word of a wide field may have been read before its high part is missed. -/
theorem of_readFixed_error (h : readFixed n c = .error e c') :
    c' = c ∨ ∃ v, read 32 c = .ok v c' := by
  unfold readFixed at h
  split at h
  · cases h
    exact .inl rfl
  split at h
  · exact .inl (eq_of_read_error h)
  cases hlow : read 32 c with
  | error e₁ c₁ =>
    rw [bind_of_error hlow] at h
    cases h
    exact .inl (eq_of_read_error hlow)
  | ok low c₁ =>
    rw [bind_of_ok hlow] at h
    cases hhigh : read (n - 32) c₁ with
    | ok high c₂ =>
      rw [bind_of_ok hhigh] at h
      cases h
    | error e₂ c₂ =>
      rw [bind_of_error hhigh] at h
      cases h
      exact .inr ⟨low, congrArg _ (eq_of_read_error hhigh).symm⟩

end Cursor

/-! ## Requests -/

def KeepsWords {α : Type} (x : BitReader α) : Prop := ∀ c, (finalState (x c)).words = c.words

namespace KeepsWords

variable {α β : Type}

theorem pure (a : α) : KeepsWords (Pure.pure a) := fun _ => rfl

theorem throw (e : BitError) : KeepsWords (MonadExcept.throw e : BitReader α) := fun _ => rfl

theorem bind {x : BitReader α} {f : α → BitReader β} (hx : KeepsWords x)
    (hf : ∀ a, KeepsWords (f a)) : KeepsWords (x >>= f) := by
  intro c
  have hfirst := hx c
  cases h : x c with
  | error e c₁ =>
    rw [bind_of_error h]
    rwa [h] at hfirst
  | ok a c₁ =>
    rw [bind_of_ok h, hf a c₁]
    rwa [h] at hfirst

theorem read (n : Nat) : KeepsWords (Cursor.read n) := by
  intro c
  unfold Cursor.read
  split
  · rfl
  · split <;> rfl

theorem skipWords (n : Nat) : KeepsWords (Cursor.skipWords n) := by
  intro c
  unfold Cursor.skipWords
  split <;> rfl

theorem readFixed (n : Nat) : KeepsWords (Cursor.readFixed n) := by
  unfold Cursor.readFixed
  split
  · exact .throw _
  split
  · exact .read _
  · exact .bind (.read _) fun _ => .bind (.read _) fun _ => .pure _

theorem readChunks (width chunks shift sum : Nat) :
    KeepsWords (Cursor.readChunks width chunks shift sum) := by
  induction chunks generalizing shift sum with
  | zero => exact .throw _
  | succ chunks ih =>
    refine .bind (.read _) fun chunk => ?_
    dsimp only
    split
    · exact .throw _
    split
    · exact .pure _
    · exact ih _ _

theorem readVbr (width : Nat) : KeepsWords (Cursor.readVbr width) := by
  unfold Cursor.readVbr
  split
  · exact .throw _
  · exact .readChunks _ _ _ _

end KeepsWords

namespace Cursor

inductive Request where
  | read (width : Nat)
  | readFixed (width : Nat)
  | readVbr (width : Nat)
  | align
  | skipWords (count : Nat)
  deriving DecidableEq, Repr

def Request.after (c : Cursor) : Request → Cursor
  | .read width => finalState (Cursor.read width c)
  | .readFixed width => finalState (Cursor.readFixed width c)
  | .readVbr width => finalState (Cursor.readVbr width c)
  | .align => c.align
  | .skipWords count => finalState (Cursor.skipWords count c)

theorem Request.words_after (c : Cursor) (request : Request) :
    (request.after c).words = c.words := by
  cases request with
  | read width => exact KeepsWords.read width c
  | readFixed width => exact KeepsWords.readFixed width c
  | readVbr width => exact KeepsWords.readVbr width c
  | align => rfl
  | skipWords count => exact KeepsWords.skipWords count c

/-- The cursors in `words` that any requests lead to, from the start or from a position that was
asked for. -/
inductive Reachable (words : Array UInt32) : Cursor → Prop where
  | start : Reachable words (start words)
  | position {word bit : Nat} {c : Cursor} (h : at? words word bit = some c) : Reachable words c
  | request {c : Cursor} (h : Reachable words c) (request : Request) :
      Reachable words (request.after c)

variable {words : Array UInt32} {c : Cursor}

theorem Reachable.words_eq (h : Reachable words c) : c.words = words := by
  induction h with
  | start => rfl
  | position h => exact words_of_at? h
  | request _ request ih => exact (request.words_after _).trans ih

theorem Shows.skipWords {bits : List Bool} {count : Nat} (h : Shows words c bits)
    (hcount : c.word + count ≤ words.size) :
    ∃ c', Cursor.skipWords count c = .ok () c' ∧
      Shows words c' (bitsFrom words (c.word + count) 0) := by
  obtain rfl := h.words_eq
  let c' : Cursor := ⟨c.words, 32 * (c.word + count), by omega⟩
  have hword : c'.word = c.word + count := Nat.mul_div_cancel_left _ (by decide)
  have hbit : c'.bit = 0 := Nat.mul_mod_right _ _
  have hshows : Shows c.words c' c'.remaining := shows_remaining rfl
  rw [remaining_eq_bitsFrom, hword, hbit] at hshows
  exact ⟨c', by rw [Cursor.skipWords, dif_pos hcount], hshows⟩

/-- Wherever requests lead, a cursor is a position and the list of the bits from there on. Fields
are the numbers in the first bits of that list, and a field for which there are too few bits is
missed. Nothing is lost with a field or words that are missed, but for the low word of a wide
field. -/
theorem reachable_bitList {words : Array UInt32} {c : Cursor} (h : Reachable words c) :
    ∃ bits, Shows words c bits ∧ c.left = bits.length ∧
      (∀ n ≤ 32, Takes (read n) n words c bits) ∧
      (∀ n ≤ 64, Takes (readFixed n) n words c bits) ∧
      (∀ n e c', read n c = .error e c' → c' = c) ∧
      (∀ n e c', readFixed n c = .error e c' →
        c' = c ∨ 32 ≤ bits.length ∧ Shows words c' (bits.drop 32)) ∧
      Shows words c.align (bits.drop (bits.length % 32)) ∧
      (∀ n, c.word + n ≤ words.size → ∃ c', skipWords n c = .ok () c' ∧
        Shows words c' (bitsFrom words (c.word + n) 0)) ∧
      ∀ n e c', skipWords n c = .error e c' → c' = c := by
  have hshows := shows_remaining h.words_eq
  refine ⟨c.remaining, hshows, hshows.left_eq, fun n hn => hshows.takes_read hn,
    fun n hn => hshows.takes_readFixed hn, fun n e c' => eq_of_read_error, ?_, hshows.align,
    fun n => hshows.skipWords, fun n e c' => eq_of_skipWords_error⟩
  intro n e c' herror
  rcases of_readFixed_error herror with hsame | ⟨v, hlow⟩
  · exact .inl hsame
  · obtain ⟨-, hleft, -, rfl⟩ := of_read_ok hlow
    have hword : 32 ≤ c.remaining.length := by rwa [length_remaining]
    have hadvance : c.advance 32 hleft = c.forward 32 := Cursor.ext rfl (forward_pos hleft).symm
    rw [hadvance]
    exact .inr ⟨hword, hshows.forward hword⟩

/-- A field across two words, and a wide one of which only the low word is there. -/
theorem reachable_bitList_straddling :
    let words : Array UInt32 := #[0xf0000000, 0xf]
    let c := Request.after (start words) (.read 28)
    Reachable words c ∧ ∃ bits, Shows words c bits ∧ bits.length = 36 ∧
      (∃ c', read 8 c = .ok 0xff c' ∧ Shows words c' (bits.drop 8)) ∧
      ∃ c', readFixed 40 c = .error .bufferOverflow c' ∧ Shows words c' (bits.drop 32) := by
  intro words c
  have hreachable : Reachable words c := .request .start (.read 28)
  obtain ⟨bits, hshows, -, hread, hfixed, -, hlost, -⟩ := reachable_bitList hreachable
  have hbits : bits = bitsFrom words c.word c.bit := hshows.bitsFrom_eq.symm
  have hlength : bits.length = 36 := by
    rw [hbits]
    decide
  have hvalue : natOfBits (bits.take 8) = 0xff := by
    rw [hbits]
    decide
  refine ⟨hreachable, bits, hshows, hlength, ?_, ?_⟩
  · obtain ⟨c', hok, hshows'⟩ := (hread 8 (by decide)).enough (by omega)
    rw [hvalue] at hok
    exact ⟨c', hok, hshows'⟩
  · obtain ⟨c', herror⟩ := (hfixed 40 (by decide)).short (by omega)
    have hmoved : finalState (readFixed 40 c) ≠ c := by decide
    rw [herror] at hmoved
    rcases hlost 40 _ c' herror with hsame | ⟨-, hshows'⟩
    · exact absurd hsame hmoved
    · exact ⟨c', herror, hshows'⟩

end Cursor

end Dxil
