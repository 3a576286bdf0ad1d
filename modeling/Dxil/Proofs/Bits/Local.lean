import Dxil.Proofs.Bits.Vbr

/-!
# Dxil.Proofs.Bits.Local

Readers that depend on nothing but the bits they pass.

* `Agree old new limit` : two lists of words that are alike up to a bit position.
* `Passes x s a s'` : `x` goes from `s` to `s'`; in other words that agree up to there it does the
  same, and in words that end before it fails at their end.
* `Local x` : every success of `x` is of this kind. The rules follow the way readers are put
  together.
* `Advances x n` : success takes `n` bits or more.
-/

namespace Dxil

/-- As far as `new` goes, it has those words of `old` that start before bit `limit`. -/
def Agree (old new : Array UInt32) (limit : Nat) : Prop :=
  ∀ i < new.size, 32 * i < limit → new[i]? = old[i]?

theorem Agree.mono {old new : Array UInt32} {m n : Nat} (h : Agree old new n) (hmn : m ≤ n) :
    Agree old new m :=
  fun i hi hlt => h i hi (Nat.lt_of_lt_of_le hlt hmn)

/-! ## Success and failure of what is put together -/

section

variable {ε σ α β : Type} {x : EStateM ε σ α} {f : α → EStateM ε σ β} {s s' : σ}

theorem bind_of_error {e : ε} (h : x s = .error e s') : (x >>= f) s = .error e s' := by
  change EStateM.bind x f s = _
  rw [EStateM.bind, h]

theorem bind_of_eq {y : EStateM ε σ α} (h : x s = y s') : (x >>= f) s = (y >>= f) s' := by
  change EStateM.bind x f s = EStateM.bind y f s'
  rw [EStateM.bind, EStateM.bind, h]

theorem exists_of_bind_ok {b : β} (h : (x >>= f) s = .ok b s') :
    ∃ a s₁, x s = .ok a s₁ ∧ f a s₁ = .ok b s' := by
  cases hx : x s with
  | ok a s₁ => exact ⟨a, s₁, rfl, by rwa [bind_of_ok hx] at h⟩
  | error e s₁ =>
    rw [bind_of_error hx] at h
    cases h

end

namespace Cursor

/-- The same position in other words, if they go that far. -/
def inWords (c : Cursor) (words : Array UInt32) : Option Cursor :=
  if h : c.pos ≤ 32 * words.size then some ⟨words, c.pos, h⟩ else none

theorem inWords_eq_some {c d : Cursor} {words : Array UInt32} :
    c.inWords words = some d ↔ d.words = words ∧ d.pos = c.pos := by
  unfold inWords
  constructor
  · intro h
    split at h
    · cases h
      exact ⟨rfl, rfl⟩
    · cases h
  · rintro ⟨rfl, hpos⟩
    have hle := d.pos_le
    rw [dif_pos (by omega)]
    exact congrArg some (Cursor.ext rfl hpos.symm)

theorem inWords_eq_none {c : Cursor} {words : Array UInt32} :
    c.inWords words = none ↔ 32 * words.size < c.pos := by
  unfold inWords
  split <;> simp <;> omega

theorem of_read_ok {width v : Nat} {c c' : Cursor} (h : read width c = .ok v c') :
    width ≤ 32 ∧ ∃ hleft : width ≤ c.left,
      v = field c.words c.pos width ∧ c' = c.advance width hleft := by
  unfold read at h
  split at h
  · cases h
  · split at h
    · cases h
      exact ⟨by omega, ‹_›, rfl, rfl⟩
    · cases h

theorem of_skipWords_ok {count : Nat} {c c' : Cursor} (h : skipWords count c = .ok () c') :
    c'.words = c.words ∧ c'.pos = 32 * (c.word + count) := by
  unfold skipWords at h
  split at h
  · cases h
    exact ⟨rfl, rfl⟩
  · cases h

theorem words_of_at? {words : Array UInt32} {word bit : Nat} {c : Cursor}
    (h : at? words word bit = some c) : c.words = words := by
  unfold at? at h
  split at h <;> cases h
  rfl

theorem field_of_agree {old new : Array UInt32} {pos width : Nat} (hw : width ≤ 32)
    (h : Agree old new (pos + width)) (hle : pos + width ≤ 32 * new.size) :
    field new pos width = field old pos width := by
  apply Nat.eq_of_testBit_eq
  intro i
  by_cases hi : i < width
  · have hword : new[(pos + i) / 32]? = old[(pos + i) / 32]? := h _ (by omega) (by omega)
    rw [testBit_field _ _ hw hi, testBit_field _ _ hw hi, Array.getD_eq_getD_getElem?,
      Array.getD_eq_getD_getElem?, hword]
  · have hpow : Nat.pow 2 width ≤ Nat.pow 2 i := Nat.pow_le_pow_right (by omega) (by omega)
    rw [Nat.testBit_lt_two_pow (Nat.lt_of_lt_of_le (field_lt _ _ _) hpow),
      Nat.testBit_lt_two_pow (Nat.lt_of_lt_of_le (field_lt _ _ _) hpow)]

end Cursor

/-! ## The judgement -/

/-- States that hold a cursor, beside what a reader has given out so far. -/
class Positioned (σ : Type) where
  cursor : σ → Cursor
  moveTo : σ → Cursor → σ
  /-- What the first state has given out is a beginning of what the second has. -/
  Precedes : σ → σ → Prop
  refl (s : σ) : Precedes s s
  trans {s t u : σ} : Precedes s t → Precedes t u → Precedes s u

instance : Positioned Cursor where
  cursor c := c
  moveTo _ d := d
  Precedes _ _ := True
  refl _ := trivial
  trans _ _ := trivial

open Positioned

section

variable {ε σ α β : Type} [Positioned σ]

/-- `x` goes from `s` to `s'` with result `a`, and so it does in other words that agree up to where
the cursor of `s'` is. In words that end before that it fails with `overflow`, having given out no
more than a beginning. -/
structure Passes (overflow : ε) (x : EStateM ε σ α) (s : σ) (a : α) (s' : σ) : Prop where
  words : (cursor s').words = (cursor s).words
  forward : (cursor s).pos ≤ (cursor s').pos
  precedes : Precedes s s'
  same : ∀ new d d', Agree (cursor s).words new (cursor s').pos → (cursor s).inWords new = some d →
    (cursor s').inWords new = some d' → x (moveTo s d) = .ok a (moveTo s' d')
  short : ∀ new d, Agree (cursor s).words new (cursor s').pos → (cursor s).inWords new = some d →
    (cursor s').inWords new = none → ∃ q, x (moveTo s d) = .error overflow q ∧ Precedes q s'

def Local (overflow : ε) (x : EStateM ε σ α) : Prop :=
  ∀ s a s', x s = .ok a s' → Passes overflow x s a s'

variable {overflow : ε} {x : EStateM ε σ α} {f : α → EStateM ε σ β} {s s₁ s' : σ} {a : α} {b : β}

theorem Passes.bind (hx : Passes overflow x s a s₁) (hf : Passes overflow (f a) s₁ b s') :
    Passes overflow (x >>= f) s b s' := by
  have hfirst : ∀ {new}, Agree (cursor s).words new (cursor s').pos →
      Agree (cursor s).words new (cursor s₁).pos := fun h => h.mono hf.forward
  refine ⟨hf.words.trans hx.words, Nat.le_trans hx.forward hf.forward,
    trans hx.precedes hf.precedes, ?_, ?_⟩
  · intro new d d' hagree hd hd'
    cases h₁ : (cursor s₁).inWords new with
    | none =>
      -- The words reach up to the end, and so up to the point between.
      have hshort := Cursor.inWords_eq_none.mp h₁
      have hpos := (Cursor.inWords_eq_some.mp hd').2
      have hle := d'.pos_le
      have hforward := hf.forward
      rw [(Cursor.inWords_eq_some.mp hd').1] at hle
      omega
    | some d₁ =>
      rw [bind_of_ok (hx.same new d d₁ (hfirst hagree) hd h₁)]
      exact hf.same new d₁ d' (hx.words ▸ hagree) h₁ hd'
  · intro new d hagree hd hshort
    cases h₁ : (cursor s₁).inWords new with
    | none =>
      obtain ⟨q, hq, hbefore⟩ := hx.short new d (hfirst hagree) hd h₁
      exact ⟨q, bind_of_error hq, trans hbefore hf.precedes⟩
    | some d₁ =>
      rw [bind_of_ok (hx.same new d d₁ (hfirst hagree) hd h₁)]
      exact hf.short new d₁ (hx.words ▸ hagree) h₁ hshort

theorem Passes.still (hcursor : cursor s' = cursor s) (hbefore : Precedes s s')
    (h : ∀ d, x (moveTo s d) = .ok a (moveTo s' d)) : Passes overflow x s a s' := by
  refine ⟨by rw [hcursor], Nat.le_of_eq (by rw [hcursor]), hbefore, ?_, ?_⟩
  · intro new d d' _ hd hd'
    rw [hcursor, hd] at hd'
    cases hd'
    exact h d
  · intro new d _ hd hshort
    rw [hcursor, hd] at hshort
    cases hshort

namespace Local

theorem pure (a : α) : Local overflow (Pure.pure a : EStateM ε σ α) := by
  intro s b s' h
  cases h
  exact .still rfl (refl s) fun d => rfl

theorem throw (e : ε) : Local overflow (MonadExcept.throw e : EStateM ε σ α) := by
  intro s a s' h
  cases h

theorem bind (hx : Local overflow x) (hf : ∀ a, Local overflow (f a)) :
    Local overflow (x >>= f) := by
  intro s b s' h
  obtain ⟨a, s₁, h₁, h₂⟩ := exists_of_bind_ok h
  exact (hx s a s₁ h₁).bind (hf a s₁ b s' h₂)

theorem map (f : α → β) (hx : Local overflow x) : Local overflow (f <$> x) := by
  rw [← bind_pure_comp]
  exact hx.bind fun a => .pure (f a)

end Local

end

namespace Passes

variable {ε α : Type} {overflow : ε} {x : EStateM ε Cursor α} {c c' : Cursor} {a : α}

theorem of_cursor (words : c'.words = c.words) (forward : c.pos ≤ c'.pos)
    (same : ∀ d d', Agree c.words d.words c'.pos → d.pos = c.pos → d'.words = d.words →
      d'.pos = c'.pos → x d = .ok a d')
    (short : ∀ d, d.pos = c.pos → 32 * d.words.size < c'.pos → ∃ q, x d = .error overflow q) :
    Passes overflow x c a c' := by
  refine ⟨words, forward, trivial, ?_, ?_⟩
  · intro new d d' hagree hd hd'
    obtain ⟨rfl, hpos⟩ := Cursor.inWords_eq_some.mp hd
    obtain ⟨hwords, hpos'⟩ := Cursor.inWords_eq_some.mp hd'
    exact same d d' hagree hpos hwords hpos'
  · intro new d hagree hd hshort
    obtain ⟨rfl, hpos⟩ := Cursor.inWords_eq_some.mp hd
    obtain ⟨q, hq⟩ := short d hpos (Cursor.inWords_eq_none.mp hshort)
    exact ⟨q, hq, trivial⟩

end Passes

/-! ## Fields -/

namespace Local

variable {ε α : Type} {overflow : ε}

theorem getPos (f : Cursor → α) (hf : ∀ c d : Cursor, d.pos = c.pos → f d = f c) :
    Local overflow (do let c ← get; Pure.pure (f c) : EStateM ε Cursor α) := by
  intro c a c' h
  cases h
  refine .of_cursor rfl (Nat.le_refl _) ?_ ?_
  · intro d d' _ hpos hwords hpos'
    have hsame : d = d' := Cursor.ext hwords.symm (hpos.trans hpos'.symm)
    change EStateM.Result.ok (f d) d = _
    rw [hf c d hpos, hsame]
  · intro d hpos hshort
    have hle := d.pos_le
    omega

theorem align : Local overflow (modify Cursor.align : EStateM ε Cursor PUnit) := by
  intro c a c' h
  cases h
  refine .of_cursor rfl (by simp only [Cursor.align]; omega) ?_ ?_
  · intro d d' _ hpos hwords hpos'
    refine congrArg (EStateM.Result.ok ()) (Cursor.ext hwords.symm ?_)
    rw [hpos']
    simp only [Cursor.align, hpos]
  · -- A word that was begun is there as a whole.
    intro d hpos hshort
    have hle := d.pos_le
    simp only [Cursor.align] at hshort
    omega

theorem read (width : Nat) : Local .bufferOverflow (Cursor.read width) := by
  intro c v c' h
  obtain ⟨hw, hleft, rfl, rfl⟩ := Cursor.of_read_ok h
  refine .of_cursor rfl (Nat.le_add_right _ _) ?_ ?_
  · intro d d' hagree hpos hwords hpos'
    have hend : c.pos + width ≤ 32 * d.words.size := by
      have hle := d'.pos_le
      rw [hpos', hwords] at hle
      exact hle
    have hleft' : width ≤ d.left := by
      simp only [Cursor.left]
      omega
    rw [Cursor.read, if_neg (by omega), dif_pos hleft', hpos,
      Cursor.field_of_agree hw hagree hend]
    refine congrArg (EStateM.Result.ok _) (Cursor.ext hwords.symm ?_)
    rw [hpos']
    simp only [Cursor.advance, hpos]
  · intro d hpos hshort
    have hlt : 32 * d.words.size < c.pos + width := hshort
    have hle := d.pos_le
    refine ⟨d, ?_⟩
    rw [Cursor.read, if_neg (by omega), dif_neg (by simp only [Cursor.left]; omega)]

theorem readFixed (width : Nat) : Local .bufferOverflow (Cursor.readFixed width) := by
  unfold Cursor.readFixed
  split
  · exact .throw _
  split
  · exact .read _
  · exact .bind (.read _) fun _ => .bind (.read _) fun _ => .pure _

theorem readChunks (width chunks shift sum : Nat) :
    Local .bufferOverflow (Cursor.readChunks width chunks shift sum) := by
  induction chunks generalizing shift sum with
  | zero => exact .throw _
  | succ chunks ih =>
    refine .bind (.read _) fun chunk => ?_
    dsimp only
    split
    · exact .throw _
    split
    · exact .pure _
    · exact ih _ _

theorem readVbr (width : Nat) : Local .bufferOverflow (Cursor.readVbr width) := by
  unfold Cursor.readVbr
  split
  · exact .throw _
  · exact .readChunks _ _ _ _

end Local

theorem Passes.skipWords {count : Nat} {c c' : Cursor} (hbit : c.bit = 0)
    (h : Cursor.skipWords count c = .ok () c') :
    Passes .bufferOverflow (Cursor.skipWords count) c () c' := by
  obtain ⟨hsame, hend⟩ := Cursor.of_skipWords_ok h
  have hword : ∀ {d : Cursor}, d.pos = c.pos → d.word = c.word :=
    fun hpos => congrArg (· / 32) hpos
  refine .of_cursor hsame ?_ ?_ ?_
  · simp only [Cursor.bit] at hbit
    simp only [hend, Cursor.word]
    omega
  · intro d d' _ hpos hwords hpos'
    have hword := hword hpos
    have hle := d'.pos_le
    rw [hpos', hwords] at hle
    rw [Cursor.skipWords, dif_pos (by omega)]
    refine congrArg (EStateM.Result.ok ()) (Cursor.ext hwords.symm ?_)
    change 32 * (d.word + count) = d'.pos
    rw [hpos', hend, hword]
  · intro d hpos hshort
    have hword := hword hpos
    exact ⟨d, by rw [Cursor.skipWords, dif_neg (by omega)]⟩

/-! ## How far a reader goes -/

def Advances {ε α : Type} (x : EStateM ε Cursor α) (n : Nat) : Prop :=
  ∀ c a c', x c = .ok a c' → c.pos + n ≤ c'.pos

namespace Advances

theorem read (width : Nat) : Advances (Cursor.read width) width := by
  intro c v c' h
  obtain ⟨-, _, -, rfl⟩ := Cursor.of_read_ok h
  exact Nat.le_refl _

theorem pure {ε α : Type} (a : α) : Advances (Pure.pure a : EStateM ε Cursor α) 0 := by
  intro c b c' h
  cases h
  exact Nat.le_refl _

theorem bind {ε α β : Type} {x : EStateM ε Cursor α} {f : α → EStateM ε Cursor β} {m n : Nat}
    (hx : Advances x m) (hf : ∀ a, Advances (f a) n) : Advances (x >>= f) (m + n) := by
  intro c b c' h
  obtain ⟨a, c₁, h₁, h₂⟩ := exists_of_bind_ok h
  have := hx c a c₁ h₁
  have := hf a c₁ b c' h₂
  omega

theorem readFixed (width : Nat) : Advances (Cursor.readFixed width) width := by
  intro c v c' h
  unfold Cursor.readFixed at h
  split at h
  · cases h
  split at h
  · exact read width c v c' h
  · have hboth := (read 32).bind (f := fun low => do
      let high ← Cursor.read (width - 32)
      Pure.pure (low + high * UInt32.size)) (n := width - 32) fun low =>
        (read (width - 32)).bind fun high => .pure _
    have := hboth c v c' h
    omega

theorem readVbr (width : Nat) : Advances (Cursor.readVbr width) width := by
  intro c v c' h
  unfold Cursor.readVbr at h
  split at h
  · cases h
  · rename_i hw
    -- There is a first chunk, for a number of 64 bits has one at least.
    have hpos : 0 < (64 + (width - 2)) / (width - 1) := Nat.div_pos (by omega) (by omega)
    obtain ⟨chunks, hchunks⟩ := Nat.exists_eq_succ_of_ne_zero (Nat.pos_iff_ne_zero.mp hpos)
    rw [hchunks, Cursor.readChunks] at h
    obtain ⟨chunk, c₁, h₁, h₂⟩ := exists_of_bind_ok h
    refine Nat.le_trans (read width c chunk c₁ h₁) ?_
    dsimp only at h₂
    split at h₂
    · cases h₂
    split at h₂
    · cases h₂
      exact Nat.le_refl _
    · exact (Local.readChunks _ _ _ _ c₁ v c' h₂).forward

end Advances

end Dxil
