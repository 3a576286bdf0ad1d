import Dxil.Proofs.Stream.Records

/-!
# Dxil.Proofs.Stream.Definition

Definitions of abbreviations: which lists of operands are one, and what they define.

* `SpelledOp` : an operand as a stream spells it, legal or not.
* `Spells` : the grammar of definitions.
* `readAbbreviationOp_eq_ok_iff` : one operand.
* `readAbbreviation_eq_ok_iff` : a list of them.
* `readAbbreviation_exact` : a definition is read exactly if it is one, wherever it stands.
-/

namespace Dxil

open Cursor

/-- Whether a payload takes up two operands of a definition. -/
def Payload.isArray : Payload → Bool
  | blob => false
  | array _ => true

/-! ## Operands -/

inductive SpelledOp where
  | literal (value : UInt64)
  | fixed (width : UInt64)
  | vbr (width : UInt64)
  | array
  | char6
  | blob
  deriving DecidableEq, Repr

namespace SpelledOp

/-- A bit that tells literals apart, then the kind and the width, if there is one. -/
def bits : SpelledOp → List Bool
  | literal value => bitsOf 1 1 ++ vbrBits 8 value.toNat
  | fixed width => bitsOf 1 0 ++ (bitsOf 3 1 ++ vbrBits 5 width.toNat)
  | vbr width => bitsOf 1 0 ++ (bitsOf 3 2 ++ vbrBits 5 width.toNat)
  | array => bitsOf 1 0 ++ bitsOf 3 3
  | char6 => bitsOf 1 0 ++ bitsOf 3 4
  | blob => bitsOf 1 0 ++ bitsOf 3 5

/-- Whether there are fields of the width. -/
def legal : SpelledOp → Bool
  | fixed width => width ≤ 64
  | vbr width => width = 0 ∨ 2 ≤ width ∧ width ≤ 32
  | _ => true

/-- What an operand says. A field without bits is a literal zero. -/
def meaning : SpelledOp → AbbreviationOp
  | literal value => .scalar (.literal value)
  | fixed width => .scalar (if width = 0 then .literal 0 else .fixed width.toNat)
  | vbr width => .scalar (if width = 0 then .literal 0 else .vbr width.toNat)
  | array => .array
  | char6 => .scalar .char6
  | blob => .blob

end SpelledOp

theorem bind_eq_ok_iff {ε σ α β : Type} {x : EStateM ε σ α} {f : α → EStateM ε σ β} {s s' : σ}
    {b : β} : (x >>= f) s = .ok b s' ↔ ∃ a s₁, x s = .ok a s₁ ∧ f a s₁ = .ok b s' :=
  ⟨exists_of_bind_ok, fun ⟨_, _, hx, hf⟩ => (bind_of_ok hx).trans hf⟩

section

variable {c : Cursor}

theorem bind_kind {α : Type} {x : StreamReader α} {f : Nat → StreamReader α} {kind : Nat}
    (hkind : kind < 8) (h : c.Sees (bitsOf 1 0 ++ bitsOf 3 kind)) :
    ((liftM (read 1) : StreamReader Nat) >>= fun isLiteral =>
      if isLiteral = 1 then x else (liftM (read 3) : StreamReader Nat) >>= f) c =
      f kind (c.forward 4) := by
  obtain ⟨hflag, hkind'⟩ := sees_append.mp h
  rw [length_bitsOf] at hkind'
  rw [bind_of_ok (lift_of_ok (read_of_sees (by decide) (by decide) hflag)), if_neg (by decide),
    bind_of_ok (lift_of_ok (read_of_sees (by decide) hkind hkind')), forward_forward]

section

variable {width : UInt64}

theorem bind_width (f : Nat → Except StreamError Encoding)
    (h : c.Sees (vbrBits 5 width.toNat)) :
    ((liftM (readVbr 5) : StreamReader Nat) >>= fun width =>
      .scalar <$> (MonadExcept.ofExcept (f width) : StreamReader Encoding)) c =
      (AbbreviationOp.scalar <$> (MonadExcept.ofExcept (f width.toNat) : StreamReader Encoding))
        (c.forward (vbrBits 5 width.toNat).length) :=
  bind_of_ok (lift_of_ok (readVbr_of_sees (by decide) (by decide) width.toNat_lt h))

theorem readAbbreviationOp_fixed (h : c.Sees (SpelledOp.fixed width).bits) :
    readAbbreviationOp c = (AbbreviationOp.scalar <$>
      (MonadExcept.ofExcept (Encoding.ofFixedWidth width.toNat) : StreamReader Encoding))
        (c.forward (SpelledOp.fixed width).bits.length) := by
  rw [SpelledOp.bits, ← List.append_assoc] at h ⊢
  obtain ⟨hkind, hwidth⟩ := sees_append.mp h
  rw [List.length_append, ← forward_forward]
  exact (bind_kind (by decide) hkind).trans (bind_width Encoding.ofFixedWidth hwidth)

theorem readAbbreviationOp_vbr (h : c.Sees (SpelledOp.vbr width).bits) :
    readAbbreviationOp c = (AbbreviationOp.scalar <$>
      (MonadExcept.ofExcept (Encoding.ofVbrWidth width.toNat) : StreamReader Encoding))
        (c.forward (SpelledOp.vbr width).bits.length) := by
  rw [SpelledOp.bits, ← List.append_assoc] at h ⊢
  obtain ⟨hkind, hwidth⟩ := sees_append.mp h
  rw [List.length_append, ← forward_forward]
  exact (bind_kind (by decide) hkind).trans (bind_width Encoding.ofVbrWidth hwidth)

end

theorem toNat_eq_zero {width : UInt64} : width.toNat = 0 ↔ width = 0 :=
  ⟨fun h => UInt64.toNat_inj.mp h, fun h => h ▸ rfl⟩

theorem readAbbreviationOp_of_legal {op : SpelledOp} (hlegal : op.legal = true)
    (h : c.Sees op.bits) :
    readAbbreviationOp c = .ok op.meaning (c.forward op.bits.length) := by
  cases op with
  | literal value =>
    obtain ⟨hflag, hvalue⟩ := sees_append.mp h
    rw [length_bitsOf] at hvalue
    rw [readAbbreviationOp, bind_of_ok (lift_of_ok (read_of_sees (by decide) (by decide) hflag)),
      if_pos rfl, bind_of_ok (lift_of_ok (readVbr_of_sees (by decide) (by decide) value.toNat_lt
        hvalue)), UInt64.ofNat_toNat, forward_forward]
    simp only [SpelledOp.bits, List.length_append, length_bitsOf]
    rfl
  | fixed width =>
    have hle : width.toNat ≤ 64 := by
      simpa [SpelledOp.legal, UInt64.le_iff_toNat_le] using hlegal
    have hread : Encoding.ofFixedWidth width.toNat =
        .ok (if width = 0 then .literal 0 else .fixed width.toNat) := by
      simp only [Encoding.ofFixedWidth, if_neg (Nat.not_lt.mpr hle), toNat_eq_zero]
      split <;> rfl
    rw [readAbbreviationOp_fixed h, hread]
    rfl
  | vbr width =>
    have hle : width.toNat = 0 ∨ 2 ≤ width.toNat ∧ width.toNat ≤ 32 := by
      simpa [SpelledOp.legal, UInt64.le_iff_toNat_le, ← toNat_eq_zero] using hlegal
    have hread : Encoding.ofVbrWidth width.toNat =
        .ok (if width = 0 then .literal 0 else .vbr width.toNat) := by
      simp only [Encoding.ofVbrWidth, if_neg (show ¬ (32 < width.toNat ∨ width.toNat = 1) by omega),
        toNat_eq_zero]
      split <;> rfl
    rw [readAbbreviationOp_vbr h, hread]
    rfl
  | array => exact bind_kind (by decide) h
  | char6 => exact bind_kind (by decide) h
  | blob => exact bind_kind (by decide) h

theorem readAbbreviationOp_of_not_legal {op : SpelledOp} (hlegal : op.legal = false)
    (h : c.Sees op.bits) : ∃ e c', readAbbreviationOp c = .error e c' := by
  cases op with
  | literal | array | char6 | blob => cases hlegal
  | fixed width =>
    have hlt : 64 < width.toNat := by
      simpa [SpelledOp.legal, UInt64.le_iff_toNat_le] using hlegal
    have hread : Encoding.ofFixedWidth width.toNat = .error (.invalidWidth width.toNat) := by
      rw [Encoding.ofFixedWidth, if_pos hlt]
    rw [readAbbreviationOp_fixed h, hread]
    exact ⟨_, _, rfl⟩
  | vbr width =>
    have hnot : ¬ (width.toNat = 0 ∨ 2 ≤ width.toNat ∧ width.toNat ≤ 32) := by
      simpa [SpelledOp.legal, UInt64.le_iff_toNat_le, ← toNat_eq_zero] using hlegal
    have hread : Encoding.ofVbrWidth width.toNat = .error (.invalidWidth width.toNat) := by
      rw [Encoding.ofVbrWidth, if_pos (by omega)]
    rw [readAbbreviationOp_vbr h, hread]
    exact ⟨_, _, rfl⟩

theorem readAbbreviationOp_eq_ok_iff {op : SpelledOp} (h : c.Sees op.bits) {c' : Cursor}
    {meaning : AbbreviationOp} :
    readAbbreviationOp c = .ok meaning c' ↔
      op.legal ∧ meaning = op.meaning ∧ c' = c.forward op.bits.length := by
  constructor
  · intro hread
    cases hlegal : op.legal with
    | true =>
      rw [readAbbreviationOp_of_legal hlegal h] at hread
      cases hread
      exact ⟨rfl, rfl, rfl⟩
    | false =>
      obtain ⟨e, c₁, herror⟩ := readAbbreviationOp_of_not_legal hlegal h
      rw [herror] at hread
      cases hread
  · rintro ⟨hlegal, rfl, rfl⟩
    exact readAbbreviationOp_of_legal hlegal h

end

/-! ## Definitions -/

/-- The lists of operands that define an abbreviation. -/
inductive Spells : List AbbreviationOp → Abbreviation → Prop where
  | scalars (fields : List Encoding) : Spells (fields.map .scalar) { fields }
  | blob (fields : List Encoding) :
      Spells (fields.map .scalar ++ [.blob]) { fields, payload := some .blob }
  | array (fields : List Encoding) {element : Encoding} (h : element.isLiteral = false) :
      Spells (fields.map .scalar ++ [.array, .scalar element])
        { fields, payload := some (.array element) }

namespace Spells

variable {ops : List AbbreviationOp} {a : Abbreviation}

theorem nil_iff : Spells [] a ↔ a = {} := by
  constructor
  · intro h
    generalize hops : [] = ops at h
    cases h with
    | scalars fields =>
      cases fields with
      | nil => rfl
      | cons => cases hops
    | blob fields | array fields => cases fields <;> cases hops
  · rintro rfl
    exact .scalars []

theorem scalar_iff {field : Encoding} :
    Spells (.scalar field :: ops) a ↔
      ∃ rest, Spells ops rest ∧ a = { rest with fields := field :: rest.fields } := by
  constructor
  · intro h
    generalize hops : AbbreviationOp.scalar field :: ops = all at h
    cases h with
    | scalars fields =>
      cases fields with
      | nil => cases hops
      | cons f fields => cases hops; exact ⟨_, .scalars fields, rfl⟩
    | blob fields =>
      cases fields with
      | nil => cases hops
      | cons f fields => cases hops; exact ⟨_, .blob fields, rfl⟩
    | array fields hbits =>
      cases fields with
      | nil => cases hops
      | cons f fields => cases hops; exact ⟨_, .array fields hbits, rfl⟩
  · rintro ⟨rest, h, rfl⟩
    cases h with
    | scalars fields => exact .scalars (field :: fields)
    | blob fields => exact .blob (field :: fields)
    | array fields hbits => exact .array (field :: fields) hbits

theorem array_iff : Spells (.array :: ops) a ↔
    ∃ element : Encoding, element.isLiteral = false ∧ ops = [.scalar element] ∧
      a = { payload := some (.array element) } := by
  constructor
  · intro h
    generalize hops : AbbreviationOp.array :: ops = all at h
    cases h with
    | scalars fields | blob fields => cases fields <;> cases hops
    | array fields hbits =>
      cases fields with
      | nil => cases hops; exact ⟨_, hbits, rfl, rfl⟩
      | cons => cases hops
  · rintro ⟨element, hbits, rfl, rfl⟩
    exact .array [] hbits

theorem blob_iff : Spells (.blob :: ops) a ↔ ops = [] ∧ a = { payload := some .blob } := by
  constructor
  · intro h
    generalize hops : AbbreviationOp.blob :: ops = all at h
    cases h with
    | scalars fields | array fields => cases fields <;> cases hops
    | blob fields =>
      cases fields with
      | nil => cases hops; exact ⟨rfl, rfl⟩
      | cons => cases hops
  · rintro ⟨rfl, rfl⟩
    exact .blob []

/-- An array and its element count as one operand. -/
theorem operandCount (h : Spells ops a) :
    a.operandCount = if a.payload.any Payload.isArray then ops.length - 1 else ops.length := by
  cases h <;> simp [Abbreviation.operandCount, Payload.isArray]

end Spells

section

variable {c c' : Cursor}

theorem readElement_eq_ok_iff {op : SpelledOp} (h : c.Sees op.bits) {element : Encoding} :
    readElement c = .ok element c' ↔ op.legal ∧ op.meaning = .scalar element ∧
      element.isLiteral = false ∧ c' = c.forward op.bits.length := by
  rw [readElement, bind_eq_ok_iff]
  simp only [readAbbreviationOp_eq_ok_iff h]
  constructor
  · rintro ⟨meaning, c₁, ⟨hlegal, rfl, rfl⟩, helement⟩
    cases hop : op.meaning with
    | scalar encoding =>
      rw [hop] at helement
      cases encoding with
      | literal => cases helement
      | fixed | vbr | char6 => cases helement; exact ⟨hlegal, rfl, rfl, rfl⟩
    | array | blob => rw [hop] at helement; cases helement
  · rintro ⟨hlegal, hop, hbits, rfl⟩
    refine ⟨_, _, ⟨hlegal, rfl, rfl⟩, ?_⟩
    rw [hop]
    cases element with
    | literal => cases hbits
    | fixed | vbr | char6 => rfl

variable {c₁ : Cursor} {count : Nat} {a : Abbreviation}

theorem readAbbreviation_scalar_iff {field : Encoding}
    (h : readAbbreviationOp c = .ok (.scalar field) c₁) :
    readAbbreviation (count + 1) c = .ok a c' ↔
      ∃ rest, readAbbreviation count c₁ = .ok rest c' ∧
        a = { rest with fields := field :: rest.fields } := by
  rw [readAbbreviation, bind_of_ok h]
  change (readAbbreviation count >>= _) c₁ = _ ↔ _
  rw [bind_eq_ok_iff]
  constructor
  · rintro ⟨rest, c₂, hrest, hpure⟩
    cases hpure
    exact ⟨rest, hrest, rfl⟩
  · rintro ⟨rest, hrest, rfl⟩
    exact ⟨rest, c', hrest, rfl⟩

theorem readAbbreviation_array_iff (h : readAbbreviationOp c = .ok .array c₁) :
    readAbbreviation (count + 1) c = .ok a c' ↔
      count = 1 ∧ ∃ element, readElement c₁ = .ok element c' ∧
        a = { payload := some (.array element) } := by
  rw [readAbbreviation, bind_of_ok h]
  by_cases hcount : count = 1
  · simp only [if_pos hcount, bind_eq_ok_iff]
    constructor
    · rintro ⟨element, c₂, helement, hpure⟩
      cases hpure
      exact ⟨hcount, element, helement, rfl⟩
    · rintro ⟨-, element, helement, rfl⟩
      exact ⟨element, c', helement, rfl⟩
  · simp only [if_neg hcount]
    exact ⟨nofun, fun hread => absurd hread.1 hcount⟩

theorem readAbbreviation_blob_iff (h : readAbbreviationOp c = .ok .blob c₁) :
    readAbbreviation (count + 1) c = .ok a c' ↔
      count = 0 ∧ a = { payload := some .blob } ∧ c' = c₁ := by
  rw [readAbbreviation, bind_of_ok h]
  by_cases hcount : count = 0
  · simp only [if_pos hcount]
    constructor
    · intro hpure
      cases hpure
      exact ⟨hcount, rfl, rfl⟩
    · rintro ⟨-, rfl, rfl⟩
      rfl
  · simp only [if_neg hcount]
    exact ⟨nofun, fun hread => absurd hread.1 hcount⟩

theorem readAbbreviation_eq_ok_iff {ops : List SpelledOp}
    (h : c.Sees (ops.flatMap SpelledOp.bits)) :
    readAbbreviation ops.length c = .ok a c' ↔ (∀ op ∈ ops, op.legal) ∧
      Spells (ops.map SpelledOp.meaning) a ∧
      c' = c.forward (ops.flatMap SpelledOp.bits).length := by
  induction ops generalizing c a with
  | nil =>
    simp only [List.map_nil, Spells.nil_iff, List.flatMap_nil, List.length_nil, forward_zero]
    constructor
    · intro hread
      cases hread
      exact ⟨nofun, rfl, rfl⟩
    · rintro ⟨-, rfl, rfl⟩
      rfl
  | cons op ops ih =>
    rw [List.flatMap_cons] at h
    obtain ⟨hop, hops⟩ := sees_append.mp h
    rw [List.forall_mem_cons, List.map_cons, List.flatMap_cons, List.length_append,
      ← forward_forward]
    cases hlegal : op.legal with
    | false =>
      obtain ⟨e, c₁, herror⟩ := readAbbreviationOp_of_not_legal hlegal hop
      rw [List.length_cons, readAbbreviation, bind_of_error herror]
      simp
    | true =>
      have hread := readAbbreviationOp_of_legal hlegal hop
      cases hmeaning : op.meaning with
      | scalar field =>
        rw [hmeaning] at hread
        rw [List.length_cons, readAbbreviation_scalar_iff hread, Spells.scalar_iff]
        simp only [ih hops]
        grind
      | array =>
        rw [hmeaning] at hread
        rw [List.length_cons, readAbbreviation_array_iff hread, Spells.array_iff]
        constructor
        · rintro ⟨hcount, element, helement, rfl⟩
          obtain ⟨last, rfl⟩ := List.length_eq_one_iff.mp hcount
          rw [List.flatMap_singleton] at hops
          obtain ⟨hlast, hscalar, hbits, rfl⟩ := (readElement_eq_ok_iff hops).mp helement
          exact ⟨⟨rfl, by simpa using hlast⟩, ⟨element, hbits, by rw [← hscalar]; rfl, rfl⟩,
            by rw [List.flatMap_singleton]⟩
        · rintro ⟨⟨-, hlegals⟩, ⟨element, hbits, hmap, rfl⟩, rfl⟩
          obtain ⟨last, rfl, hscalar⟩ := List.map_eq_singleton_iff.mp hmap
          rw [List.flatMap_singleton] at hops ⊢
          exact ⟨rfl, element, (readElement_eq_ok_iff hops).mpr
            ⟨hlegals last (List.mem_singleton_self last), hscalar, hbits, rfl⟩, rfl⟩
      | blob =>
        rw [hmeaning] at hread
        rw [List.length_cons, readAbbreviation_blob_iff hread, Spells.blob_iff, List.map_eq_nil_iff,
          List.length_eq_zero_iff]
        constructor
        · rintro ⟨rfl, rfl, rfl⟩
          exact ⟨⟨rfl, nofun⟩, ⟨rfl, rfl⟩, (forward_zero _).symm⟩
        · rintro ⟨-, ⟨rfl, rfl⟩, rfl⟩
          exact ⟨rfl, rfl, forward_zero _⟩

end

/-- A list of operands is read exactly if it is a definition, wherever it stands.

Every width has to be legal, and past the fields there is nothing, a blob, or an array with an
element that takes up bits. What is read then holds the fields in order with that payload, and the
cursor comes to lie right behind the list. -/
theorem readAbbreviation_exact (ops : List SpelledOp) (before after : List Bool) :
    let c := between before (ops.flatMap SpelledOp.bits ++ after)
    ((∃ a c', readAbbreviation ops.length c = .ok a c') ↔
      (∀ op ∈ ops, op.legal) ∧ ∃ a, Spells (ops.map SpelledOp.meaning) a) ∧
    ∀ a c', readAbbreviation ops.length c = .ok a c' →
      Spells (ops.map SpelledOp.meaning) a ∧
      a.operandCount = (if a.payload.any Payload.isArray then ops.length - 1 else ops.length) ∧
      c' = between (before ++ ops.flatMap SpelledOp.bits) after := by
  intro c
  have hread (a : Abbreviation) (c' : Cursor) :
      readAbbreviation ops.length c = .ok a c' ↔ (∀ op ∈ ops, op.legal) ∧
        Spells (ops.map SpelledOp.meaning) a ∧
        c' = between (before ++ ops.flatMap SpelledOp.bits) after := by
    rw [← forward_between]
    exact readAbbreviation_eq_ok_iff (sees_between before _ after)
  refine ⟨⟨?_, ?_⟩, ?_⟩
  · rintro ⟨a, c', h⟩
    obtain ⟨hlegal, hspells, -⟩ := (hread a c').mp h
    exact ⟨hlegal, a, hspells⟩
  · rintro ⟨hlegal, a, hspells⟩
    exact ⟨a, _, (hread a _).mpr ⟨hlegal, hspells, rfl⟩⟩
  · intro a c' h
    obtain ⟨-, hspells, rfl⟩ := (hread a c').mp h
    refine ⟨hspells, ?_, rfl⟩
    rw [hspells.operandCount, List.length_map]

/-- Off a word boundary, with a field that has no bits. Without bits the element is refused. -/
theorem readAbbreviation_exact_zero_width :
    let before := [true, false, true]
    let ops : List SpelledOp := [.literal 5, .fixed 0, .array, .vbr 6]
    let bad : List SpelledOp := [.literal 5, .array, .vbr 0]
    (∃ c', readAbbreviation ops.length (between before (ops.flatMap SpelledOp.bits ++ [])) =
      .ok { fields := [.literal 5, .literal 0], payload := some (.array (.vbr 6)) } c') ∧
    ¬ ∃ a c', readAbbreviation bad.length (between before (bad.flatMap SpelledOp.bits ++ [])) =
      .ok a c' := by
  intro before ops bad
  constructor
  · obtain ⟨hiff, hread⟩ := readAbbreviation_exact ops before []
    obtain ⟨a, c', h⟩ := hiff.mpr ⟨by decide, _, .array [.literal 5, .literal 0] (by decide)⟩
    obtain ⟨_, hrest, rfl⟩ := Spells.scalar_iff.mp (hread a c' h).1
    obtain ⟨_, hlast, rfl⟩ := Spells.scalar_iff.mp hrest
    obtain ⟨_, -, helement, rfl⟩ := Spells.array_iff.mp hlast
    cases helement
    exact ⟨c', h⟩
  · rw [(readAbbreviation_exact bad before []).1]
    rintro ⟨-, a, hspells⟩
    obtain ⟨rest, hrest, -⟩ := Spells.scalar_iff.mp hspells
    obtain ⟨element, hbits, helement, -⟩ := Spells.array_iff.mp hrest
    cases helement
    cases hbits

end Dxil
