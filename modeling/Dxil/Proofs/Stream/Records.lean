import Dxil.Proofs.Stream.Run
import Dxil.Proofs.Stream.Writer

/-!
# Dxil.Proofs.Stream.Records

Records in both of their written forms: laid out by an abbreviation, and with their own operand
count. An abbreviation is only a shorter way to say the same.

* `Encoding.represents` and `Encoding.bits` : the values that an encoding can hold, and how.
* `Abbreviation.represents` and `Abbreviation.bits` : the same for records.
* `readScalar_of_sees`, `readArray_of_sees`, `readAbbreviated_of_sees`,
  `readUnabbreviated_of_sees` : reading takes back what was written.
* `abbreviated_agrees_unabbreviated` : both forms, at any place of a stream.
-/

namespace Dxil

open Cursor

/-! ## Written forms -/

/-- The codes of the characters that six bits can stand for, by number: the small letters, the
capitals, the digits, the full stop and the underscore. -/
def char6Codes : List Nat :=
  List.range' 97 26 ++ List.range' 65 26 ++ List.range' 48 10 ++ [46, 95]

namespace Encoding

/-- Fields have up to 64 bits, and a chunk has a bit beside its flag. -/
def wellFormed : Encoding → Bool
  | literal _ => true
  | fixed width => 1 ≤ width ∧ width ≤ 64
  | vbr width => 2 ≤ width ∧ width ≤ 32
  | char6 => true

def isLiteral : Encoding → Bool
  | literal _ => true
  | _ => false

def represents : Encoding → UInt64 → Bool
  | literal value, v => v = value
  | fixed width, v => v.toNat < Nat.pow 2 width
  | vbr _, _ => true
  | char6, v => v.toNat ∈ char6Codes

def bits : Encoding → UInt64 → List Bool
  | literal _, _ => []
  | fixed width, v => bitsOf width v.toNat
  | vbr width, v => vbrBits width v.toNat
  | char6, v => bitsOf 6 (char6Codes.idxOf v.toNat)

end Encoding

/-- The code and the operands, which an abbreviation does not tell apart. -/
def Record.values (r : Record) : List UInt64 := r.code.toUInt64 :: r.operands

def payloadWellFormed : Option Payload → Bool
  | none => true
  | some (.array element) => element.wellFormed && !element.isLiteral
  | some .blob => false

def payloadRepresents : Option Payload → List UInt64 → Bool
  | none, vs => vs.isEmpty
  | some (.array element), vs => vs.all element.represents
  | some .blob, _ => false

def payloadBits : Option Payload → List UInt64 → List Bool
  | some (.array element), vs => vbrBits 6 vs.length ++ vs.flatMap element.bits
  | _, _ => []

namespace Abbreviation

/-- There is a field for the code, and a payload that is an array if there is one. -/
def wellFormed (a : Abbreviation) : Bool :=
  !a.fields.isEmpty && a.fields.all Encoding.wellFormed && payloadWellFormed a.payload

/-- Each field can hold its value, and the values beyond the fields are the payload. -/
def represents (a : Abbreviation) (r : Record) : Bool :=
  a.fields.length ≤ r.values.length && (a.fields.zip r.values).all (fun (e, v) => e.represents v) &&
    payloadRepresents a.payload (r.values.drop a.fields.length)

def bits (a : Abbreviation) (r : Record) : List Bool :=
  (a.fields.zip r.values).flatMap (fun (e, v) => e.bits v) ++
    payloadBits a.payload (r.values.drop a.fields.length)

end Abbreviation

/-- Code, operand count and operands, in chunks of six bits. -/
def unabbreviatedBits (r : Record) : List Bool :=
  vbrBits 6 r.code.toNat ++ (vbrBits 6 r.operands.length ++
    r.operands.flatMap fun v => vbrBits 6 v.toNat)

theorem recordBits_eq (width : Nat) (r : Record) :
    recordBits width r = bitsOf width 3 ++ unabbreviatedBits r := rfl

/-! ## Fields -/

theorem bitsOf_add (m n value : Nat) :
    bitsOf (m + n) value = bitsOf m (value % Nat.pow 2 m) ++ bitsOf n (value / Nat.pow 2 m) := by
  apply List.ext_getElem?
  intro i
  by_cases hi : i < m
  · rw [List.getElem?_append_left (by simpa using hi), getElem?_bitsOf (by omega),
      getElem?_bitsOf hi, Nat.pow_eq, Nat.testBit_mod_two_pow]
    simp [hi]
  · rw [List.getElem?_append_right (by simpa using hi), length_bitsOf]
    by_cases hn : i < m + n
    · rw [getElem?_bitsOf hn, getElem?_bitsOf (by omega), Nat.pow_eq, Nat.testBit_div_two_pow,
        Nat.sub_add_cancel (by omega)]
    · rw [List.getElem?_eq_none (by simpa using hn), List.getElem?_eq_none]
      simp only [length_bitsOf]
      omega

section

variable {c : Cursor}

/-- A field of more than 32 bits is read in two parts, the low word first. -/
theorem readFixed_of_sees {width value : Nat} (hw : width ≤ 64) (hv : value < Nat.pow 2 width)
    (h : c.Sees (bitsOf width value)) : readFixed width c = .ok value (c.forward width) := by
  rw [readFixed, if_neg (by omega)]
  by_cases hw' : width ≤ 32
  · rw [if_pos hw']
    exact read_of_sees hw' hv h
  · rw [if_neg hw']
    obtain ⟨n, rfl⟩ : ∃ n, width = 32 + n := ⟨width - 32, by omega⟩
    rw [bitsOf_add, sees_append, length_bitsOf] at h
    have hlow : value % Nat.pow 2 32 < Nat.pow 2 32 := Nat.mod_lt _ (by decide)
    have hhigh : value / Nat.pow 2 32 < Nat.pow 2 n := by
      have hpow : Nat.pow 2 32 * Nat.pow 2 n = Nat.pow 2 (32 + n) := (Nat.pow_add 2 32 n).symm
      exact Nat.div_lt_of_lt_mul (hpow ▸ hv)
    have hvalue : value % Nat.pow 2 32 + value / Nat.pow 2 32 * UInt32.size = value := by
      have hsize : UInt32.size = Nat.pow 2 32 := rfl
      rw [hsize, Nat.mul_comm]
      exact Nat.mod_add_div value _
    rw [Nat.add_sub_cancel_left, bind_of_ok (read_of_sees (Nat.le_refl 32) hlow h.1),
      bind_of_ok (read_of_sees (by omega) hhigh h.2), hvalue, forward_forward]
    rfl

theorem map_toNat_char6Alphabet : char6Alphabet.map Char.toNat = char6Codes := by decide +kernel

theorem idxOf_lt_of_mem_char6Codes {n : Nat} (h : n ∈ char6Codes) : char6Codes.idxOf n < 64 :=
  List.idxOf_lt_length_iff.mpr h

theorem decodeChar6_idxOf {v : UInt64} (h : v.toNat ∈ char6Codes) :
    (decodeChar6 (char6Codes.idxOf v.toNat)).toUInt64 = v := by
  have hget : (char6Alphabet.map Char.toNat)[char6Codes.idxOf v.toNat]? = some v.toNat := by
    rw [map_toNat_char6Alphabet]
    exact List.getElem?_eq_some_iff.mpr ⟨List.idxOf_lt_length_iff.mpr h, List.getElem_idxOf _⟩
  rw [List.getElem?_map] at hget
  obtain ⟨letter, hletter, hcode⟩ := Option.map_eq_some_iff.mp hget
  have hread : char6Alphabet.getD (char6Codes.idxOf v.toNat % 64) 'a' = letter := by
    rw [Nat.mod_eq_of_lt (idxOf_lt_of_mem_char6Codes h), List.getD_eq_getElem?_getD, hletter,
      Option.getD_some]
  have hsmall : ∀ n ∈ char6Codes, n < 256 := by decide +kernel
  apply UInt64.toNat_inj.mp
  rw [decodeChar6, hread, hcode, UInt8.toNat_toUInt64, UInt8.toNat_ofNat']
  exact Nat.mod_eq_of_lt (hsmall _ h)

/-! ## Values -/

theorem readScalar_of_sees {e : Encoding} {v : UInt64} (hwf : e.wellFormed)
    (hv : e.represents v) (h : c.Sees (e.bits v)) :
    readScalar e c = .ok v (c.forward (e.bits v).length) := by
  cases e with
  | literal value =>
    obtain rfl : v = value := by simpa [Encoding.represents] using hv
    simp [readScalar, Encoding.bits, pure, EStateM.pure]
  | fixed width =>
    have hw : 1 ≤ width ∧ width ≤ 64 := by simpa [Encoding.wellFormed] using hwf
    have hlt : v.toNat < Nat.pow 2 width := by simpa [Encoding.represents] using hv
    rw [readScalar, bind_of_ok (lift_of_ok (readFixed_of_sees hw.2 hlt h)), UInt64.ofNat_toNat]
    simp [Encoding.bits, pure, EStateM.pure]
  | vbr width =>
    have hw : 2 ≤ width ∧ width ≤ 32 := by simpa [Encoding.wellFormed] using hwf
    rw [readScalar, bind_of_ok (lift_of_ok (readVbr_of_sees hw.1 hw.2 v.toNat_lt h)),
      UInt64.ofNat_toNat]
    rfl
  | char6 =>
    have hmem : v.toNat ∈ char6Codes := by simpa [Encoding.represents] using hv
    have hlt := idxOf_lt_of_mem_char6Codes hmem
    rw [readScalar, bind_of_ok (lift_of_ok (read_of_sees (by omega) hlt h)), decodeChar6_idxOf hmem]
    simp [Encoding.bits, pure, EStateM.pure]

theorem readScalars_of_sees {es : List Encoding} {vs : List UInt64}
    (hwf : es.all Encoding.wellFormed)
    (hlen : es.length ≤ vs.length) (hvs : (es.zip vs).all (fun (e, v) => e.represents v))
    (h : c.Sees ((es.zip vs).flatMap fun (e, v) => e.bits v)) :
    readScalars es c = .ok (vs.take es.length)
      (c.forward ((es.zip vs).flatMap fun (e, v) => e.bits v).length) := by
  induction es generalizing c vs with
  | nil => simp [readScalars, pure, EStateM.pure]
  | cons e es ih =>
    cases vs with
    | nil => simp at hlen
    | cons v vs =>
      rw [List.all_cons, Bool.and_eq_true] at hwf
      rw [List.zip_cons_cons, List.all_cons, Bool.and_eq_true] at hvs
      rw [List.zip_cons_cons, List.flatMap_cons, sees_append] at h
      have hrest := ih hwf.2 (by simpa using hlen) hvs.2 h.2
      rw [readScalars, bind_of_ok (readScalar_of_sees hwf.1 hvs.1 h.1), bind_of_ok hrest,
        List.zip_cons_cons, List.flatMap_cons, List.length_append, forward_forward]
      rfl

theorem readArray_of_sees {element : Encoding} {vs : List UInt64} (hwf : element.wellFormed)
    (hvs : vs.all element.represents) (h : c.Sees (vs.flatMap element.bits)) :
    readArray element vs.length c = .ok vs (c.forward (vs.flatMap element.bits).length) := by
  induction vs generalizing c with
  | nil => simp [readArray, pure, EStateM.pure]
  | cons v vs ih =>
    rw [List.all_cons, Bool.and_eq_true] at hvs
    rw [List.flatMap_cons, sees_append] at h
    rw [List.length_cons, readArray, bind_of_ok (readScalar_of_sees hwf hvs.1 h.1),
      bind_of_ok (ih hvs.2 h.2), List.flatMap_cons, List.length_append, forward_forward]
    rfl

theorem minBits_le_length_bits (e : Encoding) (v : UInt64) : e.minBits ≤ (e.bits v).length := by
  cases e with
  | literal value => exact Nat.zero_le _
  | fixed width => simp [Encoding.minBits, Encoding.bits]
  | vbr width => exact le_length_vbrBits width v.toNat
  | char6 => simp [Encoding.minBits, Encoding.bits]

theorem length_mul_minBits_le (e : Encoding) (vs : List UInt64) :
    vs.length * e.minBits ≤ (vs.flatMap e.bits).length := by
  induction vs with
  | nil => simp
  | cons v vs ih =>
    have hfirst := minBits_le_length_bits e v
    rw [List.length_cons, Nat.succ_mul, List.flatMap_cons, List.length_append]
    omega

/-! ## Records -/

theorem readLength_of_sees {count minBits : Nat} (hcount : count < UInt64.size)
    (h : c.Sees (vbrBits 6 count))
    (hroom : count * minBits ≤ (c.forward (vbrBits 6 count).length).left) :
    readLength minBits c = .ok count (c.forward (vbrBits 6 count).length) := by
  rw [readLength, readVbr_of_sees (by omega) (by omega) hcount h]
  exact if_pos hroom

/-- A counted array. Its elements come next, so there is room for their least size. -/
theorem readLength_readArray_of_sees {element : Encoding} {vs : List UInt64}
    (hwf : element.wellFormed) (hvs : vs.all element.represents) (hcount : vs.length < UInt64.size)
    (h : c.Sees (vbrBits 6 vs.length ++ vs.flatMap element.bits)) :
    (readLength element.minBits >>= readArray element) c =
      .ok vs (c.forward (vbrBits 6 vs.length ++ vs.flatMap element.bits).length) := by
  obtain ⟨hlength, helements⟩ := sees_append.mp h
  have hroom := Nat.le_trans (length_mul_minBits_le element vs) helements.length_le
  rw [bind_of_ok (readLength_of_sees hcount hlength hroom), readArray_of_sees hwf hvs helements,
    forward_forward, List.length_append]

theorem readUnabbreviated_of_sees (r : Record) (hcount : r.operands.length < UInt64.size)
    (h : c.Sees (unabbreviatedBits r)) :
    readUnabbreviated c = .ok r (c.forward (unabbreviatedBits r).length) := by
  obtain ⟨hcode, hops⟩ := sees_append.mp h
  have hlt : r.code.toNat < UInt64.size := Nat.lt_trans r.code.toNat_lt (by decide)
  have hall : r.operands.all (Encoding.vbr 6).represents := by simp [Encoding.represents]
  have harray : (readLength (Encoding.vbr 6).minBits >>= readArray (.vbr 6)) _ = _ :=
    readLength_readArray_of_sees (by decide) hall hcount hops
  have hread : readUnabbreviated = (do
      let code ← liftM (readVbr 6)
      let operands ← readLength (Encoding.vbr 6).minBits >>= readArray (.vbr 6)
      pure ⟨UInt32.ofNat code, operands⟩) := by
    simp only [bind_assoc]
    rfl
  rw [hread, bind_of_ok (lift_of_ok (readVbr_of_sees (by omega) (by omega) hlt hcode)),
    bind_of_ok harray, UInt32.ofNat_toNat, forward_forward, ← List.length_append]
  rfl

theorem length_operands_le (r : Record) : r.operands.length ≤ (unabbreviatedBits r).length := by
  have hops : r.operands.length * 6 ≤ (r.operands.flatMap (Encoding.vbr 6).bits).length :=
    length_mul_minBits_le (.vbr 6) r.operands
  have hbits : unabbreviatedBits r = vbrBits 6 r.code.toNat ++ (vbrBits 6 r.operands.length ++
    r.operands.flatMap (Encoding.vbr 6).bits) := rfl
  simp only [hbits, List.length_append]
  omega

theorem readPayload_of_sees {payload : Option Payload} {vs : List UInt64}
    (hwf : payloadWellFormed payload) (hvs : payloadRepresents payload vs)
    (hcount : vs.length < UInt64.size) (h : c.Sees (payloadBits payload vs)) :
    readPayload payload c = .ok vs (c.forward (payloadBits payload vs).length) := by
  match payload with
  | none =>
    obtain rfl : vs = [] := List.isEmpty_iff.mp hvs
    simp [readPayload, payloadBits, pure, EStateM.pure]
  | some (.array element) =>
    rw [payloadWellFormed, Bool.and_eq_true] at hwf
    exact readLength_readArray_of_sees hwf.1 hvs hcount h
  | some .blob => cases hwf

theorem readAbbreviated_of_sees {a : Abbreviation} {r : Record} (hwf : a.wellFormed)
    (hr : a.represents r) (hcount : r.operands.length < UInt64.size) (h : c.Sees (a.bits r)) :
    readAbbreviated a c = .ok (some r) (c.forward (a.bits r).length) := by
  obtain ⟨fields, payload⟩ := a
  simp only [Abbreviation.wellFormed, Bool.and_eq_true] at hwf
  obtain ⟨⟨hsome, hfields⟩, hpayload⟩ := hwf
  simp only [Abbreviation.represents, Bool.and_eq_true, decide_eq_true_eq] at hr
  obtain ⟨⟨hlen, hvalues⟩, helements⟩ := hr
  cases fields with
  | nil => cases hsome
  | cons code fields =>
    -- The first field is the code, the others are the first operands.
    rw [List.all_cons, Bool.and_eq_true] at hfields
    simp only [Record.values, List.zip_cons_cons, List.all_cons, Bool.and_eq_true,
      List.length_cons, Nat.add_le_add_iff_right, List.drop_succ_cons] at hvalues hlen helements
    simp only [Abbreviation.bits, Record.values, List.zip_cons_cons, List.flatMap_cons,
      List.length_cons, List.drop_succ_cons, List.append_assoc, sees_append] at h ⊢
    obtain ⟨hcode, hscalars, hrest⟩ := h
    have hcount' : (r.operands.drop fields.length).length < UInt64.size := by
      rw [List.length_drop]
      omega
    have hread : readAbbreviated ⟨code :: fields, payload⟩ = (do
        let code ← readScalar code
        let scalars ← readScalars fields
        let elements ← readPayload payload
        pure (some ⟨code.toUInt32, scalars ++ elements⟩)) := rfl
    rw [hread, bind_of_ok (readScalar_of_sees hfields.1 hvalues.1 hcode),
      bind_of_ok (readScalars_of_sees hfields.2 hlen hvalues.2 hscalars),
      bind_of_ok (readPayload_of_sees hpayload helements hcount' hrest), List.take_append_drop,
      UInt32.toUInt32_toUInt64]
    simp only [forward_forward, List.length_append, Nat.add_assoc]
    rfl

end

/-! ## Anywhere in a stream -/

/-- Behind the bits `before` of a stream, in front of the bits `after`. -/
def Cursor.between (before after : List Bool) : Cursor :=
  ⟨(wordsOfBits (before ++ after)).toArray, before.length, by
    simp only [List.size_toArray, length_wordsOfBits, List.length_append]
    omega⟩

theorem sees_between (before bits after : List Bool) :
    (between before (bits ++ after)).Sees bits := by
  intro i b h
  refine bit?_wordsOfBits ?_
  obtain ⟨hi, -⟩ := List.getElem?_eq_some_iff.mp h
  rw [List.getElem?_append_right (by simp only [between]; omega)]
  simp only [between, Nat.add_sub_cancel_left]
  rw [List.getElem?_append_left hi, h]

theorem forward_between (before bits after : List Bool) :
    (between before (bits ++ after)).forward bits.length = between (before ++ bits) after := by
  apply Cursor.ext
  · simp only [forward_words, between, List.append_assoc]
  · rw [forward_pos (sees_between before bits after).length_le]
    simp only [between, List.length_append]

/-- A record is read back from either of its forms, wherever it stands, and the cursor comes to lie
right behind it. -/
theorem abbreviated_agrees_unabbreviated {a : Abbreviation} {r : Record} (hwf : a.wellFormed)
    (hr : a.represents r) (hcount : r.operands.length < UInt64.size) (before after : List Bool) :
    readAbbreviated a (between before (a.bits r ++ after)) =
        .ok (some r) (between (before ++ a.bits r) after) ∧
      readUnabbreviated (between before (unabbreviatedBits r ++ after)) =
        .ok r (between (before ++ unabbreviatedBits r) after) := by
  constructor
  · rw [readAbbreviated_of_sees hwf hr hcount (sees_between _ _ _), forward_between]
  · rw [readUnabbreviated_of_sees r hcount (sees_between _ _ _), forward_between]

/-- A literal code, a field of more than 32 bits, a character, and an array of numbers at a variable
bit rate, in the middle of a word. -/
theorem abbreviated_agrees_unabbreviated_mixed :
    let a : Abbreviation := ⟨[.literal 7, .fixed 40, .char6], some (.array (.vbr 3))⟩
    let r : Record := ⟨7, [0xffffffffff, 0x5f, 0, 0xffffffffffffffff]⟩
    let before := List.replicate 13 true
    a.wellFormed ∧ a.represents r ∧ r.operands.length < UInt64.size ∧
      ∀ after, readAbbreviated a (between before (a.bits r ++ after)) =
          .ok (some r) (between (before ++ a.bits r) after) ∧
        readUnabbreviated (between before (unabbreviatedBits r ++ after)) =
          .ok r (between (before ++ unabbreviatedBits r) after) := by
  intro a r before
  have hwf : a.wellFormed := by decide
  have hr : a.represents r := by decide +kernel
  have hcount : r.operands.length < UInt64.size := by decide
  exact ⟨hwf, hr, hcount, abbreviated_agrees_unabbreviated hwf hr hcount before⟩

end Dxil
