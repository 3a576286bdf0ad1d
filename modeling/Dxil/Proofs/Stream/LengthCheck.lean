import Dxil.Proofs.Stream.Local

/-!
# Dxil.Proofs.Stream.LengthCheck

A count is compared with what is left of the stream before its elements are read. This only brings
a failure forward: records that can be read are the same without it.

* `readUnabbreviatedWith`, `readAbbreviatedWith` : reading a record, with counts read in a given
  way. `readLength` is the way that checks them, `plainLength` the one that does not.
* `SameResults` : readers with the same successes.
* `records_same_unchecked` : both ways to read counts give the same records.
-/

namespace Dxil

/-! ## Ways to read a count -/

/-- A way to read a count of elements that take so many bits each at the least. -/
abbrev LengthReader := Nat → StreamReader Nat

/-- A count as it stands, whatever is left. -/
def plainLength : LengthReader := fun _ => liftBits (Cursor.readVbr 6)

def readPayloadWith (length : LengthReader) : Option Payload → StreamReader (List UInt64)
  | none => pure []
  | some (.array element) => do
    let count ← length element.minBits
    readArray element count
  | some .blob => do
    let size ← length 8
    skipBlob size
    pure []

def readAbbreviatedWith (length : LengthReader) (a : Abbreviation) :
    StreamReader (Option Record) :=
  match a.fields, a.payload with
  | [], none => pure none
  | [], some _ => throw .missingRecordCode
  | code :: fields, payload => do
    let code ← readScalar code
    let scalars ← readScalars fields
    let elements ← readPayloadWith length payload
    pure (some ⟨code.toUInt32, scalars ++ elements⟩)

def readUnabbreviatedWith (length : LengthReader) : StreamReader Record := do
  let code ← Cursor.readVbr 6
  let count ← length 6
  let operands ← readArray (.vbr 6) count
  pure ⟨UInt32.ofNat code, operands⟩

/-! With the check, this is how records are read. -/

theorem readPayloadWith_readLength (payload : Option Payload) :
    readPayloadWith readLength payload = readPayload payload := by
  match payload with
  | none => rfl
  | some (.array element) => rfl
  | some .blob => rfl

theorem readAbbreviatedWith_readLength (a : Abbreviation) :
    readAbbreviatedWith readLength a = readAbbreviated a := by
  obtain ⟨fields, payload⟩ := a
  cases fields with
  | nil => cases payload <;> rfl
  | cons code fields =>
    simp only [readAbbreviatedWith, readAbbreviated, readPayloadWith_readLength]

theorem readUnabbreviatedWith_readLength :
    readUnabbreviatedWith readLength = readUnabbreviated := rfl

/-! ## Without the check -/

/-- The two readers succeed on the same streams, with the same result and at the same place. How
they fail may differ. -/
def SameResults {α : Type} (x y : StreamReader α) : Prop :=
  ∀ c a c', x c = .ok a c' ↔ y c = .ok a c'

namespace SameResults

variable {α β : Type} {x y : StreamReader α} {f g : α → StreamReader β}

theorem refl (x : StreamReader α) : SameResults x x := fun _ _ _ => Iff.rfl

theorem bind (hx : SameResults x y) (hf : ∀ a, SameResults (f a) (g a)) :
    SameResults (x >>= f) (y >>= g) := by
  intro c b c'
  constructor
  · intro h
    obtain ⟨a, c₁, hfirst, hrest⟩ := exists_of_bind_ok h
    rw [bind_of_ok ((hx c a c₁).mp hfirst)]
    exact (hf a c₁ b c').mp hrest
  · intro h
    obtain ⟨a, c₁, hfirst, hrest⟩ := exists_of_bind_ok h
    rw [bind_of_ok ((hx c a c₁).mpr hfirst)]
    exact (hf a c₁ b c').mpr hrest

theorem bindLength {minBits : Nat} {elements : Nat → StreamReader α}
    (hlocal : ∀ n, Local (.bits .bufferOverflow) (elements n))
    (hadv : ∀ n, Advances (elements n) (n * minBits)) :
    SameResults (readLength minBits >>= elements) (plainLength minBits >>= elements) :=
  fun _ _ _ => Local.bindReadLength_eq_ok_iff hlocal hadv

theorem payload (p : Option Payload) :
    SameResults (readPayloadWith readLength p) (readPayloadWith plainLength p) := by
  match p with
  | none => exact refl _
  | some (.array element) =>
    exact bindLength (fun n => .readArray element n) fun n => .readArray element n
  | some .blob =>
    -- The words of a blob are no fewer than its bytes need, and come after the word boundary.
    exact bindLength (fun n => .bind (.skipBlob n) fun _ => .pure _) fun n =>
      (Advances.skipBlob n).bind fun _ => .pure _

theorem abbreviated (a : Abbreviation) :
    SameResults (readAbbreviatedWith readLength a) (readAbbreviatedWith plainLength a) := by
  unfold readAbbreviatedWith
  split
  · exact refl _
  · exact refl _
  · exact (refl _).bind fun _ => (refl _).bind fun _ => (payload _).bind fun _ => refl _

theorem unabbreviated :
    SameResults (readUnabbreviatedWith readLength) (readUnabbreviatedWith plainLength) :=
  (refl _).bind fun _ => bindLength (fun n => .bind (.readArray _ n) fun _ => .pure _) fun n =>
    (Advances.readArray (.vbr 6) n).bind fun _ => .pure _

end SameResults

/-- The check of counts against what is left of the stream changes no record that can be read, nor
where it ends, and keeps none from being read. This holds of records with their own operand count
and of all abbreviations, also of such as no stream defines. -/
theorem records_same_unchecked (c c' : Cursor) :
    (∀ record, readUnabbreviated c = .ok record c' ↔
      readUnabbreviatedWith plainLength c = .ok record c') ∧
    ∀ a record, readAbbreviated a c = .ok record c' ↔
      readAbbreviatedWith plainLength a c = .ok record c' := by
  constructor
  · intro record
    rw [← readUnabbreviatedWith_readLength]
    exact SameResults.unabbreviated c record c'
  · intro a record
    rw [← readAbbreviatedWith_readLength]
    exact SameResults.abbreviated a c record c'

end Dxil
