import Dxil.Stream.Abbreviation
import Dxil.Text.Utf8

/-!
# Dxil.Stream.Record

Records hold the data of a block: a code and up to 64-bit operands, whose meaning depends on the
block.

* `Record` and `Record.text`, the operands as characters.
* `readAbbreviated` : a record as an abbreviation lays it out.
* `readUnabbreviated` : a record that carries its own operand count.
-/

namespace Dxil

structure Record where
  code : UInt32
  operands : List UInt64
  deriving DecidableEq, Repr

/-- The text whose bytes are the operands from `start` on; of each only the low byte counts. -/
def Record.text (r : Record) (start : Nat) : String :=
  decodeUtf8 ((r.operands.drop start).map UInt64.toUInt8)

def Encoding.minBits : Encoding → Nat
  | literal _ => 0
  | fixed width => width
  | vbr width => width
  | char6 => 6

def readScalar : Encoding → StreamReader UInt64
  | .literal value => pure value
  | .fixed width => do
    let value ← Cursor.readFixed width
    pure (UInt64.ofNat value)
  | .vbr width => do
    let value ← Cursor.readVbr width
    pure (UInt64.ofNat value)
  | .char6 => do
    let value ← Cursor.read 6
    pure (decodeChar6 value).toUInt64

def readScalars : List Encoding → StreamReader (List UInt64)
  | [] => pure []
  | e :: es => do
    let value ← readScalar e
    let values ← readScalars es
    pure (value :: values)

/-- A count of elements that take `minBits` each at the least. A count for which too few bits are
left is refused before any element is read. -/
def readLength (minBits : Nat) : StreamReader Nat := fun c =>
  match Cursor.readVbr 6 c with
  | .error e c' => .error (.bits e) c'
  | .ok count c' =>
    if count * minBits ≤ c'.left then .ok count c' else .error (.bits .bufferOverflow) c'

def readArray (element : Encoding) : (count : Nat) → StreamReader (List UInt64)
  | 0 => pure []
  | count + 1 => do
    let value ← readScalar element
    let values ← readArray element count
    pure (value :: values)

/-- Pass over a blob of `size` bytes, which starts at the next word boundary. -/
def skipBlob (size : Nat) : StreamReader Unit := fun c =>
  liftBits (Cursor.skipWords ((size + 3) / 4)) c.align

/-- The operands of the payload. A blob has none. -/
def readPayload : Option Payload → StreamReader (List UInt64)
  | none => pure []
  | some (.array element) => do
    let count ← readLength element.minBits
    readArray element count
  | some .blob => do
    let size ← readLength 8
    skipBlob size
    pure []

/-- A record laid out by `a`. An abbreviation without operands stands for no record. -/
def readAbbreviated (a : Abbreviation) : StreamReader (Option Record) :=
  match a.fields, a.payload with
  | [], none => pure none
  | [], some _ => throw .missingRecordCode
  | code :: fields, payload => do
    let code ← readScalar code
    let scalars ← readScalars fields
    let elements ← readPayload payload
    pure (some ⟨code.toUInt32, scalars ++ elements⟩)

/-- A record as code, operand count and operands, each in chunks of six bits. -/
def readUnabbreviated : StreamReader Record := do
  let code ← Cursor.readVbr 6
  let count ← readLength 6
  let operands ← readArray (.vbr 6) count
  pure ⟨UInt32.ofNat code, operands⟩

/-! ## Reading a record moves forward -/

namespace Shortens

theorem readScalar (e : Encoding) : Shortens (Dxil.readScalar e) := by
  cases e with
  | literal value => exact .pure _
  | fixed width => exact .bind (.liftBits (.readFixed _)) fun _ => .pure _
  | vbr width => exact .bind (.liftBits (.readVbr _)) fun _ => .pure _
  | char6 => exact .bind (.liftBits (.read _)) fun _ => .pure _

theorem readScalars (es : List Encoding) : Shortens (Dxil.readScalars es) := by
  induction es with
  | nil => exact .pure _
  | cons e es ih => exact .bind (.readScalar e) fun _ => .bind ih fun _ => .pure _

theorem readLength (minBits : Nat) : Shortens (Dxil.readLength minBits) := by
  intro c a c' h
  unfold Dxil.readLength at h
  split at h
  · cases h
  · rename_i h₁
    split at h
    · cases h
      exact Shortens.readVbr 6 _ _ _ h₁
    · cases h

theorem readArray (element : Encoding) (count : Nat) :
    Shortens (Dxil.readArray element count) := by
  induction count with
  | zero => exact .pure _
  | succ count ih => exact .bind (.readScalar element) fun _ => .bind ih fun _ => .pure _

theorem skipBlob (size : Nat) : Shortens (Dxil.skipBlob size) := by
  intro c a c' h
  unfold Dxil.skipBlob Dxil.liftBits at h
  split at h
  · rename_i h₁
    cases h
    have hb : c.align.bit = 0 := by simp [Cursor.align, Cursor.bit]
    exact Nat.le_trans (Cursor.left_le_of_skipWords h₁ hb) c.left_align_le
  · cases h

theorem readPayload (p : Option Payload) : Shortens (Dxil.readPayload p) := by
  match p with
  | none => exact .pure _
  | some (.array element) => exact .bind (.readLength _) fun _ => .readArray _ _
  | some .blob => exact .bind (.readLength _) fun _ => .bind (.skipBlob _) fun _ => .pure _

theorem readAbbreviated (a : Abbreviation) : Shortens (Dxil.readAbbreviated a) := by
  unfold Dxil.readAbbreviated
  split
  · exact .pure _
  · exact .throw _
  · exact .bind (.readScalar _) fun _ => .bind (.readScalars _) fun _ =>
      .bind (.readPayload _) fun _ => .pure _

theorem readUnabbreviated : Shortens Dxil.readUnabbreviated :=
  .bind (.liftBits (.readVbr _)) fun _ => .bind (.readLength _) fun _ =>
    .bind (.readArray _ _) fun _ => .pure _

end Shortens

end Dxil
