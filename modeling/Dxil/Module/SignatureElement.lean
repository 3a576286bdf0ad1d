import Dxil.Module.Metadata

/-!
# Dxil.Module.SignatureElement

Signatures in metadata: an element is a node of ten operands, with a list of tags after them.

* `SignatureElement.decode` : one element.
* `Signature.decode` : all elements of a signature. Each bears its position as id.
-/

namespace Dxil

def maxSignatureRows : Nat := 32

namespace SignatureElement

/-- The numbers after the first have to go on from it, one by one. A gap is an error, but the rest
is still read. -/
def checkSemanticRows (m : MetadataScope) (first : UInt32) : (row : Nat) → List (Option Nat) →
    Decoder Unit
  | _, [] => pure ()
  | row, slot :: slots => do
    let index ← m.requireUint slot (.semanticIndexValue row)
    reportIf (index.toNat ≠ first.toNat + row) (.semanticIndexSequence row)
    checkSemanticRows m first (row + 1) slots

def decodeSemanticIndex (m : MetadataScope) (slot : Option Nat) : Decoder UInt32 :=
  match slot with
  | none => pure 0
  | some _ => do
    match ← orReject (m.node? slot) .semanticIndexList with
    | [] => pure 0
    | slot :: slots => do
      let first ← m.requireUint slot (.semanticIndexValue 0)
      checkSemanticRows m first 1 slots
      pure first

def applyTag (e : SignatureElement) (startColumn : Nat) (tag value : UInt32) :
    Decoder SignatureElement :=
  match tag.toNat with
  | 0 => if 3 < value then reject (.elementStream value) else pure { e with streamIndex := value }
  | 1 => pure e
  | 3 => do
    reportIf (15 < value) (.elementUsage value)
    pure { e with usedMask := BitVec.ofNat 4 (value.toNat <<< startColumn) }
  | _ => do
    report (.elementTagUnhandled tag)
    pure e

def applyTags (m : MetadataScope) (startColumn : Nat) :
    SignatureElement → List (Option Nat) → Decoder SignatureElement
  | e, tag :: value :: rest => do
    match ← m.uint tag, ← m.uint value with
    | some tag, some value =>
      let e ← e.applyTag startColumn tag value
      applyTags m startColumn e rest
    | _, _ => reject .elementTag
  | e, _ => pure e

def decodeTags (m : MetadataScope) (startColumn : Nat) (e : SignatureElement)
    (slot : Option Nat) : Decoder SignatureElement :=
  match slot with
  | none => pure e
  | some _ => do
    let tags ← orReject (m.node? slot) .elementTagList
    reportIf (tags.length % 2 ≠ 0) .elementTagsOdd
    e.applyTags m startColumn tags

def decode (m : MetadataScope) (i : Nat) (slot : Option Nat) : Decoder SignatureElement := do
  match ← orReject (m.node? slot) .signatureElement with
  | id :: name :: component :: kind :: indices :: interpolation :: rows :: columns :: startRow ::
      startColumn :: rest => do
    reportIf (1 < rest.length) (.elementExtraOperands (rest.length - 1))
    let id ← m.requireUint id (.elementValue 0)
    let component ← m.requireUint component (.elementValue 2)
    let kind ← m.requireUint kind (.elementValue 3)
    let interpolation ← m.requireUint interpolation (.elementValue 5)
    let rows ← m.requireUint rows (.elementValue 6)
    let columns ← m.requireUint columns (.elementValue 7)
    let startRow ← m.requireUint startRow (.elementValue 8)
    let startColumn ← m.requireUint startColumn (.elementValue 9)
    rejectIf (id.toNat ≠ i) (.elementId id)
    let semanticName ← orReject (m.string? name) .elementName
    let (componentType, minPrecision) := ComponentType.ofNumber component.toNat
    let sysval ← orReject (SysVal.ofSemanticKind? kind.toNat) (.elementSemantic kind)
    let semanticIndex ← decodeSemanticIndex m indices
    let interpolation ← orReject (InterpolationMode.ofNat? interpolation.toNat)
      (.elementInterpolation interpolation)
    rejectIf (maxSignatureRows < startRow.toNat + rows.toNat) (.elementRows startRow rows)
    rejectIf (vec4Size < startColumn.toNat + columns.toNat) (.elementColumns startColumn columns)
    let mask := WriteMask.ofRange startColumn.toNat columns.toNat
    let e : SignatureElement :=
      { semanticName, semanticIndex, sysval, componentType, minPrecision, interpolation
        registerIndex := startRow, registerCount := rows, mask, usedMask := mask }
    e.decodeTags m startColumn.toNat (rest.headD none)
  | operands => reject (.elementOperands operands.length)

end SignatureElement

namespace Signature

def decodeFrom (m : MetadataScope) : (i : Nat) → List (Option Nat) → Decoder Signature
  | _, [] => pure []
  | i, slot :: slots => do
    let e ← SignatureElement.decode m i slot
    let es ← decodeFrom m (i + 1) slots
    pure (e :: es)

/-- The signature in a slot. A null slot is an empty signature. -/
def decode (m : MetadataScope) (slot : Option Nat) : Decoder Signature :=
  match slot with
  | none => pure []
  | some _ => do
    let elements ← orReject (m.node? slot) .signatureList
    decodeFrom m 0 elements

end Signature

end Dxil
