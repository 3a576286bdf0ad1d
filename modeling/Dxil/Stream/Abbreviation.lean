import Dxil.Stream.Error

/-!
# Dxil.Stream.Abbreviation

An abbreviation says how the fields of a record are encoded. It is defined in the stream itself, by
a list of operands.

* `Encoding` : one scalar field.
* `Payload` : what may follow the scalar fields, a blob or an array of one scalar encoding.
* `Abbreviation` : scalar fields, then at most one payload.
* `readAbbreviation` : a definition of the given number of operands.
-/

namespace Dxil

inductive Encoding where
  /-- A value that takes no bits. -/
  | literal (value : UInt64)
  | fixed (width : Nat)
  /-- Variable bit rate in chunks of `width` bits. -/
  | vbr (width : Nat)
  /-- A character of `char6Alphabet` in six bits. -/
  | char6
  deriving DecidableEq, Repr

inductive Payload where
  /-- A byte count, then bytes from the next word boundary on. -/
  | blob
  /-- An element count, then the elements. -/
  | array (element : Encoding)
  deriving DecidableEq, Repr

structure Abbreviation where
  /-- The first field is the record code. -/
  fields : List Encoding := []
  payload : Option Payload := none
  deriving DecidableEq, Repr

/-- An array and its element count as one operand. -/
def Abbreviation.operandCount (a : Abbreviation) : Nat :=
  a.fields.length + (if a.payload.isSome then 1 else 0)

/-- An operand as it is written in a definition, where the element of an array is an operand of its
own. -/
inductive AbbreviationOp where
  | scalar (encoding : Encoding)
  | array
  | blob
  deriving DecidableEq, Repr

namespace AbbreviationOp

def isLiteral : AbbreviationOp → Bool
  | scalar (.literal _) => true
  | _ => false

def isArray : AbbreviationOp → Bool
  | array => true
  | _ => false

def isBlob : AbbreviationOp → Bool
  | blob => true
  | _ => false

/-- The number an operand's kind is written with. Literals are marked otherwise and count as 0. -/
def kind : AbbreviationOp → Nat
  | scalar (.literal _) => 0
  | scalar (.fixed _) => 1
  | scalar (.vbr _) => 2
  | array => 3
  | scalar .char6 => 4
  | blob => 5

end AbbreviationOp

/-! ## Six-bit characters -/

def char6Alphabet : List Char :=
  "abcdefghijklmnopqrstuvwxyzABCDEFGHIJKLMNOPQRSTUVWXYZ0123456789._".toList

def decodeChar6 (value : Nat) : UInt8 :=
  UInt8.ofNat ((char6Alphabet.getD (value % 64) 'a').toNat)

/-! ## Reading a definition -/

/-- The encoding that an operand of kind 1 asks for. Nothing to read is a literal zero. -/
def Encoding.ofFixedWidth (width : Nat) : Except StreamError Encoding :=
  if 64 < width then .error (.invalidWidth width)
  else if width = 0 then .ok (.literal 0)
  else .ok (.fixed width)

/-- The encoding that an operand of kind 2 asks for. A chunk needs a bit beside its flag. -/
def Encoding.ofVbrWidth (width : Nat) : Except StreamError Encoding :=
  if 32 < width ∨ width = 1 then .error (.invalidWidth width)
  else if width = 0 then .ok (.literal 0)
  else .ok (.vbr width)

def readAbbreviationOp : StreamReader AbbreviationOp := do
  let isLiteral ← Cursor.read 1
  if isLiteral = 1 then
    let value ← Cursor.readVbr 8
    pure (.scalar (.literal (UInt64.ofNat value)))
  else
    let kind ← Cursor.read 3
    match kind with
    | 1 => do
      let width ← Cursor.readVbr 5
      .scalar <$> (MonadExcept.ofExcept (Encoding.ofFixedWidth width) : StreamReader Encoding)
    | 2 => do
      let width ← Cursor.readVbr 5
      .scalar <$> (MonadExcept.ofExcept (Encoding.ofVbrWidth width) : StreamReader Encoding)
    | 3 => pure .array
    | 4 => pure (.scalar .char6)
    | 5 => pure .blob
    | _ => throw (.unknownEncoding kind)

/-- The operand after an array operand: its element, which has to take up bits. -/
def readElement : StreamReader Encoding := do
  match ← readAbbreviationOp with
  | .scalar (.literal _) => throw .invalidAbbreviation
  | .scalar element => pure element
  | _ => throw .invalidAbbreviation

/-- A definition of `count` operands. An array is the last but one and a blob the last. -/
def readAbbreviation : (count : Nat) → StreamReader Abbreviation
  | 0 => pure {}
  | count + 1 => do
    match ← readAbbreviationOp with
    | .scalar field => do
      let rest ← readAbbreviation count
      pure { rest with fields := field :: rest.fields }
    | .array =>
      if count = 1 then do
        let element ← readElement
        pure { payload := some (.array element) }
      else throw .invalidAbbreviation
    | .blob =>
      if count = 0 then pure { payload := some .blob }
      else throw .invalidAbbreviation

theorem Shortens.readAbbreviationOp : Shortens Dxil.readAbbreviationOp := by
  unfold Dxil.readAbbreviationOp
  refine .bind (.liftBits (.read _)) fun _ => ?_
  split
  · exact .bind (.liftBits (.readVbr _)) fun _ => .pure _
  · refine .bind (.liftBits (.read _)) fun _ => ?_
    split
    · refine .bind (.liftBits (.readVbr _)) fun _ => .map _ ?_
      cases Encoding.ofFixedWidth _
      · exact .throw _
      · exact .pure _
    · refine .bind (.liftBits (.readVbr _)) fun _ => .map _ ?_
      cases Encoding.ofVbrWidth _
      · exact .throw _
      · exact .pure _
    · exact .pure _
    · exact .pure _
    · exact .pure _
    · exact .throw _

theorem Shortens.readElement : Shortens Dxil.readElement := by
  refine .bind .readAbbreviationOp fun op => ?_
  split
  · exact .throw _
  · exact .pure _
  · exact .throw _

theorem Shortens.readAbbreviation (count : Nat) : Shortens (Dxil.readAbbreviation count) := by
  induction count with
  | zero => exact .pure _
  | succ count ih =>
    refine .bind .readAbbreviationOp fun op => ?_
    split
    · exact .bind ih fun _ => .pure _
    · split
      · exact .bind .readElement fun _ => .pure _
      · exact .throw _
    · split
      · exact .pure _
      · exact .throw _

end Dxil
