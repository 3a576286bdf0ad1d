/-!
# Dxil.Text.Utf8

Names in a module are bytes. They become text by UTF-8 decoding that never fails: each longest run
of bytes that starts a character and cannot be completed becomes one replacement character.

* `Scan` : the bytes of the current character still owed, and its bits so far.
* `Scan.step` : one byte, refused when no character can continue with it.
* `decodeUtf8` : the whole text.
-/

namespace Dxil

def replacement : Char := '�'

/-- Where decoding stands inside a character: `owed` bytes are missing, the next one lies between
`low` and `high`, and `bits` holds what the bytes so far contribute. -/
structure Scan where
  owed : Nat
  low : Nat
  high : Nat
  bits : Nat
  deriving DecidableEq, Repr

def Scan.start : Scan := ⟨0, 0x80, 0xBF, 0⟩

/-- The scan after the first byte of a character; `none` if no character starts with it. -/
def Scan.first (b : Nat) : Option Scan :=
  if b < 0x80 then some ⟨0, 0x80, 0xBF, b⟩
  else if 0xC2 ≤ b ∧ b ≤ 0xDF then some ⟨1, 0x80, 0xBF, b - 0xC0⟩
  else if b = 0xE0 then some ⟨2, 0xA0, 0xBF, 0⟩
  else if b = 0xED then some ⟨2, 0x80, 0x9F, 0xD⟩
  else if 0xE1 ≤ b ∧ b ≤ 0xEF then some ⟨2, 0x80, 0xBF, b - 0xE0⟩
  else if b = 0xF0 then some ⟨3, 0x90, 0xBF, 0⟩
  else if b = 0xF4 then some ⟨3, 0x80, 0x8F, 4⟩
  else if 0xF1 ≤ b ∧ b ≤ 0xF3 then some ⟨3, 0x80, 0xBF, b - 0xF0⟩
  else none

/-- The scan after one more byte; `none` if the character at hand cannot continue with it. -/
def Scan.step (s : Scan) (b : Nat) : Option Scan :=
  if s.owed = 0 then Scan.first b
  else if s.low ≤ b ∧ b ≤ s.high then some ⟨s.owed - 1, 0x80, 0xBF, s.bits * 64 + (b - 0x80)⟩
  else none

/-- Decode from inside the character that `s` describes. A refused byte closes that character with
a replacement and is looked at again as the first byte of the next one. -/
def decodeUtf8From : Scan → List UInt8 → List Char
  | s, [] => if s.owed = 0 then [] else [replacement]
  | s, b :: bs =>
    match s.step b.toNat with
    | some s' =>
      if s'.owed = 0 then Char.ofNat s'.bits :: decodeUtf8From .start bs
      else decodeUtf8From s' bs
    | none =>
      if s.owed = 0 then replacement :: decodeUtf8From .start bs
      else
        match Scan.first b.toNat with
        | some s' =>
          if s'.owed = 0 then replacement :: Char.ofNat s'.bits :: decodeUtf8From .start bs
          else replacement :: decodeUtf8From s' bs
        | none => replacement :: replacement :: decodeUtf8From .start bs

def decodeUtf8 (bs : List UInt8) : String :=
  String.ofList (decodeUtf8From .start bs)

end Dxil
