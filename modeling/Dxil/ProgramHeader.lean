import Dxil.Bits.Words
import Dxil.Diagnostic
import Dxil.Text.Hex

/-!
# Dxil.ProgramHeader

The six words in front of a program's bitcode, and the bitcode they locate.

* `ProgramHeader` : the words, with the shader version packed into the first.
* `ProgramHeader.locate` : the header of a program and its bitcode bytes.
-/

namespace Dxil

inductive HeaderError where
  | tooSmall (size : Nat)
  | invalidTokenCount (tokenCount : UInt32) (wordCount : Nat)
  | invalidOffset (offset : UInt32) (size : Nat)
  | invalidSize (bitcodeSize : UInt32) (size : Nat) (offset : UInt32)
  deriving DecidableEq, Repr

def HeaderError.message : HeaderError → String
  | .tooSmall size => s!"DXIL chunk size {size} is smaller than the DXIL header size."
  | .invalidTokenCount tokenCount wordCount =>
    s!"DXIL chunk token count {hex tokenCount.toNat} is invalid (word count {wordCount})."
  | .invalidOffset offset size =>
    s!"DXIL bitcode chunk has invalid offset {hex offset.toNat} (data size {hex size})."
  | .invalidSize bitcodeSize size offset =>
    s!"DXIL bitcode chunk has invalid size {hex bitcodeSize.toNat} (data size {hex size}, chunk offset {hex offset.toNat})."

def HeaderError.code : HeaderError → DiagnosticCode
  | .tooSmall _ => .invalidSize
  | .invalidTokenCount _ _ | .invalidSize _ _ _ => .invalidChunkSize
  | .invalidOffset _ _ => .invalidChunkOffset

structure ProgramHeader where
  versionToken : UInt32
  tokenCount : UInt32
  magic : UInt32
  dxilVersion : UInt32
  /-- In bytes, counted from the magic word. -/
  bitcodeOffset : UInt32
  /-- In bytes. -/
  bitcodeSize : UInt32
  deriving DecidableEq, Repr

namespace ProgramHeader

def shaderType (h : ProgramHeader) : UInt32 := h.versionToken >>> 16

def major (h : ProgramHeader) : UInt32 := (h.versionToken >>> 4) &&& 0xf

def minor (h : ProgramHeader) : UInt32 := h.versionToken &&& 0xf

def wordCount : Nat := 6

def ofBytes? (bytes : List UInt8) : Option ProgramHeader :=
  match wordsOfBytes (bytes.take (4 * wordCount)) with
  | [versionToken, tokenCount, magic, dxilVersion, bitcodeOffset, bitcodeSize] =>
    some ⟨versionToken, tokenCount, magic, dxilVersion, bitcodeOffset, bitcodeSize⟩
  | _ => none

/-- The offset is counted from the third word, so that 8 bytes precede it. What lies beyond the end
of the program is left out. -/
def bitcode (h : ProgramHeader) (bytes : List UInt8) : List UInt8 :=
  (bytes.drop (8 + h.bitcodeOffset.toNat)).take h.bitcodeSize.toNat

/-- The header of a program and its bitcode, which has room for a magic word and a block. -/
def locate (bytes : List UInt8) : Except HeaderError (ProgramHeader × List UInt8) := do
  let size := bytes.length
  if size / 4 < wordCount then throw (.tooSmall size)
  match ofBytes? bytes with
  | none => throw (.tooSmall size)
  | some h =>
    if h.tokenCount.toNat < wordCount ∨ size / 4 < h.tokenCount.toNat then
      throw (.invalidTokenCount h.tokenCount (size / 4))
    if h.bitcodeOffset.toNat < 16 ∨ size ≤ h.bitcodeOffset.toNat then
      throw (.invalidOffset h.bitcodeOffset size)
    if size - h.bitcodeOffset.toNat < h.bitcodeSize.toNat then
      throw (.invalidSize h.bitcodeSize size h.bitcodeOffset)
    let bitcode := h.bitcode bytes
    if bitcode.length < 8 then throw (.invalidSize h.bitcodeSize size h.bitcodeOffset)
    pure (h, bitcode)

end ProgramHeader

end Dxil
