import Dxil.Bits.Words
import Dxil.Diagnostic
import Dxil.Text.Hex
import Dxil.Text.Utf8

/-!
# Dxil.Container

The DXBC container: a header, a table of offsets, and at each offset a chunk with a four-character
tag. The shader program is the content of the first chunk tagged `DXIL`.

* `Container.ofBytes` : the chunks, in table order. The checksum is kept and not verified.
* `extractProgram` : the bytes of the program chunk.
-/

namespace Dxil

inductive ContainerError where
  | tooSmall (size : Nat)
  | badMagic (magic : UInt32)
  | badVersion (version : UInt32)
  | tableOutOfBounds (count : UInt32) (size : Nat)
  | chunkOutOfBounds (offset : UInt32) (size : Nat)
  | chunkSizeOutOfBounds (chunkSize offset : UInt32) (size : Nat)
  | noProgramChunk
  deriving DecidableEq, Repr

def ContainerError.message : ContainerError → String
  | .tooSmall size => s!"DXBC size {size} is smaller than the DXBC header size."
  | .badMagic magic => s!"Invalid DXBC magic {hexWord magic.toNat}."
  | .badVersion version => s!"Invalid DXBC version {hex version.toNat}."
  | .tableOutOfBounds count size =>
    s!"DXBC chunk table of {count} entries does not fit in {size} bytes."
  | .chunkOutOfBounds offset size =>
    s!"Invalid DXBC chunk offset {hex offset.toNat} (data size {hex size})."
  | .chunkSizeOutOfBounds chunkSize offset size =>
    s!"Invalid DXBC chunk size {hex chunkSize.toNat} at offset {hex offset.toNat} (data size {hex size})."
  | .noProgramChunk => "DXBC container has no DXIL chunk."

def ContainerError.code : ContainerError → DiagnosticCode
  | .tooSmall _ | .tableOutOfBounds _ _ => .containerSize
  | .badMagic _ => .containerMagic
  | .badVersion _ => .containerVersion
  | .chunkOutOfBounds _ _ => .containerChunkOffset
  | .chunkSizeOutOfBounds _ _ _ => .containerChunkSize
  | .noProgramChunk => .containerMissingChunk

structure Chunk where
  /-- Four characters as a word. -/
  tag : UInt32
  data : List UInt8
  deriving DecidableEq, Repr

def Chunk.tagText (c : Chunk) : String := decodeUtf8 (bytesOfWord c.tag)

structure Container where
  checksum : List UInt8
  totalSize : UInt32
  chunks : List Chunk
  deriving DecidableEq, Repr

namespace Container

/-- `DXBC` as a word. -/
def magic : UInt32 := 0x43425844

/-- `DXIL` as a word. -/
def programTag : UInt32 := 0x4c495844

/-- Bytes before the table of offsets: magic, checksum, version, size and chunk count. -/
def headerSize : Nat := 32

/-- Bytes before the data of a chunk: tag and size. -/
def chunkHeaderSize : Nat := 8

def word (bytes : List UInt8) (offset : Nat) : Except ContainerError UInt32 :=
  match wordAt? bytes offset with
  | some w => .ok w
  | none => .error (.tooSmall bytes.length)

def slice (bytes : List UInt8) (start size : Nat) : Except ContainerError (List UInt8) :=
  match slice? bytes start size with
  | some part => .ok part
  | none => .error (.tooSmall bytes.length)

/-- The chunk whose offset stands at `entry` in the table. -/
def chunkAt (bytes : List UInt8) (entry : Nat) : Except ContainerError Chunk := do
  let offset ← word bytes entry
  let start := offset.toNat + chunkHeaderSize
  if bytes.length < start then throw (.chunkOutOfBounds offset bytes.length)
  let tag ← word bytes offset.toNat
  let size ← word bytes (offset.toNat + 4)
  match slice? bytes start size.toNat with
  | some data => pure ⟨tag, data⟩
  | none => throw (.chunkSizeOutOfBounds size offset bytes.length)

def ofBytes (bytes : List UInt8) : Except ContainerError Container := do
  if bytes.length < headerSize then throw (.tooSmall bytes.length)
  let found ← word bytes 0
  if found ≠ magic then throw (.badMagic found)
  let checksum ← slice bytes 4 16
  let version ← word bytes 20
  if version ≠ 1 then throw (.badVersion version)
  let totalSize ← word bytes 24
  let count ← word bytes 28
  if bytes.length < headerSize + 4 * count.toNat then
    throw (.tableOutOfBounds count bytes.length)
  let chunks ← (List.range count.toNat).mapM fun i => chunkAt bytes (headerSize + 4 * i)
  pure ⟨checksum, totalSize, chunks⟩

end Container

def extractProgram (bytes : List UInt8) : Except ContainerError (List UInt8) :=
  match Container.ofBytes bytes with
  | .error e => .error e
  | .ok container =>
    match container.chunks.find? fun c => c.tag = Container.programTag with
    | some chunk => .ok chunk.data
    | none => .error .noProgramChunk

end Dxil
