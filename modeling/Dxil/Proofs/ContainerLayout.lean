import Dxil.Parse
import Dxil.Proofs.Stream.Writer

/-!
# Dxil.Proofs.ContainerLayout

Containers and programs as they are written, and that they are read back.

* `Holds` : a part of a byte string, at an offset.
* `Container.bytes` : a container with the given chunks, one after the other behind the table.
* `Container.ofBytes_eq_chunks` : its chunks are read back.
* `ProgramHeader.bytes` : a header. The bitcode follows.
* `ProgramHeader.locate_bytes` : the header and the bitcode are read back.
* `packed_program_recovered` : the program of a container is that of its first program chunk.
-/

namespace Dxil

/-- The bytes from `offset` on exist and begin with `part`. -/
def Holds (bytes : List UInt8) (offset : Nat) (part : List UInt8) : Prop :=
  ∃ before after, bytes = before ++ (part ++ after) ∧ before.length = offset

namespace Holds

variable {bytes part part' : List UInt8} {offset : Nat}

theorem all (bytes : List UInt8) : Holds bytes 0 bytes :=
  ⟨[], [], by rw [List.nil_append, List.append_nil], rfl⟩

theorem left (h : Holds bytes offset (part ++ part')) : Holds bytes offset part := by
  obtain ⟨before, after, rfl, rfl⟩ := h
  exact ⟨before, part' ++ after, by rw [List.append_assoc], rfl⟩

theorem right (h : Holds bytes offset (part ++ part')) :
    Holds bytes (offset + part.length) part' := by
  obtain ⟨before, after, rfl, rfl⟩ := h
  exact ⟨before ++ part, after, by simp only [List.append_assoc], List.length_append⟩

theorem length_le (h : Holds bytes offset part) : offset + part.length ≤ bytes.length := by
  obtain ⟨before, after, rfl, rfl⟩ := h
  simp only [List.length_append]
  omega

theorem wordAt? {w : UInt32} (h : Holds bytes offset (bytesOfWord w)) :
    wordAt? bytes offset = some w := by
  obtain ⟨before, after, rfl, rfl⟩ := h
  rw [Dxil.wordAt?, List.drop_left]
  exact congrArg some (ofNat_littleEndian_bytesOfWord w)

theorem slice? (h : Holds bytes offset part) : slice? bytes offset part.length = some part := by
  rw [Dxil.slice?, if_pos h.length_le]
  obtain ⟨before, after, rfl, rfl⟩ := h
  rw [List.drop_left, List.take_left]

end Holds

@[simp] theorem length_bytesOfWord (w : UInt32) : (bytesOfWord w).length = 4 := rfl

/-! ## Containers -/

/-- A chunk as it is written: its tag, the size of its data, and the data. -/
def Chunk.bytes (chunk : Chunk) : List UInt8 :=
  bytesOfWord chunk.tag ++ (bytesOfWord (UInt32.ofNat chunk.data.length) ++ chunk.data)

/-- The tag spells `DXIL`. -/
def Chunk.IsProgram (chunk : Chunk) : Prop := bytesOfWord chunk.tag = [0x44, 0x58, 0x49, 0x4c]

instance (chunk : Chunk) : Decidable chunk.IsProgram := inferInstanceAs (Decidable (_ = _))

theorem Chunk.isProgram_iff {chunk : Chunk} :
    chunk.IsProgram ↔ chunk.tag = Container.programTag := by
  constructor
  · intro h
    rw [← ofNat_littleEndian_bytesOfWord chunk.tag, h]
    rfl
  · intro h
    rw [IsProgram, h]
    rfl

namespace Container

/-- Where chunks begin that are written one after the other from `start` on. -/
def offsets (start : Nat) : List Chunk → List Nat
  | [] => []
  | chunk :: chunks => start :: offsets (start + chunk.bytes.length) chunks

def tableBytes (offsets : List Nat) : List UInt8 :=
  offsets.flatMap fun offset => bytesOfWord (UInt32.ofNat offset)

/-- Where the first chunk begins: behind the header and the table. -/
def firstOffset (chunks : List Chunk) : Nat := 32 + 4 * chunks.length

def size (chunks : List Chunk) : Nat :=
  firstOffset chunks + (chunks.flatMap Chunk.bytes).length

/-- A container as it is written, with no checksum. It begins with `DXBC`. -/
def bytes (chunks : List Chunk) : List UInt8 :=
  [0x44, 0x58, 0x42, 0x43] ++ (List.replicate 16 0 ++ (bytesOfWord 1 ++
    (bytesOfWord (UInt32.ofNat (size chunks)) ++ (bytesOfWord (UInt32.ofNat chunks.length) ++
      (tableBytes (offsets (firstOffset chunks) chunks) ++ chunks.flatMap Chunk.bytes)))))

@[simp] theorem length_offsets (start : Nat) (chunks : List Chunk) :
    (offsets start chunks).length = chunks.length := by
  induction chunks generalizing start with
  | nil => rfl
  | cons chunk chunks ih => rw [offsets, List.length_cons, ih, List.length_cons]

@[simp] theorem length_tableBytes (offsets : List Nat) :
    (tableBytes offsets).length = 4 * offsets.length := by
  induction offsets with
  | nil => rfl
  | cons offset offsets ih =>
    rw [tableBytes, List.flatMap_cons, List.length_append, length_bytesOfWord]
    rw [tableBytes] at ih
    rw [ih, List.length_cons]
    omega

theorem length_bytes (chunks : List Chunk) : (bytes chunks).length = size chunks := by
  simp only [bytes, size, firstOffset, List.length_append, List.length_cons, List.length_nil,
    length_bytesOfWord, List.length_replicate, length_tableBytes, length_offsets]
  omega

theorem offsets_append (start : Nat) (before after : List Chunk) :
    offsets start (before ++ after) =
      offsets start before ++ offsets (start + (before.flatMap Chunk.bytes).length) after := by
  induction before generalizing start with
  | nil => rfl
  | cons chunk before ih =>
    rw [List.cons_append, offsets, ih, offsets, List.flatMap_cons, List.length_append,
      Nat.add_assoc, List.cons_append]

theorem tableBytes_append (before after : List Nat) :
    tableBytes (before ++ after) = tableBytes before ++ tableBytes after :=
  List.flatMap_append

section

variable {bytes : List UInt8} {w : UInt32}

theorem word_of_holds {offset : Nat} (h : Holds bytes offset (bytesOfWord w)) :
    word bytes offset = .ok w := by
  rw [word, h.wordAt?]

theorem slice_of_holds {offset : Nat} {part : List UInt8} (h : Holds bytes offset part) :
    slice bytes offset part.length = .ok part := by
  rw [slice, h.slice?]

/-- A chunk is read back through the entry of the table that leads to it. -/
theorem chunkAt_of_holds {entry offset : Nat} {chunk : Chunk} (hsize : bytes.length < UInt32.size)
    (hentry : Holds bytes entry (bytesOfWord (UInt32.ofNat offset)))
    (hchunk : Holds bytes offset chunk.bytes) : chunkAt bytes entry = .ok chunk := by
  have hle := hchunk.length_le
  simp only [Chunk.bytes, List.length_append, length_bytesOfWord] at hle
  have hoffset : (UInt32.ofNat offset).toNat = offset :=
    UInt32.toNat_ofNat_of_lt' (by omega)
  have hdata : (UInt32.ofNat chunk.data.length).toNat = chunk.data.length :=
    UInt32.toNat_ofNat_of_lt' (by omega)
  have htag := word_of_holds hchunk.left
  have hlength := word_of_holds hchunk.right.left
  have hslice := hchunk.right.right.slice?
  rw [length_bytesOfWord] at hlength hslice
  have hstart : ¬ bytes.length < offset + chunkHeaderSize := by
    simp only [chunkHeaderSize]
    omega
  simp only [chunkAt, bind, Except.bind, word_of_holds hentry, hoffset, if_neg hstart, pure,
    Except.pure, htag, hlength, hdata]
  rw [show slice? bytes (offset + chunkHeaderSize) chunk.data.length = some chunk.data from hslice]

end

theorem mapM_range'_eq_ok {ε α : Type} {f : Nat → Except ε α} {l : List α} {start : Nat}
    (h : ∀ before a after, l = before ++ a :: after → f (start + before.length) = .ok a) :
    (List.range' start l.length).mapM f = .ok l := by
  induction l generalizing start with
  | nil => rfl
  | cons a l ih =>
    have hhead : f start = .ok a := h [] a l rfl
    have htail : (List.range' (start + 1) l.length).mapM f = .ok l := by
      refine ih fun before b after hl => ?_
      have := h (a :: before) b after (by rw [hl, List.cons_append])
      rwa [List.length_cons, Nat.add_comm before.length, ← Nat.add_assoc] at this
    rw [List.length_cons, List.range'_succ, List.mapM_cons, hhead]
    change (List.range' (start + 1) l.length).mapM f >>= _ = _
    rw [htail]
    rfl

structure Parts (chunks : List Chunk) (bytes : List UInt8) : Prop where
  magic : Holds bytes 0 (bytesOfWord Container.magic)
  checksum : Holds bytes 4 (List.replicate 16 0)
  version : Holds bytes 20 (bytesOfWord 1)
  totalSize : Holds bytes 24 (bytesOfWord (UInt32.ofNat (size chunks)))
  count : Holds bytes 28 (bytesOfWord (UInt32.ofNat chunks.length))
  table : Holds bytes headerSize (tableBytes (offsets (firstOffset chunks) chunks))
  chunks : Holds bytes (firstOffset chunks) (chunks.flatMap Chunk.bytes)

theorem parts_bytes (chunks : List Chunk) : Parts chunks (bytes chunks) where
  magic := (Holds.all (bytes chunks)).left
  checksum := (Holds.all (bytes chunks)).right.left
  version := (Holds.all (bytes chunks)).right.right.left
  totalSize := (Holds.all (bytes chunks)).right.right.right.left
  count := (Holds.all (bytes chunks)).right.right.right.right.left
  table := (Holds.all (bytes chunks)).right.right.right.right.right.left
  chunks := by
    have := (Holds.all (bytes chunks)).right.right.right.right.right.right
    rwa [length_tableBytes, length_offsets] at this

theorem chunkAt_bytes {before after : List Chunk} {chunk : Chunk}
    (hsize : size (before ++ chunk :: after) < UInt32.size) :
    chunkAt (bytes (before ++ chunk :: after)) (headerSize + 4 * before.length) = .ok chunk := by
  have hparts := parts_bytes (before ++ chunk :: after)
  have hentry := hparts.table
  rw [offsets_append, tableBytes_append] at hentry
  have hchunk := hparts.chunks
  rw [List.flatMap_append, List.flatMap_cons] at hchunk
  have hentry' := hentry.right
  rw [length_tableBytes, length_offsets, offsets, tableBytes, List.flatMap_cons] at hentry'
  exact chunkAt_of_holds (by rwa [length_bytes]) hentry'.left hchunk.right.left

theorem ofBytes_eq_chunks {chunks : List Chunk} (hsize : size chunks < UInt32.size) :
    ofBytes (bytes chunks) =
      .ok ⟨List.replicate 16 0, UInt32.ofNat (size chunks), chunks⟩ := by
  have hparts := parts_bytes chunks
  have hfirst : firstOffset chunks ≤ size chunks := Nat.le_add_right ..
  have hcount : (UInt32.ofNat chunks.length).toNat = chunks.length :=
    UInt32.toNat_ofNat_of_lt' (by rw [firstOffset] at hfirst; omega)
  have hchunks : (List.range chunks.length).mapM
      (fun i => chunkAt (bytes chunks) (headerSize + 4 * i)) = .ok chunks := by
    rw [List.range_eq_range']
    refine mapM_range'_eq_ok fun before chunk after h => ?_
    rw [Nat.zero_add]
    subst h
    exact chunkAt_bytes hsize
  have hheader : ¬ (bytes chunks).length < headerSize := by
    rw [length_bytes, headerSize]
    rw [firstOffset] at hfirst
    omega
  have htable : ¬ (bytes chunks).length < headerSize + 4 * chunks.length := by
    rw [length_bytes]
    exact Nat.not_lt.mpr hfirst
  have hchecksum : slice (bytes chunks) 4 16 = .ok (List.replicate 16 0) :=
    slice_of_holds hparts.checksum
  simp only [ofBytes, bind, Except.bind, pure, Except.pure, if_neg hheader,
    word_of_holds hparts.magic, hchecksum, word_of_holds hparts.version,
    word_of_holds hparts.totalSize, word_of_holds hparts.count, hcount, if_neg htable, hchunks,
    ne_eq, not_true_eq_false, if_false]

end Container

theorem extractProgram_bytes {before after : List Chunk} {program : Chunk}
    (hbefore : ∀ chunk ∈ before, ¬ chunk.IsProgram) (hprogram : program.IsProgram)
    (hsize : Container.size (before ++ program :: after) < UInt32.size) :
    extractProgram (Container.bytes (before ++ program :: after)) = .ok program.data := by
  simp only [Chunk.isProgram_iff] at hbefore hprogram
  have hfind : (before ++ program :: after).find? (fun c => c.tag = Container.programTag) =
      some program := by
    rw [List.find?_append, List.find?_eq_none.mpr (by simpa using hbefore), Option.none_or,
      List.find?_cons_of_pos (by simpa using hprogram)]
  rw [extractProgram, Container.ofBytes_eq_chunks hsize]
  simp only [hfind]

theorem parse_of_extractProgram (name : String) {source program : List UInt8}
    (h : extractProgram source = .ok program) :
    parse .container name source = parse .program name program := by
  simp only [parse, h]

/-! ## Programs -/

namespace ProgramHeader

/-- The header that goes in front of so many bytes of bitcode. The magic word spells `DXIL`, as the
tag of a program chunk does. -/
def ofVersion (type major minor : UInt32) (size : Nat) : ProgramHeader where
  versionToken := type <<< 16 ||| major <<< 4 ||| minor
  tokenCount := UInt32.ofNat ((24 + size + 3) / 4)
  magic := 0x4c495844
  dxilVersion := 0x100
  bitcodeOffset := 16
  bitcodeSize := UInt32.ofNat size

def bytes (h : ProgramHeader) : List UInt8 :=
  [h.versionToken, h.tokenCount, h.magic, h.dxilVersion, h.bitcodeOffset, h.bitcodeSize].flatMap
    bytesOfWord

theorem length_bytes (h : ProgramHeader) : h.bytes.length = 24 := rfl

theorem ofBytes?_bytes (h : ProgramHeader) (stream : List UInt8) :
    ofBytes? (h.bytes ++ stream) = some h := by
  have htake : (h.bytes ++ stream).take (4 * wordCount) = h.bytes :=
    List.take_left' h.length_bytes
  rw [ofBytes?, htake, bytes, wordsOfBytes_bytesOfWord]

theorem toNat_versionToken {type major minor : UInt32} (htype : type < 0x10000)
    (hmajor : major < 16) (hminor : minor < 16) (size : Nat) :
    (ofVersion type major minor size).versionToken.toNat =
      type.toNat * 65536 + major.toNat * 16 + minor.toNat := by
  have htype' : type.toNat < 65536 := htype
  have hmajor' : major.toNat < 16 := hmajor
  have hminor' : minor.toNat < 16 := hminor
  have hhigh : (type <<< 16).toNat = type.toNat <<< 16 := by
    rw [UInt32.toNat_shiftLeft, Nat.mod_eq_of_lt]
    · rfl
    · simp only [Nat.shiftLeft_eq]
      change type.toNat * 65536 < 4294967296
      omega
  have hmiddle : (major <<< 4).toNat = major.toNat <<< 4 := by
    rw [UInt32.toNat_shiftLeft, Nat.mod_eq_of_lt]
    · rfl
    · simp only [Nat.shiftLeft_eq]
      change major.toNat * 16 < 4294967296
      omega
  have hlow : major.toNat <<< 4 + minor.toNat < 2 ^ 16 := by
    rw [Nat.shiftLeft_eq]
    omega
  -- The three parts take up different bits, so that joining them is adding them.
  have hjoin : major.toNat <<< 4 ||| minor.toNat = major.toNat <<< 4 + minor.toNat :=
    (Nat.shiftLeft_add_eq_or_of_lt (i := 4) hminor' _).symm
  rw [ofVersion, UInt32.toNat_or, UInt32.toNat_or, hhigh, hmiddle, Nat.or_assoc, hjoin,
    ← Nat.shiftLeft_add_eq_or_of_lt hlow, Nat.shiftLeft_eq, Nat.shiftLeft_eq, Nat.add_assoc]

theorem version_ofVersion {type major minor : UInt32} (htype : type < 0x10000)
    (hmajor : major < 16) (hminor : minor < 16) (size : Nat) :
    (ofVersion type major minor size).shaderType = type ∧
      (ofVersion type major minor size).major = major ∧
      (ofVersion type major minor size).minor = minor := by
  have htoken := toNat_versionToken htype hmajor hminor size
  have hmajor' : major.toNat < 16 := hmajor
  have hminor' : minor.toNat < 16 := hminor
  have hnibble (n : Nat) : n &&& 15 = n % 16 := Nat.and_two_pow_sub_one_eq_mod n 4
  refine ⟨?_, ?_, ?_⟩ <;> apply UInt32.toNat_inj.mp
  · rw [shaderType, UInt32.toNat_shiftRight, htoken, Nat.shiftRight_eq_div_pow]
    change _ / 65536 = _
    omega
  · rw [ProgramHeader.major, UInt32.toNat_and, UInt32.toNat_shiftRight, htoken,
      Nat.shiftRight_eq_div_pow]
    change _ / 16 &&& 15 = _
    rw [hnibble]
    omega
  · rw [ProgramHeader.minor, UInt32.toNat_and, htoken]
    change _ &&& 15 = _
    rw [hnibble]
    omega

theorem locate_bytes {type major minor : UInt32} {stream : List UInt8}
    (hmultiple : 4 ∣ stream.length) (hleast : 8 ≤ stream.length)
    (hmost : stream.length < UInt32.size) :
    let h := ofVersion type major minor stream.length
    locate (h.bytes ++ stream) = .ok (h, stream) := by
  intro h
  have hmost' : stream.length < 4294967296 := hmost
  have hlength : (h.bytes ++ stream).length = 24 + stream.length := by
    rw [List.length_append, length_bytes]
  have htokens : h.tokenCount.toNat = 6 + stream.length / 4 := by
    have : (24 + stream.length + 3) / 4 = 6 + stream.length / 4 := by omega
    change (UInt32.ofNat _).toNat = _
    rw [this, UInt32.toNat_ofNat_of_lt' (by change _ < 4294967296; omega)]
  have hsize : h.bitcodeSize.toNat = stream.length := UInt32.toNat_ofNat_of_lt' hmost
  have hoffset : h.bitcodeOffset.toNat = 16 := rfl
  have hbitcode : h.bitcode (h.bytes ++ stream) = stream := by
    rw [bitcode, hoffset, List.drop_left' h.length_bytes, hsize, List.take_length]
  rw [locate]
  simp only [ofBytes?_bytes, hlength, htokens, hsize, hoffset, hbitcode, wordCount]
  rw [if_neg (by omega), if_neg (by omega), if_neg (by omega), if_neg (by omega), if_neg (by omega)]
  rfl

end ProgramHeader

/-! ## Round trip -/

/-- A program comes back from what it is packed into.

A container gives the bytes of its first program chunk, and parsing it is parsing those. A program
gives its version and its bitcode. -/
theorem packed_program_recovered :
    (∀ (before after : List Chunk) (program : Chunk),
      (∀ chunk ∈ before, ¬ chunk.IsProgram) → program.IsProgram →
      Container.size (before ++ program :: after) < UInt32.size →
        let source := Container.bytes (before ++ program :: after)
        extractProgram source = .ok program.data ∧
          ∀ name, parse .container name source = parse .program name program.data) ∧
    ∀ (type major minor : UInt32) (stream : List UInt8),
      type < 0x10000 → major < 16 → minor < 16 →
      4 ∣ stream.length → 8 ≤ stream.length → stream.length < UInt32.size →
        let header := ProgramHeader.ofVersion type major minor stream.length
        ProgramHeader.locate (header.bytes ++ stream) = .ok (header, stream) ∧
          header.shaderType = type ∧ header.major = major ∧ header.minor = minor := by
  constructor
  · intro before after program hbefore hprogram hsize source
    have hextract := extractProgram_bytes hbefore hprogram hsize
    exact ⟨hextract, fun name => parse_of_extractProgram name hextract⟩
  · intro type major minor stream htype hmajor hminor hmultiple hleast hmost header
    exact ⟨ProgramHeader.locate_bytes hmultiple hleast hmost,
      ProgramHeader.version_ofVersion htype hmajor hminor stream.length⟩

/-- With an unrelated chunk before the program, an empty one behind it and another program at the
end, which is not looked at. -/
theorem packed_program_recovered_first :
    let header := ProgramHeader.ofVersion 5 6 0 8
    let stream : List UInt8 := [0x42, 0x43, 0xc0, 0xde, 0, 0, 0, 0]
    let program : Chunk := ⟨0x4c495844, header.bytes ++ stream⟩
    let before : List Chunk := [⟨0x30494653, List.replicate 8 0⟩]
    let after : List Chunk := [⟨0x30565350, []⟩, ⟨0x4c495844, [7]⟩]
    extractProgram (Container.bytes (before ++ program :: after)) = .ok program.data ∧
      ProgramHeader.locate program.data = .ok (header, stream) ∧
      header.shaderType = 5 ∧ header.major = 6 ∧ header.minor = 0 := by
  intro header stream program before after
  obtain ⟨hcontainer, hheader⟩ := packed_program_recovered
  exact ⟨(hcontainer before after program (by decide) (by decide) (by decide)).1,
    hheader 5 6 0 stream (by decide) (by decide) (by decide) (by decide) (by decide) (by decide)⟩

end Dxil
