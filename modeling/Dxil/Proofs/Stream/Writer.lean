import Dxil.Proofs.Bits.Vbr
import Dxil.Stream.Bitcode

/-!
# Dxil.Proofs.Stream.Writer

The written form of a tree of blocks: the plainest bitstream that holds it, without abbreviations.

* `Content` : what a block holds, records and further blocks in any order.
* `Content.bits` : its bits, which depend on the bit position they start at.
* `BlockTree.bytes` : a whole stream.
* `Content.Describes` : the records and blocks that a reader should find.
-/

namespace Dxil

/-! ## Words and bytes from bits -/

/-- The number whose bits are given, lowest first. -/
def natOfBits : List Bool → Nat
  | [] => 0
  | b :: bs => b.toNat + 2 * natOfBits bs

theorem testBit_natOfBits (bits : List Bool) (i : Nat) :
    (natOfBits bits).testBit i = bits.getD i false := by
  induction bits generalizing i with
  | nil => simp [natOfBits]
  | cons b bs ih =>
    cases i with
    | zero => cases b <;> simp [natOfBits]
    | succ i =>
      have hdiv : (b.toNat + 2 * natOfBits bs) / 2 = natOfBits bs := by
        have := Bool.toNat_lt b
        omega
      rw [natOfBits, Nat.testBit_succ, hdiv, ih]
      simp

def wordOfBits (bits : List Bool) (k : Nat) : UInt32 :=
  UInt32.ofNat (natOfBits ((bits.drop (32 * k)).take 32))

/-- The words of a string of bits; zeros fill the last one. -/
def wordsOfBits (bits : List Bool) : List UInt32 :=
  (List.range ((bits.length + 31) / 32)).map (wordOfBits bits)

@[simp] theorem length_wordsOfBits (bits : List Bool) :
    (wordsOfBits bits).length = (bits.length + 31) / 32 := by
  simp [wordsOfBits]

theorem bit?_wordsOfBits {bits : List Bool} {i : Nat} {b : Bool} (h : bits[i]? = some b) :
    bit? (wordsOfBits bits).toArray i = some b := by
  obtain ⟨hi, rfl⟩ := List.getElem?_eq_some_iff.mp h
  have hword : (wordsOfBits bits).toArray[i / 32]? = some (wordOfBits bits (i / 32)) := by
    simp [wordsOfBits, show i / 32 < (bits.length + 31) / 32 by omega]
  rw [bit?, hword]
  simp only [Option.map_some, wordOfBits, UInt32.toNat_ofNat', Nat.testBit_mod_two_pow,
    testBit_natOfBits]
  simp [show i % 32 < 32 by omega, show 32 * (i / 32) + i % 32 = i by omega, hi]

theorem sees_wordsOfBits (bits : List Bool) :
    (Cursor.start (wordsOfBits bits).toArray).Sees bits := by
  intro i b h
  simpa [Cursor.start] using bit?_wordsOfBits h

theorem ofNat_littleEndian_bytesOfWord (w : UInt32) :
    UInt32.ofNat (littleEndian (bytesOfWord w)) = w := by
  apply UInt32.toNat_inj.mp
  have := w.toNat_lt
  simp only [bytesOfWord, littleEndian, UInt32.toNat_ofNat', UInt32.toNat_toUInt8,
    UInt32.toNat_shiftRight, Nat.shiftRight_eq_div_pow]
  simp
  omega

theorem wordsOfBytes_bytesOfWord (words : List UInt32) :
    wordsOfBytes (words.flatMap bytesOfWord) = words := by
  induction words with
  | nil => rfl
  | cons w words ih =>
    rw [List.flatMap_cons, show bytesOfWord w ++ words.flatMap bytesOfWord =
      w.toUInt8 :: (w >>> 8).toUInt8 :: (w >>> 16).toUInt8 :: (w >>> 24).toUInt8 ::
        words.flatMap bytesOfWord from rfl, wordsOfBytes, ih]
    exact congrArg (· :: words) (ofNat_littleEndian_bytesOfWord w)

/-! ## Trees -/

/-- What a block holds, to its end. -/
inductive Content where
  | finish
  | record (record : Record) (rest : Content)
  | block (id : UInt32) (width : Nat) (inner rest : Content)
  deriving DecidableEq, Repr

/-- A root block. -/
structure BlockTree where
  id : UInt32
  /-- Bits of an abbreviation id inside the block. -/
  width : Nat
  content : Content
  deriving DecidableEq, Repr

def canNest (id : UInt32) : Bool := id = BlockKind.module.id ∨ id = BlockKind.function.id

/-- Ids that stand for a block other than block info, and widths that hold every fixed
abbreviation id. -/
def legalBlock (id : UInt32) (width : Nat) : Bool := id ≠ 0 ∧ 2 ≤ width ∧ width ≤ 32

def Content.wellFormed (id : UInt32) : Content → Bool
  | finish => true
  | record _ rest => rest.wellFormed id
  | block id' width inner rest =>
    canNest id && legalBlock id' width && inner.wellFormed id' && rest.wellFormed id

def BlockTree.wellFormed (t : BlockTree) : Bool :=
  legalBlock t.id t.width && t.content.wellFormed t.id

/-! ## Their bits -/

/-- A record with its own operand count, in a block with the given abbreviation id width. -/
def recordBits (width : Nat) (r : Record) : List Bool :=
  bitsOf width 3 ++ (vbrBits 6 r.code.toNat ++ (vbrBits 6 r.operands.length ++
    r.operands.flatMap fun v => vbrBits 6 v.toNat))

/-- Id and width of a block, up to the word that declares its length. -/
def headBits (pos : Nat) (id : UInt32) (width : Nat) : List Bool :=
  let fields := vbrBits 8 id.toNat ++ vbrBits 4 width
  fields ++ padding (pos + fields.length)

def contentStart (pos : Nat) (id : UInt32) (width : Nat) : Nat :=
  pos + (headBits pos id width).length + 32

/-- A block from its id on, its content given by where it starts. -/
def blockBits (pos : Nat) (id : UInt32) (width : Nat) (content : Nat → List Bool) : List Bool :=
  let inner := content (contentStart pos id width)
  headBits pos id width ++ (bitsOf 32 (inner.length / 32) ++ inner)

/-- The content of a block from bit position `pos` on, its end included. -/
def Content.bits : Content → (width pos : Nat) → List Bool
  | finish, width, pos => bitsOf width 0 ++ padding (pos + width)
  | record r rest, width, pos =>
    recordBits width r ++ rest.bits width (pos + (recordBits width r).length)
  | block id width' inner rest, width, pos =>
    let block := blockBits (pos + width) id width' (inner.bits width')
    bitsOf width 1 ++ (block ++ rest.bits width (pos + width + block.length))

/-- A stream: a magic word, then the root block, whose opening abbreviation id has two bits. -/
def BlockTree.bits (t : BlockTree) (magic : UInt32) : List Bool :=
  bitsOf 32 magic.toNat ++ (bitsOf 2 1 ++ blockBits 34 t.id t.width (t.content.bits t.width))

def BlockTree.words (t : BlockTree) (magic : UInt32) : List UInt32 := wordsOfBits (t.bits magic)

def BlockTree.bytes (t : BlockTree) (magic : UInt32) : List UInt8 :=
  (t.words magic).flatMap bytesOfWord

/-! ## What a reader should find -/

/-- The records and blocks found in content, of a block at nesting depth `level`. Each block
declares as its length the words that its content takes up. -/
def Content.Describes (level : Nat) : Content → List Record → List Block → Prop
  | finish, records, blocks => records = [] ∧ blocks = []
  | record r rest, records, blocks =>
    ∃ records', records = r :: records' ∧ rest.Describes level records' blocks
  | block id width inner rest, records, blocks =>
    ∃ b blocks', blocks = b :: blocks' ∧ b.header.id = id ∧ b.header.width = width ∧
      b.header.level = level + 1 ∧
      32 * b.header.length.toNat = (inner.bits width (32 * b.header.start)).length ∧
      inner.Describes (level + 1) b.records b.blocks ∧ rest.Describes level records blocks'

def BlockTree.Describes (t : BlockTree) (root : Block) : Prop :=
  root.header.id = t.id ∧ root.header.width = t.width ∧ root.header.level = 0 ∧
    32 * root.header.length.toNat = (t.content.bits t.width (32 * root.header.start)).length ∧
    t.content.Describes 0 root.records root.blocks

/-! ## Everything ends at a word boundary -/

theorem dvd_contentStart (pos : Nat) (id : UInt32) (width : Nat) :
    32 ∣ contentStart pos id width := by
  have := dvd_length_padding (pos + (vbrBits 8 id.toNat ++ vbrBits 4 width).length)
  simp only [contentStart, headBits, List.length_append] at this ⊢
  omega

theorem length_blockBits (pos : Nat) (id : UInt32) (width : Nat) (content : Nat → List Bool) :
    pos + (blockBits pos id width content).length =
      contentStart pos id width + (content (contentStart pos id width)).length := by
  simp only [blockBits, List.length_append, length_bitsOf, contentStart]
  omega

theorem Content.dvd_length_bits (content : Content) (width pos : Nat) :
    32 ∣ pos + (content.bits width pos).length := by
  induction content generalizing width pos with
  | finish =>
    have := dvd_length_padding (pos + width)
    simp only [bits, List.length_append, length_bitsOf]
    omega
  | record r rest ih =>
    have := ih width (pos + (recordBits width r).length)
    simp only [bits, List.length_append]
    omega
  | block id width' inner rest _ ih =>
    have := ih width (pos + width + (blockBits (pos + width) id width' (inner.bits width')).length)
    simp only [bits, List.length_append, length_bitsOf]
    omega

end Dxil
