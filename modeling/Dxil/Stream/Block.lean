import Dxil.Stream.Record

/-!
# Dxil.Stream.Block

A bitstream nests blocks, each a list of records and of further blocks. Reading one yields a list of
events; the tree of blocks is put together from them.

* `BlockKind` : the ids with a meaning.
* `BlockHeader` and `readBlockHeader`.
* `Event` : a block is met, a block ends, a record is read.
* `Block` and `Block.ofEvents?`, the tree.
-/

namespace Dxil

inductive BlockKind where
  | blockInfo
  | module
  | paramAttr
  | paramAttrGroup
  | constants
  | function
  | valueSymtab
  | metadata
  | metadataAttachment
  | type
  | uselist
  deriving DecidableEq, Repr

namespace BlockKind

def id : BlockKind → UInt32
  | blockInfo => 0
  | module => 8
  | paramAttr => 9
  | paramAttrGroup => 10
  | constants => 11
  | function => 12
  | valueSymtab => 14
  | metadata => 15
  | metadataAttachment => 16
  | type => 17
  | uselist => 18

def ofId? (id : UInt32) : Option BlockKind :=
  match id.toNat with
  | 0 => some blockInfo
  | 8 => some module
  | 9 => some paramAttr
  | 10 => some paramAttrGroup
  | 11 => some constants
  | 12 => some function
  | 14 => some valueSymtab
  | 15 => some metadata
  | 16 => some metadataAttachment
  | 17 => some type
  | 18 => some uselist
  | _ => none

theorem eq_id_of_ofId? {id : UInt32} {kind : BlockKind} (h : ofId? id = some kind) :
    id = kind.id := by
  unfold ofId? at h
  split at h <;> cases h <;> exact UInt32.toNat_inj.mp ‹_›

end BlockKind

structure BlockHeader where
  id : UInt32
  /-- Bits of an abbreviation id inside the block. -/
  width : Nat
  /-- Index of the first word of content. -/
  start : Nat
  /-- Words of content, as declared. -/
  length : UInt32
  /-- Nesting depth, 0 for the outermost block. -/
  level : Nat
  deriving DecidableEq, Repr

/-- Only modules and functions hold further blocks. -/
def BlockHeader.mayNest (h : BlockHeader) : Bool :=
  h.id = BlockKind.module.id ∨ h.id = BlockKind.function.id

def readBlockHeader (level : Nat) : StreamReader BlockHeader := do
  let id ← Cursor.readVbr 8
  if UInt32.size ≤ id then throw (.invalidBlockId id)
  else
    let width ← Cursor.readVbr 4
    if width < 1 ∨ 32 < width then throw (.invalidWidth width)
    else
      modify Cursor.align
      let length ← Cursor.read 32
      let c ← get
      pure ⟨UInt32.ofNat id, width, c.word, UInt32.ofNat length, level⟩

inductive Event where
  /-- A block is met, whether or not its content is read. -/
  | enter (header : BlockHeader)
  /-- The block whose content was read ends. -/
  | exit (id : UInt32)
  | record (block : UInt32) (record : Record)
  deriving DecidableEq, Repr

/-! ## The tree -/

/-- A block with its records and its child blocks, both in stream order. -/
inductive Block where
  | mk (header : BlockHeader) (records : List Record) (blocks : List Block)
  deriving Repr

namespace Block

def header : Block → BlockHeader
  | mk h _ _ => h

def records : Block → List Record
  | mk _ rs _ => rs

def blocks : Block → List Block
  | mk _ _ bs => bs

def id (b : Block) : UInt32 := b.header.id

def children (b : Block) (kind : BlockKind) : List Block :=
  b.blocks.filter fun child => child.id = kind.id

end Block

mutual

/-- A block and everything in it, in the order in which the blocks begin. -/
def Block.all : Block → List Block
  | .mk header records blocks => .mk header records blocks :: Block.allOf blocks

def Block.allOf : List Block → List Block
  | [] => []
  | block :: blocks => block.all ++ Block.allOf blocks

end

theorem Block.allOf_append (blocks blocks' : List Block) :
    Block.allOf (blocks ++ blocks') = Block.allOf blocks ++ Block.allOf blocks' := by
  induction blocks with
  | nil => rw [Block.allOf]; rfl
  | cons block blocks ih => rw [List.cons_append, Block.allOf, Block.allOf, ih, List.append_assoc]

theorem Block.self_mem_all (b : Block) : b ∈ b.all := by
  cases b
  rw [Block.all]
  exact List.mem_cons_self

/-- A block under construction; the latest record and child come first. -/
structure OpenBlock where
  header : BlockHeader
  records : List Record := []
  blocks : List Block := []

def OpenBlock.close (b : OpenBlock) : Block :=
  .mk b.header b.records.reverse b.blocks.reverse

/-- The blocks that have begun and not ended, innermost first, and the outermost block once it has
ended. -/
structure TreeBuilder where
  stack : List OpenBlock := []
  root : Option Block := none

namespace TreeBuilder

def add (t : TreeBuilder) : Event → TreeBuilder
  | .enter header => { t with stack := { header } :: t.stack }
  | .record _ r =>
    match t.stack with
    | [] => t
    | b :: rest => { t with stack := { b with records := r :: b.records } :: rest }
  | .exit _ =>
    match t.stack with
    | [] => t
    | [b] => { stack := [], root := some b.close }
    | b :: parent :: rest =>
      { t with stack := { parent with blocks := b.close :: parent.blocks } :: rest }

end TreeBuilder

/-- The outermost block of a stream in which every block that is met is read. -/
def Block.ofEvents? (events : Array Event) : Option Block :=
  (events.foldl TreeBuilder.add {}).root

/-! ## Reading a header moves forward, to a word boundary -/

theorem left_lt_of_readBlockHeader {level : Nat} {h : BlockHeader} {c c' : Cursor}
    (hr : readBlockHeader level c = .ok h c') : c'.left < c.left ∧ c'.bit = 0 := by
  have run : ∀ {α β : Type} {x : StreamReader α} {f : α → StreamReader β} {s s' : Cursor} {b : β},
      (x >>= f) s = .ok b s' → ∃ a s₁, x s = .ok a s₁ ∧ f a s₁ = .ok b s' := by
    intro α β x f s s' b hb
    change EStateM.bind x f s = _ at hb
    unfold EStateM.bind at hb
    split at hb
    · exact ⟨_, _, ‹_›, hb⟩
    · cases hb
  unfold readBlockHeader at hr
  obtain ⟨id, c₁, h₁, hr⟩ := run hr
  have l₁ := (Shortens.readVbr 8).liftBits _ _ _ h₁
  split at hr
  · cases hr
  obtain ⟨width, c₂, h₂, hr⟩ := run hr
  have l₂ := (Shortens.readVbr 4).liftBits _ _ _ h₂
  split at hr
  · cases hr
  obtain ⟨_, c₃, h₃, hr⟩ := run hr
  cases h₃
  obtain ⟨length, c₄, h₄, hr⟩ := run hr
  obtain ⟨_, c₅, h₅, hr⟩ := run hr
  cases h₅
  cases hr
  have l₃ := c₂.left_align_le
  change liftBits (Cursor.read 32) c₂.align = _ at h₄
  unfold liftBits Cursor.read at h₄
  by_cases hw : 32 ≤ c₂.align.left
  · simp only [hw, show ¬ 32 < 32 by omega, if_false, dif_pos] at h₄
    cases h₄
    have hw' : 32 ≤ 32 * c₂.words.size - (c₂.pos + 31) / 32 * 32 := hw
    simp only [Cursor.left, Cursor.advance, Cursor.align, Cursor.bit] at l₁ l₂ ⊢
    omega
  · simp only [hw, show ¬ 32 < 32 by omega, if_false, dif_neg, not_false_eq_true] at h₄
    cases h₄

end Dxil
