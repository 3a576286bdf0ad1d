import Dxil.Proofs.Parse

/-!
# Dxil.Proofs.BlockOrder

The order of the blocks of a module matters only among blocks that are read together.

Types, names and metadata are looked up by kind. The rest of a module is walked in order, but only
modules, constants and functions do anything on the way: any other block moves the place of the next
report, which the block after it moves again.

* `Block.code` : a block without everything in it that does nothing.
* `Placeless` : what a decoder does depends only on the source it started in, not on the place.
* `Functions.decode_code`, `ValueBudget.count_code` : what does nothing can be left out.
* `ofBitcode_rearranged` : modules that agree on what is read together give the same program and the
  same reports, whatever stands between.
-/

namespace Dxil

/-! ## Blocks that do something -/

def Block.isCode (b : Block) : Bool :=
  b.id = BlockKind.module.id || b.id = BlockKind.constants.id || b.id = BlockKind.function.id

mutual

/-- A block without the blocks in it, at any depth, that are not walked. -/
def Block.code : Block → Block
  | .mk header records blocks => .mk header records (Block.codeOf blocks)

def Block.codeOf : List Block → List Block
  | [] => []
  | block :: blocks =>
    if block.isCode then block.code :: Block.codeOf blocks else Block.codeOf blocks

end

/-- Only modules and functions have blocks in them. -/
def Block.WellNested (b : Block) : Prop :=
  ∀ inner ∈ b.all, inner.blocks ≠ [] → inner.header.mayNest = true

instance (b : Block) : Decidable b.WellNested :=
  inferInstanceAs (Decidable (∀ inner ∈ b.all, inner.blocks ≠ [] → inner.header.mayNest = true))

def Block.WellNestedAll (blocks : List Block) : Prop :=
  ∀ inner ∈ Block.allOf blocks, inner.blocks ≠ [] → inner.header.mayNest = true

namespace Block

theorem WellNested.blocks {b : Block} (h : b.WellNested) : WellNestedAll b.blocks := by
  intro inner hinner
  refine h inner ?_
  cases b
  rw [all]
  exact List.mem_cons_of_mem _ hinner

theorem WellNestedAll.head {block : Block} {blocks : List Block}
    (h : WellNestedAll (block :: blocks)) : block.WellNested := by
  intro inner hinner
  refine h inner ?_
  rw [allOf]
  exact List.mem_append_left _ hinner

theorem WellNestedAll.tail {block : Block} {blocks : List Block}
    (h : WellNestedAll (block :: blocks)) : WellNestedAll blocks := by
  intro inner hinner
  refine h inner ?_
  rw [allOf]
  exact List.mem_append_right _ hinner

theorem WellNested.blocks_eq_nil {b : Block} (h : b.WellNested) (hcode : b.isCode = false) :
    b.blocks = [] := by
  cases hblocks : b.blocks with
  | nil => rfl
  | cons inner rest =>
    have hnest := h b b.self_mem_all (by simp [hblocks])
    simp only [BlockHeader.mayNest, decide_eq_true_eq] at hnest
    simp only [isCode, Bool.or_eq_false_iff, decide_eq_false_iff_not] at hcode
    rcases hnest with hid | hid
    · exact absurd hid hcode.1.1
    · exact absurd hid hcode.2

theorem kind_of_not_isCode {header : BlockHeader} {records : List Record} {blocks : List Block}
    (h : (Block.mk header records blocks).isCode = false) :
    BlockKind.ofId? header.id ≠ some .constants ∧ BlockKind.ofId? header.id ≠ some .function := by
  simp only [isCode, Bool.or_eq_false_iff, decide_eq_false_iff_not] at h
  exact ⟨fun hkind => h.1.2 (BlockKind.eq_id_of_ofId? hkind),
    fun hkind => h.2 (BlockKind.eq_id_of_ofId? hkind)⟩

end Block

/-! ## Places -/

def Progress.moveTo (p : Progress) (line column : UInt32) : Progress :=
  { p with location := { p.location with line, column } }

/-- Where `x` starts in the source makes no difference. -/
def Placeless {α : Type} (x : Decoder α) : Prop := ∀ p line column, x (p.moveTo line column) = x p

theorem Placeless.bind {α β : Type} {x : Decoder α} (hx : Placeless x) (f : α → Decoder β) :
    Placeless (x >>= f) := by
  intro p line column
  change EStateM.bind x f _ = EStateM.bind x f p
  unfold EStateM.bind
  rw [hx]

theorem Placeless.place {α : Type} (line : UInt32) (column : Nat) (x : Decoder α) :
    Placeless (do setLine line; setColumn column; x) :=
  fun _ _ _ => rfl

theorem Placeless.after_place {α : Type} {x : Decoder α} (hx : Placeless x) (line : UInt32)
    (column : Nat) : (do setLine line; setColumn column; x) = x := by
  funext p
  exact hx p line (UInt32.ofNat column)

/-! ## Function bodies -/

namespace Functions

variable {scope : FunctionScope}

mutual

theorem placeless_decode (level : Nat) (s : State) :
    (block : Block) → Placeless (decode scope level s block)
  | .mk header records blocks => by
    rw [decode]
    exact placeless_decodeAll_bind (level + 1) s (fun _ => .place _ _ _) blocks

theorem placeless_decodeAll_bind {α : Type} {k : State → Decoder α} (level : Nat) (s : State)
    (hk : ∀ s, Placeless (k s)) :
    (blocks : List Block) → Placeless (decodeAll scope level s blocks >>= k)
  | [] => by
    rw [decodeAll, pure_bind]
    exact hk s
  | block :: blocks => by
    rw [decodeAll, bind_assoc]
    exact (placeless_decode level s block).bind _

end

theorem decode_of_not_isCode {block : Block} (hnested : block.WellNested)
    (h : block.isCode = false) (level : Nat) (s : State) :
    decode scope level s block = (do setLine block.id; setColumn 0; pure s) := by
  have hnone := hnested.blocks_eq_nil h
  obtain ⟨header, records, blocks⟩ := block
  change blocks = [] at hnone
  subst hnone
  obtain ⟨hconstants, hfunction⟩ := Block.kind_of_not_isCode h
  rw [decode, decodeAll, pure_bind]
  split
  · exact absurd ‹_› hconstants
  · exact absurd ‹_› hfunction
  · rfl

mutual

theorem decode_code (level : Nat) (s : State) :
    (block : Block) → block.WellNested →
      decode scope level s block.code = decode scope level s block
  | .mk header records blocks, h => by
    rw [Block.code, decode, decode]
    exact decodeAll_codeOf_bind (level + 1) s (fun _ => .place _ _ _) blocks h.blocks

theorem decodeAll_codeOf_bind {α : Type} {k : State → Decoder α} (level : Nat) (s : State)
    (hk : ∀ s, Placeless (k s)) :
    (blocks : List Block) → Block.WellNestedAll blocks →
      decodeAll scope level s (Block.codeOf blocks) >>= k = decodeAll scope level s blocks >>= k
  | [], _ => by
    rw [Block.codeOf]
  | block :: blocks, h => by
    have hrest : ∀ s, decodeAll scope level s (Block.codeOf blocks) >>= k =
        decodeAll scope level s blocks >>= k :=
      fun s => decodeAll_codeOf_bind level s hk blocks h.tail
    rw [Block.codeOf, decodeAll, bind_assoc]
    cases hcode : block.isCode with
    | true =>
      rw [if_pos rfl, decodeAll, bind_assoc, decode_code level s block h.head]
      simp only [hrest]
    | false =>
      rw [if_neg (by simp), hrest, decode_of_not_isCode h.head hcode]
      -- The place is moved again, by the next block or by what comes after.
      simp only [bind_assoc, pure_bind]
      exact ((placeless_decodeAll_bind level s hk blocks).after_place block.id 0).symm

end

end Functions

/-! ## Counting values -/

namespace ValueBudget

/-- The values with those that a module declares, before the blocks in it. -/
def declared (header : BlockHeader) (records : List Record) (before : Nat) : Nat :=
  if header.id = BlockKind.module.id then before + records.countP declaresValue else before

/-- The count that a block comes to, from the one after the blocks in it. -/
def reached (header : BlockHeader) (records : List Record) (before inner : Nat)
    (b : ValueBudget) : Nat × ValueBudget :=
  match BlockKind.ofId? header.id with
  | some .constants => (inner + records.countP definesConstant, b)
  | some .function => (before, b.addFunction inner records)
  | _ => (inner, b)

def close (header : BlockHeader) (records : List Record) (before inner : Nat) (b : ValueBudget) :
    Option (Nat × ValueBudget) :=
  if (reached header records before inner b).1 < UInt32.size then
    some (reached header records before inner b)
  else none

theorem count_mk (header : BlockHeader) (records : List Record) (blocks : List Block)
    (before : Nat) (b : ValueBudget) :
    count (.mk header records blocks) before b =
      (countAll blocks (declared header records before) b).bind fun (inner, b) =>
        close header records before inner b := by
  rw [count, declared]
  cases countAll blocks _ b with
  | none => rfl
  | some _ => rfl

section

variable {header : BlockHeader} {records : List Record} {before inner after : Nat}
  {b b' : ValueBudget}

theorem le_declared : before ≤ declared header records before := by
  unfold declared
  split <;> omega

theorem le_reached (h : before ≤ inner) : before ≤ (reached header records before inner b).1 := by
  unfold reached
  split
  · exact Nat.le_add_right_of_le h
  · exact Nat.le_refl _
  · exact h

theorem of_close (h : close header records before inner b = some (after, b')) :
    after < UInt32.size ∧ (before ≤ inner → before ≤ after) := by
  unfold close at h
  split at h
  · rename_i hsmall
    have hreached := Option.some.inj h
    rw [hreached] at hsmall
    refine ⟨hsmall, fun hle => ?_⟩
    have hbefore : before ≤ (reached header records before inner b).1 := le_reached hle
    rw [hreached] at hbefore
    exact hbefore
  · cases h

theorem close_of_le (hmodule : header.id = BlockKind.module.id) (h : UInt32.size ≤ inner) :
    close header records before inner b = none := by
  have hreached : reached header records before inner b = (inner, b) := by
    rw [reached, hmodule]
    rfl
  rw [close, hreached]
  exact if_neg (Nat.not_lt.mpr h)

end

theorem lt_of_count {block : Block} {before after : Nat} {b b' : ValueBudget}
    (h : count block before b = some (after, b')) : after < UInt32.size := by
  obtain ⟨header, records, blocks⟩ := block
  rw [count_mk] at h
  obtain ⟨_, _, hclose⟩ := Option.bind_eq_some_iff.mp h
  exact (of_close hclose).1

mutual

theorem le_of_count {before after : Nat} {b b' : ValueBudget} :
    (block : Block) → count block before b = some (after, b') → before ≤ after
  | .mk header records blocks, h => by
    rw [count_mk] at h
    obtain ⟨⟨inner, _⟩, hinner, hclose⟩ := Option.bind_eq_some_iff.mp h
    exact (of_close hclose).2 (Nat.le_trans le_declared (le_of_countAll blocks hinner))

theorem le_of_countAll {before after : Nat} {b b' : ValueBudget} :
    (blocks : List Block) → countAll blocks before b = some (after, b') → before ≤ after
  | [], h => by
    rw [countAll] at h
    cases h
    exact Nat.le_refl _
  | block :: blocks, h => by
    rw [countAll] at h
    cases hfirst : count block before b with
    | none =>
      rw [hfirst] at h
      cases h
    | some result =>
      rw [hfirst] at h
      exact Nat.le_trans (le_of_count block hfirst) (le_of_countAll blocks h)

end

theorem bind_close_of_le {header : BlockHeader} {records : List Record} {before : Nat}
    (hbefore : before < UInt32.size) (h : UInt32.size ≤ declared header records before)
    (blocks : List Block) (b : ValueBudget) :
    ((countAll blocks (declared header records before) b).bind fun (inner, b) =>
      close header records before inner b) = none := by
  have hmodule : header.id = BlockKind.module.id := by
    unfold declared at h
    split at h
    · assumption
    · omega
  refine Option.bind_eq_none_iff.mpr fun ⟨inner, b'⟩ hinner => ?_
  exact close_of_le hmodule (Nat.le_trans h (le_of_countAll blocks hinner))

theorem count_of_not_isCode {block : Block} (hnested : block.WellNested)
    (h : block.isCode = false) {before : Nat} (hbefore : before < UInt32.size)
    (b : ValueBudget) : count block before b = some (before, b) := by
  have hnone := hnested.blocks_eq_nil h
  obtain ⟨header, records, blocks⟩ := block
  change blocks = [] at hnone
  subst hnone
  have hmodule : header.id ≠ BlockKind.module.id := by
    intro hid
    simp [Block.isCode, Block.id, Block.header, hid] at h
  rw [count_mk, countAll, declared, if_neg hmodule]
  change close header records before before b = _
  obtain ⟨hconstants, hfunction⟩ := Block.kind_of_not_isCode h
  have hreached : reached header records before before b = (before, b) := by
    unfold reached
    split
    · exact absurd ‹_› hconstants
    · exact absurd ‹_› hfunction
    · rfl
  rw [close, hreached]
  exact if_pos hbefore

mutual

theorem count_code {before : Nat} (hbefore : before < UInt32.size) (b : ValueBudget) :
    (block : Block) → block.WellNested → count block.code before b = count block before b
  | .mk header records blocks, h => by
    rw [Block.code, count_mk, count_mk]
    by_cases hdeclared : declared header records before < UInt32.size
    · rw [countAll_codeOf hdeclared b blocks h.blocks]
    · have hle := Nat.le_of_not_lt hdeclared
      rw [bind_close_of_le hbefore hle, bind_close_of_le hbefore hle]

theorem countAll_codeOf {before : Nat} (hbefore : before < UInt32.size) (b : ValueBudget) :
    (blocks : List Block) → Block.WellNestedAll blocks →
      countAll (Block.codeOf blocks) before b = countAll blocks before b
  | [], _ => by rw [Block.codeOf]
  | block :: blocks, h => by
    rw [Block.codeOf, countAll]
    cases hcode : block.isCode with
    | true =>
      rw [if_pos rfl, countAll, count_code hbefore b block h.head]
      cases hfirst : count block before b with
      | none => rfl
      | some result => exact countAll_codeOf (lt_of_count hfirst) result.2 blocks h.tail
    | false =>
      rw [if_neg (by simp), count_of_not_isCode h.head hcode hbefore]
      exact countAll_codeOf hbefore b blocks h.tail

end

theorem ofModule?_code {root : Block} (h : root.WellNested) :
    ofModule? root.code = ofModule? root := by
  rw [ofModule?, ofModule?, count_code (by decide) {} root h]

end ValueBudget

/-! ## Modules -/

structure Bitcode.Agrees (a b : Bitcode) : Prop where
  endPosition : a.endPosition = b.endPosition
  wordCount : a.wordCount = b.wordCount
  types : a.root.children .type = b.root.children .type
  symbols : a.root.children .valueSymtab = b.root.children .valueSymtab
  constants : a.root.children .constants = b.root.children .constants
  metadata : a.root.children .metadata = b.root.children .metadata
  code : a.root.code = b.root.code

section

variable {a b : Bitcode}

theorem Block.header_code (b : Block) : b.code.header = b.header := by
  cases b
  rw [code]
  rfl

theorem Block.records_code (b : Block) : b.code.records = b.records := by
  cases b
  rw [code]
  rfl

theorem Bitcode.Agrees.header (h : a.Agrees b) : a.root.header = b.root.header := by
  rw [← a.root.header_code, ← b.root.header_code, h.code]

theorem Bitcode.Agrees.records (h : a.Agrees b) : a.root.records = b.root.records := by
  rw [← a.root.records_code, ← b.root.records_code, h.code]

theorem ofBitcode_of_agrees (version : ShaderVersion) (ha : a.root.WellNested)
    (hb : b.root.WellNested) (h : a.Agrees b) :
    Program.ofBitcode version a = Program.ofBitcode version b := by
  have hlengths : checkLengths a = checkLengths b := by
    rw [checkLengths, checkLengths, h.header, h.endPosition, h.wordCount]
  have htypes : TypeTable.decode a.root = TypeTable.decode b.root := by
    rw [TypeTable.decode, TypeTable.decode, h.types]
  have hsymbols : SymbolTable.decode a.root = SymbolTable.decode b.root := by
    rw [SymbolTable.decode, SymbolTable.decode, h.symbols]
  have hbudget : valueBudget a.root = valueBudget b.root := by
    rw [valueBudget, valueBudget, ← ValueBudget.ofModule?_code ha,
      ← ValueBudget.ofModule?_code hb, h.code]
  have hglobals : ∀ types symbols,
      Globals.decode types symbols a.root = Globals.decode types symbols b.root := by
    intro types symbols
    rw [Globals.decode, Globals.decode, Block.id, Block.id, h.header, h.records, h.constants]
  have hmetadata : ∀ types values, MetadataTable.decodeAll types values a.root =
      MetadataTable.decodeAll types values b.root := by
    intro types values
    rw [MetadataTable.decodeAll, MetadataTable.decodeAll, h.metadata]
  have hfunctions : ∀ scope s,
      Functions.decode scope 0 s a.root = Functions.decode scope 0 s b.root := by
    intro scope s
    rw [← Functions.decode_code 0 s a.root ha, ← Functions.decode_code 0 s b.root hb, h.code]
  simp only [Program.ofBitcode, Program.prepare, Program.openBitcode, Program.Opened.prepare,
    Program.Prepared.finish, bind_assoc, pure_bind, hlengths, htypes, hsymbols, hbudget, hglobals,
    hmetadata, hfunctions]

end

/-- Two modules differ at most in the blocks in their roots. -/
structure Bitcode.SameRoot (a b : Bitcode) : Prop where
  magic : a.magic = b.magic
  endPosition : a.endPosition = b.endPosition
  wordCount : a.wordCount = b.wordCount
  header : a.root.header = b.root.header
  records : a.root.records = b.root.records

/-- Two modules have the same blocks of each kind that is looked up, and the same that are walked,
each in the same order. -/
structure Bitcode.Rearranges (a b : Bitcode) : Prop extends a.SameRoot b where
  types : a.root.children .type = b.root.children .type
  symbols : a.root.children .valueSymtab = b.root.children .valueSymtab
  metadata : a.root.children .metadata = b.root.children .metadata
  code : a.root.blocks.filter Block.isCode = b.root.blocks.filter Block.isCode

def Block.isRead (b : Block) : Bool :=
  b.isCode || b.id = BlockKind.type.id || b.id = BlockKind.valueSymtab.id ||
    b.id = BlockKind.metadata.id

/-- The blocks with one more, somewhere between them or in them. -/
inductive Block.Inserts (extra : Block) : List Block → List Block → Prop where
  | here (before after : List Block) :
      Inserts extra (before ++ after) (before ++ extra :: after)
  | inside (before after : List Block) {header : BlockHeader} {records : List Record}
      {inner inner' : List Block} (h : Inserts extra inner inner') :
      Inserts extra (before ++ .mk header records inner :: after)
        (before ++ .mk header records inner' :: after)

namespace Block

theorem codeOf_eq_map (blocks : List Block) :
    codeOf blocks = (blocks.filter isCode).map code := by
  induction blocks with
  | nil => rw [codeOf]; rfl
  | cons block blocks ih =>
    rw [codeOf, List.filter_cons, ih]
    cases block.isCode <;> rfl

theorem code_eq (b : Block) : b.code = .mk b.header b.records (codeOf b.blocks) := by
  cases b
  rw [code]
  rfl

theorem children_constants (b : Block) :
    b.children .constants =
      (b.blocks.filter isCode).filter fun child => child.id = BlockKind.constants.id := by
  rw [children, List.filter_filter]
  refine List.filter_congr fun child _ => ?_
  by_cases h : child.id = BlockKind.constants.id
  · simp [h, isCode]
  · simp [h]

namespace Inserts

variable {extra : Block} {blocks blocks' : List Block}

theorem ne_nil (h : Inserts extra blocks blocks') : blocks' ≠ [] := by
  cases h <;> simp

theorem codeOf_eq (h : Inserts extra blocks blocks') (hextra : extra.isCode = false) :
    codeOf blocks' = codeOf blocks := by
  induction h with
  | here before after => simp [codeOf_eq_map, hextra]
  | @inside before after header records inner inner' h ih =>
    have hcode : code (.mk header records inner') = code (.mk header records inner) := by
      rw [code, code, ih]
    have hkind : isCode (.mk header records inner') = isCode (.mk header records inner) := rfl
    simp only [codeOf_eq_map, List.filter_append, List.filter_cons, hkind]
    cases isCode (.mk header records inner) <;> simp [hcode]

/-- Modules and functions, which alone have blocks in them, are not looked up. -/
theorem filter_eq (h : Inserts extra blocks blocks') (hnested : WellNestedAll blocks')
    {id : UInt32} (hextra : extra.id ≠ id) (hmodule : BlockKind.module.id ≠ id)
    (hfunction : BlockKind.function.id ≠ id) :
    blocks'.filter (fun b => b.id = id) = blocks.filter fun b => b.id = id := by
  cases h with
  | here before after => simp [hextra]
  | @inside before after header records inner inner' h =>
    have hmem : Block.mk header records inner' ∈
        allOf (before ++ .mk header records inner' :: after) := by
      rw [allOf_append, allOf]
      exact List.mem_append_right _ (List.mem_append_left _ (self_mem_all _))
    have hnest := hnested _ hmem h.ne_nil
    have hid : header.id ≠ id := by
      intro hid
      simp only [BlockHeader.mayNest, decide_eq_true_eq] at hnest
      rcases hnest with hnest | hnest
      · exact hmodule (hnest.symm.trans hid)
      · exact hfunction (hnest.symm.trans hid)
    have hnone : ∀ blocks, (Block.mk header records blocks).id ≠ id := fun _ => hid
    simp [hnone]

end Inserts

end Block

namespace Bitcode

variable {a b : Bitcode}

theorem code_eq_of_blocks (h : a.SameRoot b)
    (hblocks : Block.codeOf a.root.blocks = Block.codeOf b.root.blocks) :
    a.root.code = b.root.code := by
  rw [Block.code_eq, Block.code_eq, h.header, h.records, hblocks]

theorem Rearranges.agrees (h : a.Rearranges b) : a.Agrees b where
  endPosition := h.endPosition
  wordCount := h.wordCount
  types := h.types
  symbols := h.symbols
  constants := by rw [Block.children_constants, Block.children_constants, h.code]
  metadata := h.metadata
  code := by
    refine code_eq_of_blocks h.toSameRoot ?_
    rw [Block.codeOf_eq_map, Block.codeOf_eq_map, h.code]

theorem SameRoot.agrees (h : a.SameRoot b) (hb : b.root.WellNested) {extra : Block}
    (hextra : extra.isRead = false) (hinserts : Block.Inserts extra a.root.blocks b.root.blocks) :
    a.Agrees b := by
  have hnested := hb.blocks
  simp only [Block.isRead, Bool.or_eq_false_iff, decide_eq_false_iff_not] at hextra
  obtain ⟨⟨⟨hcode, htype⟩, hsymbols⟩, hmetadata⟩ := hextra
  have hconstants : extra.id ≠ BlockKind.constants.id := by
    simp only [Block.isCode, Bool.or_eq_false_iff, decide_eq_false_iff_not] at hcode
    exact hcode.1.2
  exact
    { endPosition := h.endPosition
      wordCount := h.wordCount
      types := (hinserts.filter_eq hnested htype (by decide) (by decide)).symm
      symbols := (hinserts.filter_eq hnested hsymbols (by decide) (by decide)).symm
      constants := (hinserts.filter_eq hnested hconstants (by decide) (by decide)).symm
      metadata := (hinserts.filter_eq hnested hmetadata (by decide) (by decide)).symm
      code := code_eq_of_blocks h (hinserts.codeOf_eq hcode).symm }

end Bitcode

/-- The order of the blocks of a module does not matter, but among those of a kind and among
modules, constants and functions; and blocks of other kinds, wherever they stand, do not matter at
all. From any progress the outcome is the same, with the same reports at the same places. -/
theorem ofBitcode_rearranged (version : ShaderVersion) {a b : Bitcode} (ha : a.root.WellNested)
    (hb : b.root.WellNested) :
    (a.Rearranges b → Program.ofBitcode version a = Program.ofBitcode version b) ∧
    (∀ extra : Block, extra.isRead = false → a.SameRoot b →
      Block.Inserts extra a.root.blocks b.root.blocks →
      Program.ofBitcode version a = Program.ofBitcode version b) := by
  constructor
  · intro h
    exact ofBitcode_of_agrees version ha hb h.agrees
  · intro extra hextra hroot hinserts
    exact ofBitcode_of_agrees version ha hb (hroot.agrees hb hextra hinserts)

/-- A module that declares one function, with the given blocks. -/
def moduleOf (blocks : List Block) : Bitcode :=
  { magic := bitcodeMagic
    root := .mk ⟨BlockKind.module.id, 3, 4, 60, 0⟩ [⟨1, [1]⟩, ⟨8, [1, 0, 0, 0, 0, 0, 0, 0]⟩] blocks
    endPosition := 64
    wordCount := 64 }

namespace moduleOf

def types : Block :=
  .mk ⟨BlockKind.type.id, 4, 10, 8, 1⟩
    [⟨1, [4]⟩, ⟨2, []⟩, ⟨21, [0, 0]⟩, ⟨8, [1, 0]⟩, ⟨7, [32]⟩] []

def constants (level : Nat) : Block :=
  .mk ⟨BlockKind.constants.id, 4, 20, 2, level⟩ [⟨1, [3]⟩, ⟨4, [14]⟩] []

/-- The function is the entry point, and is called "main". -/
def metadata : Block :=
  .mk ⟨BlockKind.metadata.id, 3, 24, 11, 1⟩
    [⟨2, [2, 0]⟩, ⟨1, [109, 97, 105, 110]⟩, ⟨3, [1, 2, 0, 0, 0]⟩,
      ⟨4, [100, 120, 46, 101, 110, 116, 114, 121, 80, 111, 105, 110, 116, 115]⟩, ⟨10, [2]⟩] []

def symbols : Block :=
  .mk ⟨BlockKind.valueSymtab.id, 4, 48, 2, 1⟩ [⟨1, [0, 109, 97, 105, 110]⟩] []

/-- The sum of a constant of the function and one of the module. -/
def body (blocks : List Block) : Block :=
  .mk ⟨BlockKind.function.id, 4, 36, 9, 1⟩ [⟨1, [1]⟩, ⟨2, [1, 2, 0]⟩, ⟨10, []⟩] blocks

def unknown (level : Nat) : Block := .mk ⟨13, 3, 52, 1, level⟩ [⟨5, [6]⟩] []

end moduleOf

/-- The usual order, and one in which blocks of other kinds stand between. -/
def moduleOf.usual : Bitcode :=
  moduleOf [types, constants 1, metadata, body [constants 2], symbols]

def moduleOf.shuffled : Bitcode :=
  moduleOf [symbols, unknown 1, constants 1, body [constants 2], types, metadata]

/-- The usual order with a block of another kind in the function. -/
def moduleOf.extended : Bitcode :=
  moduleOf [types, constants 1, metadata, body [unknown 2, constants 2], symbols]

open moduleOf in
/-- All three are read as the same program, which adds the constants and returns. -/
theorem ofBitcode_rearranged_shuffled :
    Program.ofBitcode ⟨.pixel, 6, 0⟩ usual = Program.ofBitcode ⟨.pixel, 6, 0⟩ shuffled ∧
      Program.ofBitcode ⟨.pixel, 6, 0⟩ usual = Program.ofBitcode ⟨.pixel, 6, 0⟩ extended ∧
      ∃ program,
        (Parsed.ofDecoder (Program.ofBitcode ⟨.pixel, 6, 0⟩ usual) "usual").program = .ok program ∧
          program.instructions.map Instruction.opcode = [.iAdd, .ret] := by
  have husual : usual.root.WellNested := by decide
  have hshuffled : shuffled.root.WellNested := by decide
  have hextended : extended.root.WellNested := by decide
  refine ⟨?_, ?_, ?_⟩
  · refine (ofBitcode_rearranged ⟨.pixel, 6, 0⟩ husual hshuffled).1 ?_
    exact ⟨⟨rfl, rfl, rfl, rfl, rfl⟩, rfl, rfl, rfl, rfl⟩
  · refine (ofBitcode_rearranged ⟨.pixel, 6, 0⟩ husual hextended).2 (unknown 2) rfl
      ⟨rfl, rfl, rfl, rfl, rfl⟩ ?_
    exact .inside [types, constants 1, metadata] [symbols] (.here [] [constants 2])
  · obtain ⟨program, hprogram, hopcodes⟩ := exists_of_toOption_any
      (x := (Parsed.ofDecoder (Program.ofBitcode ⟨.pixel, 6, 0⟩ usual) "usual").program)
      (f := fun program => decide (program.instructions.map Instruction.opcode = [.iAdd, .ret]))
      (by decide +kernel)
    exact ⟨program, hprogram, of_decide_eq_true hopcodes⟩

end Dxil
