import Dxil.Proofs.Stream.SelfDelimiting
import Dxil.Proofs.Stream.Skipping

/-!
# Dxil.Proofs.Stream.Tree

The tree of a stream is what reading it comes upon.

* `Block.Visited b events` : the events are those of `b`. Between its beginning and its end stand
  its records and the events of the blocks in it, each in order.
* `Block.Visited.ofEvents?` : the tree is put together from its events, and from those of no other.
* `Block.Formed` : what the format asks of a block and of everything in it.
* `reads_of_run` : what is read of an open block, up to its end.
* `Bitcode.ofBytes_visited` : whole streams.
-/

namespace Dxil

/-! ## Trees and their events -/

mutual

/-- The events of a block, if it is read to its end. -/
inductive Block.Visited : Block → List Event → Prop where
  | mk {header : BlockHeader} {records : List Record} {blocks : List Block} {events : List Event}
      (h : Block.Interleaves header.id records blocks events) :
      Block.Visited (.mk header records blocks) (.enter header :: (events ++ [.exit header.id]))

/-- The events inside a block with an id: its records, and between them the blocks in it. -/
inductive Block.Interleaves : UInt32 → List Record → List Block → List Event → Prop where
  | nil {id : UInt32} : Block.Interleaves id [] [] []
  | record {id : UInt32} {records : List Record} {blocks : List Block} {events : List Event}
      (r : Record) (h : Block.Interleaves id records blocks events) :
      Block.Interleaves id (r :: records) blocks (.record id r :: events)
  | block {id : UInt32} {records : List Record} {blocks : List Block} {events : List Event}
      {b : Block} {inner : List Event} (hb : Block.Visited b inner)
      (h : Block.Interleaves id records blocks events) :
      Block.Interleaves id records (b :: blocks) (inner ++ events)

end

namespace Block

mutual

theorem Visited.foldl {b : Block} {events : List Event} (top : OpenBlock) (rest : List OpenBlock)
    (root : Option Block) : b.Visited events →
    events.foldl TreeBuilder.add ⟨top :: rest, root⟩ =
      ⟨{ top with blocks := b :: top.blocks } :: rest, root⟩
  | @Visited.mk header _ _ _ h => by
    rw [List.foldl_cons, List.foldl_append]
    change List.foldl _ (List.foldl _ (TreeBuilder.mk ({ header } :: top :: rest) root) _) _ = _
    rw [h.foldl]
    simp [TreeBuilder.add, OpenBlock.close]

theorem Interleaves.foldl {id : UInt32} {records : List Record} {blocks : List Block}
    {events : List Event} (top : OpenBlock) (rest : List OpenBlock) (root : Option Block) :
    Interleaves id records blocks events →
    events.foldl TreeBuilder.add ⟨top :: rest, root⟩ =
      ⟨{ top with
          records := records.reverse ++ top.records
          blocks := blocks.reverse ++ top.blocks } :: rest, root⟩
  | .nil => rfl
  | .record r h => by
    rw [List.foldl_cons]
    change List.foldl _
      (TreeBuilder.mk ({ top with records := r :: top.records } :: rest) root) _ = _
    rw [h.foldl]
    simp
  | .block hb h => by
    rw [List.foldl_append, hb.foldl, h.foldl]
    simp

end

theorem Visited.enter_mem {b : Block} {events : List Event} (h : b.Visited events) :
    .enter b.header ∈ events := by
  cases h
  exact List.mem_cons_self

theorem Visited.ofEvents? {b : Block} {events : Array Event} (h : b.Visited events.toList) :
    Block.ofEvents? events = some b := by
  unfold Block.ofEvents?
  rw [← Array.foldl_toList]
  generalize events.toList = es at h
  cases h with
  | @mk header records blocks events h =>
    rw [List.foldl_cons, List.foldl_append]
    change (List.foldl _ (List.foldl _ (TreeBuilder.mk [{ header }] none) _) _).root = _
    rw [h.foldl]
    simp [TreeBuilder.add, OpenBlock.close]

end Block

/-! ## Well-formed trees -/

mutual

/-- A block at a depth, and everything in it: ids and widths are in range, levels are depths, and
only modules and functions have blocks in them. -/
def Block.Formed (depth : Nat) : Block → Prop
  | .mk header _ blocks =>
    header.id ≠ 0 ∧ 1 ≤ header.width ∧ header.width ≤ 32 ∧ header.level = depth ∧
      (blocks ≠ [] → header.id = 8 ∨ header.id = 12) ∧ Block.FormedAll (depth + 1) blocks

def Block.FormedAll (depth : Nat) : List Block → Prop
  | [] => True
  | block :: blocks => block.Formed depth ∧ Block.FormedAll depth blocks

end

/-- Blocks start one after the other, between two bit positions. -/
structure Spread (low high : Nat) (blocks : List Block) : Prop where
  increasing : blocks.Pairwise fun b b' => b.header.start < b'.header.start
  low : ∀ b ∈ blocks, low < 32 * b.header.start
  high : ∀ b ∈ blocks, 32 * b.header.start < high

namespace Spread

variable {low m high : Nat} {blocks blocks' : List Block}

theorem nil : Spread low high [] := ⟨.nil, by simp, by simp⟩

theorem later (h : Spread m high blocks) (hle : low ≤ m) : Spread low high blocks :=
  ⟨h.increasing, fun b hb => Nat.lt_of_le_of_lt hle (h.low b hb), h.high⟩

theorem append (h : Spread low m blocks) (h' : Spread m high blocks') (hlow : low ≤ m)
    (hhigh : m ≤ high) : Spread low high (blocks ++ blocks') := by
  refine ⟨List.pairwise_append.mpr ⟨h.increasing, h'.increasing, fun b hb b' hb' => ?_⟩, ?_, ?_⟩
  · have hbefore := h.high b hb
    have hafter := h'.low b' hb'
    omega
  · intro b hb
    rcases List.mem_append.mp hb with hb | hb
    · exact h.low b hb
    · exact Nat.lt_of_le_of_lt hlow (h'.low b hb)
  · intro b hb
    rcases List.mem_append.mp hb with hb | hb
    · exact Nat.lt_of_lt_of_le (h.high b hb) hhigh
    · exact h'.high b hb

theorem all {header : BlockHeader} {records : List Record}
    (h : Spread (32 * header.start) high (Block.allOf blocks)) (hlow : low < 32 * header.start)
    (hhigh : 32 * header.start < high) :
    Spread low high (Block.mk header records blocks).all := by
  rw [Block.all]
  refine ⟨List.pairwise_cons.mpr ⟨fun b hb => ?_, h.increasing⟩, ?_, ?_⟩
  · have hb := h.low b hb
    simp only [Block.header] at hb ⊢
    omega
  · exact List.forall_mem_cons.mpr ⟨hlow, (h.later (Nat.le_of_lt hlow)).low⟩
  · exact List.forall_mem_cons.mpr ⟨hhigh, h.high⟩

end Spread

/-! ## Reading a block -/

/-- Reading an item uses up its abbreviation id at least. -/
theorem pos_lt_of_readItem {block : UInt32} {width : Nat} {inScope : List Abbreviation}
    {item : Item} {c c' : Cursor} (hwidth : 1 ≤ width)
    (h : readItem block width inScope c = .ok item c') : c.pos < c'.pos := by
  obtain ⟨id, c₁, hread, hitem⟩ := exists_of_bind_ok h
  have hfirst : c.pos + width ≤ c₁.pos := Advances.read width c id c₁ (of_lift_ok hread)
  have hrest : c₁.pos ≤ c'.pos := (Local.itemOfId block inScope id c₁ item c' hitem).forward
  omega

theorem of_readBlockHeader {level : Nat} {header : BlockHeader} {c c' : Cursor}
    (h : readBlockHeader level c = .ok header c') :
    1 ≤ header.width ∧ header.width ≤ 32 ∧ header.level = level ∧
      32 * header.start = c'.pos ∧ c.pos < c'.pos := by
  obtain ⟨hlevel, hstart⟩ := of_readBlockHeader_ok h
  obtain ⟨hleft, hbit⟩ := left_lt_of_readBlockHeader h
  have hpass := Local.readBlockHeader level c header c' h
  have hwords : c'.words = c.words := hpass.words
  have hforward : c.pos ≤ c'.pos := hpass.forward
  have hwidth : 1 ≤ header.width ∧ header.width ≤ 32 := by
    obtain ⟨id, c₁, -, h⟩ := exists_of_bind_ok h
    split at h
    · cases h
    obtain ⟨width, c₂, -, h⟩ := exists_of_bind_ok h
    split at h
    · cases h
    rename_i hrange
    obtain ⟨_, c₃, -, h⟩ := exists_of_bind_ok h
    obtain ⟨length, c₄, -, h⟩ := exists_of_bind_ok h
    cases h
    dsimp only
    omega
  refine ⟨hwidth.1, hwidth.2, hlevel, ?_, ?_⟩
  · rw [hstart]
    simp only [Cursor.bit, Cursor.word] at hbit ⊢
    omega
  · simp only [Cursor.left, hwords] at hleft
    omega

/-- What was read of an open block from `r` on, up to its end at `r'`. -/
structure Reads (header : BlockHeader) (r r' : Reader) (records : List Record)
    (blocks : List Block) (events : List Event) : Prop where
  delivered : r'.events.toList = r.events.toList ++ (events ++ [.exit header.id])
  interleaves : Block.Interleaves header.id records blocks events
  nests : blocks ≠ [] → header.mayNest = true
  formed : Block.FormedAll (header.level + 1) blocks
  forward : r.cursor.pos < r'.cursor.pos
  spread : Spread r.cursor.pos r'.cursor.pos (Block.allOf blocks)

namespace Reads

variable {header inner : BlockHeader} {r r₁ r₂ r' : Reader} {records records' : List Record}
  {blocks blocks' : List Block} {events events' : List Event}

theorem later (h : Reads header r₁ r' records blocks events) (hevents : r₁.events = r.events)
    (hpos : r.cursor.pos ≤ r₁.cursor.pos) : Reads header r r' records blocks events where
  delivered := by rw [h.delivered, hevents]
  interleaves := h.interleaves
  nests := h.nests
  formed := h.formed
  forward := Nat.lt_of_le_of_lt hpos h.forward
  spread := h.spread.later hpos

theorem record {record : Record} {c : Cursor}
    (h : Reads header ((r.moveTo c).emit (.record header.id record)) r' records blocks events)
    (hpos : r.cursor.pos ≤ c.pos) :
    Reads header r r' (record :: records) blocks (.record header.id record :: events) where
  delivered := by
    rw [h.delivered, Reader.toList_emit]
    simp [Reader.moveTo]
  interleaves := .record record h.interleaves
  nests := h.nests
  formed := h.formed
  forward := Nat.lt_of_le_of_lt hpos h.forward
  spread := h.spread.later hpos

theorem toFormed (h : Reads header r r' records blocks events) (hid : header.id ≠ 0)
    (hwidth : 1 ≤ header.width ∧ header.width ≤ 32) :
    (Block.mk header records blocks).Formed header.level := by
  rw [Block.Formed]
  refine ⟨hid, hwidth.1, hwidth.2, rfl, fun hne => ?_, h.formed⟩
  exact of_decide_eq_true (h.nests hne)

theorem block {level : Nat} {c₀ c : Cursor} (hlevel : header.level + 1 = level)
    (hheader : readBlockHeader level c₀ = .ok inner c)
    (hid : inner.id ≠ BlockKind.blockInfo.id) (hnest : header.mayNest = true)
    (hpos : r.cursor.pos ≤ c₀.pos)
    (hinner : Reads inner ((r.moveTo c).emit (.enter inner)) r₂ records blocks events)
    (hrest : Reads header r₂ r' records' blocks' events') :
    Reads header r r' records' (.mk inner records blocks :: blocks')
      ((.enter inner :: (events ++ [.exit inner.id])) ++ events') := by
  obtain ⟨hmin, hmax, hdepth, hstart, hafter⟩ := of_readBlockHeader hheader
  have hbegin : c.pos < r₂.cursor.pos := hinner.forward
  have hend := hrest.forward
  refine ⟨?_, .block (.mk hinner.interleaves) hrest.interleaves, fun _ => hnest, ?_, by omega, ?_⟩
  · rw [hrest.delivered, hinner.delivered, Reader.toList_emit]
    simp [Reader.moveTo]
  · rw [Block.FormedAll, hlevel, ← hdepth]
    refine ⟨hinner.toFormed hid ⟨hmin, hmax⟩, ?_⟩
    rw [hdepth, ← hlevel]
    exact hrest.formed
  · rw [Block.allOf]
    refine Spread.append (m := r₂.cursor.pos) (Spread.all ?_ (by omega) (by omega)) hrest.spread
      (by omega) (by omega)
    rw [hstart]
    exact hinner.spread

end Reads

theorem reads_of_run {frame : Frame} {r r' : Reader} (hwidth : 1 ≤ frame.header.width)
    (h : run .all [frame] r = .ok () r') :
    ∃ records blocks events, Reads frame.header r r' records blocks events := by
  -- A block inside is a run of its own, so the induction is on what is left of the stream.
  induction hn : r.cursor.left using Nat.strongRecOn generalizing frame r r' with
  | _ n ih =>
    obtain ⟨stack, r₁, hstep, hrun⟩ := stepped_of_run h
    cases hstep with
    | ended hitem =>
      rw [run_nil] at hrun
      cases hrun
      refine ⟨[], [], [], Reader.toList_emit _ _, .nil, by simp, ?_, ?_, ?_⟩
      · rw [Block.FormedAll]
        trivial
      · exact pos_lt_of_readItem hwidth hitem
      · rw [Block.allOf]
        exact .nil
    | passed hitem hnest henter =>
      have hleft := (left_of_readItem hitem).2 (by simp)
      have hpos := pos_lt_of_readItem hwidth hitem
      have hleft' := left_of_enterBlock (enterBlock_eq_ok.mpr henter)
      have hpos' := (Local.enterBlock _ _ _ _ _ (enterBlock_eq_ok.mpr henter)).forward
      obtain ⟨records, blocks, events, hreads⟩ :=
        ih r₁.cursor.left (by rw [← hn]; exact Nat.lt_trans hleft' hleft) hwidth hrun rfl
      cases henter with
      | info hheader hid hinfo =>
        exact ⟨records, blocks, events, hreads.later (readBlockInfo_withEvents hinfo).1
          (Nat.le_trans (Nat.le_of_lt hpos) hpos')⟩
      | skipped _ _ hpolicy => cases hpolicy
    | opened hitem hnest henter =>
      have hleft := (left_of_readItem hitem).2 (by simp)
      have hpos := pos_lt_of_readItem hwidth hitem
      have hleft' := left_of_enterBlock (enterBlock_eq_ok.mpr henter)
      cases henter with
      | @opened header c hheader hid _ =>
        obtain ⟨r₂, hinner, houter⟩ := run_append_ok (s := [_]) hrun
        have hleft₂ := left_of_run hinner
        obtain ⟨records, blocks, events, hreads⟩ :=
          ih _ (by rw [← hn]; exact Nat.lt_trans hleft' hleft) (of_readBlockHeader hheader).1
            hinner rfl
        obtain ⟨records', blocks', events', hrest⟩ :=
          ih r₂.cursor.left
            (by rw [← hn]; exact Nat.lt_of_le_of_lt hleft₂ (Nat.lt_trans hleft' hleft))
            hwidth houter rfl
        exact ⟨_, _, _, Reads.block rfl hheader hid hnest (Nat.le_of_lt hpos) hreads hrest⟩
    | @defined a _ hitem =>
      have hwidth' : 1 ≤ (Frame.mk frame.header (frame.inScope ++ [a])).header.width := hwidth
      obtain ⟨records, blocks, events, hreads⟩ :=
        ih _ (by rw [← hn]; exact (left_of_readItem hitem).2 (by simp)) hwidth' hrun rfl
      exact ⟨records, blocks, events, hreads.later rfl
        (Nat.le_of_lt (pos_lt_of_readItem hwidth hitem))⟩
    | nothing hitem =>
      obtain ⟨records, blocks, events, hreads⟩ :=
        ih _ (by rw [← hn]; exact (left_of_readItem hitem).2 (by simp)) hwidth hrun rfl
      exact ⟨records, blocks, events, hreads.later rfl
        (Nat.le_of_lt (pos_lt_of_readItem hwidth hitem))⟩
    | @recorded record c hitem =>
      obtain ⟨records, blocks, events, hreads⟩ :=
        ih _ (by rw [← hn]; exact (left_of_readItem hitem).2 (by simp)) hwidth hrun rfl
      exact ⟨record :: records, blocks, _, hreads.record
        (Nat.le_of_lt (pos_lt_of_readItem hwidth hitem))⟩

/-! ## Whole streams -/

/-- A stream whose root is block info delivers nothing. Any other has a tree. -/
theorem visited_of_visitWords {words : Array UInt32} {events : Array Event} {c : Cursor}
    (h : visitWords .all words = (events, .ok c)) :
    events = #[] ∨ ∃ root : Block, root.Visited events.toList ∧ root.Formed 0 ∧
      Spread 0 c.pos root.all := by
  obtain ⟨start, r, -, hread, rfl, rfl⟩ := opens_of_visitWords_ok h
  rw [readSubBlock_eq] at hread
  obtain ⟨opened, r₁, henter, hrun⟩ := exists_of_bind_ok hread
  cases enterBlock_eq_ok.mp henter with
  | info hheader hid hinfo =>
    rw [Option.toList_none, runM, run_nil] at hrun
    cases hrun
    exact .inl (readBlockInfo_withEvents hinfo).1
  | skipped _ _ hpolicy => cases hpolicy
  | @opened header c hheader hid _ =>
    obtain ⟨hmin, hmax, hlevel, hstart, hpos⟩ := of_readBlockHeader hheader
    obtain ⟨records, blocks, events, hreads⟩ := reads_of_run hmin hrun
    have hforward := hreads.forward
    change Reads header _ _ _ _ _ at hreads
    change c.pos < r.cursor.pos at hforward
    refine .inr ⟨.mk header records blocks, ?_, hlevel ▸ hreads.toFormed hid ⟨hmin, hmax⟩, ?_⟩
    · rw [hreads.delivered, Reader.toList_emit]
      exact .mk hreads.interleaves
    · refine Spread.all ?_ (by omega) (by omega)
      rw [hstart]
      exact hreads.spread

/-- There is a tree if there is a root to be entered. The tree has the events of the stream, and no
other tree has them. -/
theorem Bitcode.ofBytes_visited (bytes : List UInt8) :
    ((∃ b, Bitcode.ofBytes bytes = .ok b) ↔
      ∃ events c, visit .all bytes = (events, .ok c) ∧ ∃ header, Event.enter header ∈ events) ∧
    ∀ b, Bitcode.ofBytes bytes = .ok b →
      ∃ events c, visit .all bytes = (events, .ok c) ∧
        (∀ tree : Block, tree.Visited events.toList ↔ tree = b.root) ∧
        b.root.Formed 0 ∧ b.endPosition = c.word ∧
        (b.root.all.Pairwise fun inner later => inner.header.start < later.header.start) ∧
        ∀ inner ∈ b.root.all, inner.header.start < b.endPosition := by
  refine ⟨⟨?_, ?_⟩, ?_⟩
  · rintro ⟨b, hb⟩
    obtain ⟨events, c, hvisit, hroot, -⟩ := Bitcode.ofWords_eq_ok.mp hb
    rcases visited_of_visitWords hvisit with rfl | ⟨root, hvisited, -⟩
    · cases hroot
    · exact ⟨events, c, hvisit, root.header, Array.mem_def.mpr hvisited.enter_mem⟩
  · rintro ⟨events, c, hvisit, header, hmem⟩
    rcases visited_of_visitWords hvisit with rfl | ⟨root, hvisited, -⟩
    · cases hmem
      contradiction
    · exact ⟨⟨_, root, _, _⟩,
        Bitcode.ofWords_eq_ok.mpr ⟨events, c, hvisit, hvisited.ofEvents?, rfl, rfl, rfl⟩⟩
  · intro b hb
    obtain ⟨events, c, hvisit, hroot, -, hend, -⟩ := Bitcode.ofWords_eq_ok.mp hb
    rcases visited_of_visitWords hvisit with rfl | ⟨root, hvisited, hformed, hspread⟩
    · cases hroot
    cases hvisited.ofEvents?.symm.trans hroot
    refine ⟨events, c, hvisit, fun tree => ⟨fun htree => ?_, fun htree => htree ▸ hvisited⟩,
      hformed, hend, hspread.increasing, fun inner hinner => ?_⟩
    · exact Option.some_inj.mp (htree.ofEvents?.symm.trans hvisited.ofEvents?)
    · have hbit := (end_of_visitWords_ok hvisit).2.1
      have hhigh := hspread.high inner hinner
      simp only [Cursor.bit, Cursor.word] at hbit hend
      omega

/-- A module with types and a function, and constants in the function. -/
theorem Bitcode.ofBytes_visited_nested :
    let words : List UInt32 := [0xdec04342, 0xc21, 0xb, 0x1889, 0x1, 0x2020b, 0x1861, 0x5,
      0xb21020b, 0x3, 0x1, 0x20b, 0x53, 0x28213]
    let bytes := words.flatMap bytesOfWord
    ∃ b events c, Bitcode.ofBytes bytes = .ok b ∧ visit .all bytes = (events, .ok c) ∧
      events.size = 13 ∧ b.root.all.length = 4 ∧ b.root.Visited events.toList ∧
      b.endPosition = 14 ∧ ∀ inner ∈ b.root.all, inner.header.start < 14 := by
  intro words bytes
  have hsize : (visit .all bytes).1.size = 13 := by decide +kernel
  have htree : (Bitcode.ofBytes bytes).toOption.any fun b =>
      b.root.all.length == 4 && b.endPosition == 14 := by decide +kernel
  cases hb : Bitcode.ofBytes bytes with
  | error e =>
    rw [hb] at htree
    cases htree
  | ok b =>
    rw [hb] at htree
    obtain ⟨hlength, hend⟩ : b.root.all.length = 4 ∧ b.endPosition = 14 := by
      simpa [Except.toOption] using htree
    obtain ⟨events, c, hvisit, hroot, -, -, -, hbelow⟩ := (ofBytes_visited bytes).2 b hb
    rw [hvisit] at hsize
    rw [hend] at hbelow
    exact ⟨b, events, c, rfl, hvisit, hsize, hlength, (hroot b.root).mpr rfl, hend, hbelow⟩

end Dxil
