import Dxil.Proofs.Stream.Records

/-!
# Dxil.Proofs.Stream.RoundTrip

Reading takes back what was written.

* `readItem_of_id`, `readBlockHeader_of_sees` : the parts of a stream.
* `Content.runs` : the events of a block's content, whatever blocks are open around it.
* `Content.foldl_events` : the tree put together from them.
* `BlockTree.ofBytes_bytes` : a whole stream.
-/

namespace Dxil

open Cursor

section

variable {c : Cursor} {width : Nat}

/-! ## Items -/

theorem readItem_of_id (block : UInt32) (inScope : List Abbreviation) {id : Nat} (hw : 2 ≤ width)
    (hw' : width ≤ 32) (hid : id < 4) (h : c.Sees (bitsOf width id)) :
    readItem block width inScope c = itemOfId block inScope id (c.forward width) := by
  have hpow : 4 ≤ Nat.pow 2 width := by
    simpa using Nat.pow_le_pow_right (n := 2) (by omega) hw
  rw [readItem, bind_of_ok (lift_of_ok (read_of_sees hw' (by omega) h))]

theorem readItem_record (block : UInt32) (inScope : List Abbreviation) (hw : 2 ≤ width)
    (hw' : width ≤ 32) (r : Record) (hcount : r.operands.length < UInt64.size)
    (h : c.Sees (recordBits width r)) : readItem block width inScope c =
      .ok (.record (some r)) (c.forward (recordBits width r).length) := by
  rw [recordBits_eq, sees_append, length_bitsOf] at h
  rw [readItem_of_id block inScope hw hw' (by omega) h.1, itemOfId, recordBits_eq]
  refine (bind_of_ok (readUnabbreviated_of_sees r hcount h.2)).trans ?_
  simp only [forward_forward, List.length_append, length_bitsOf]
  rfl

theorem readItem_end (block : UInt32) (inScope : List Abbreviation) (hw : 2 ≤ width)
    (hw' : width ≤ 32) (h : c.Sees (bitsOf width 0 ++ padding (c.pos + width))) :
    readItem block width inScope c =
      .ok .endBlock (c.forward (bitsOf width 0 ++ padding (c.pos + width)).length) := by
  rw [sees_append, length_bitsOf] at h
  have hpos : (c.forward width).pos = c.pos + width :=
    forward_pos (by simpa using h.1.length_le)
  rw [readItem_of_id block inScope hw hw' (by omega) h.1, itemOfId]
  change EStateM.Result.ok Item.endBlock (c.forward width).align = _
  rw [align_of_sees (hpos.symm ▸ h.2), forward_forward, List.length_append, length_bitsOf, hpos]

theorem readItem_subBlock (block : UInt32) (inScope : List Abbreviation) (hw : 2 ≤ width)
    (hw' : width ≤ 32) (h : c.Sees (bitsOf width 1)) :
    readItem block width inScope c = .ok .subBlock (c.forward width) :=
  readItem_of_id block inScope hw hw' (by omega) h

/-! ## Headers -/

def headerAt (pos : Nat) (id : UInt32) (width level : Nat) (content : Nat → List Bool) :
    BlockHeader :=
  ⟨id, width, contentStart pos id width / 32,
    UInt32.ofNat ((content (contentStart pos id width)).length / 32), level⟩

theorem start_headerAt (pos : Nat) (id : UInt32) (width level : Nat) (content : Nat → List Bool) :
    32 * (headerAt pos id width level content).start = contentStart pos id width := by
  have := dvd_contentStart pos id width
  simp only [headerAt]
  omega

theorem contentStart_of_sees {id : UInt32} {content : Nat → List Bool}
    (h : c.Sees (blockBits c.pos id width content)) :
    (c.forward ((headBits c.pos id width).length + 32)).pos = contentStart c.pos id width ∧
      (c.forward ((headBits c.pos id width).length + 32)).Sees
        (content (contentStart c.pos id width)) := by
  have hlen := h.length_le
  simp only [blockBits, List.length_append, length_bitsOf] at hlen
  rw [blockBits, sees_append, sees_append, forward_forward, length_bitsOf] at h
  exact ⟨by rw [forward_pos (by omega), contentStart]; omega, h.2.2⟩

theorem readBlockHeader_of_sees (level : Nat) {id : UInt32} {content : Nat → List Bool}
    (hw : 2 ≤ width) (hw' : width ≤ 32)
    (hlt : (content (contentStart c.pos id width)).length / 32 < UInt32.size)
    (h : c.Sees (blockBits c.pos id width content)) :
    readBlockHeader level c = .ok (headerAt c.pos id width level content)
      (c.forward ((headBits c.pos id width).length + 32)) := by
  have hstart := (contentStart_of_sees h).1
  have hid : id.toNat < UInt64.size := Nat.lt_trans id.toNat_lt (by decide)
  have hwidth : width < UInt64.size := Nat.lt_of_le_of_lt hw' (by decide)
  rw [blockBits, sees_append, sees_append] at h
  obtain ⟨hhead, hlength, -⟩ := h
  have hfields := (sees_append.mp hhead).1
  have hpad := (sees_append.mp hhead).2
  rw [← forward_pos hfields.length_le] at hpad
  obtain ⟨hid', hwidth'⟩ := sees_append.mp hfields
  have halign : ((c.forward (vbrBits 8 id.toNat).length).forward (vbrBits 4 width).length).align =
      c.forward (headBits c.pos id width).length := by
    rw [forward_forward, ← List.length_append, align_of_sees hpad, forward_forward,
      forward_pos hfields.length_le, ← List.length_append]
    rfl
  have hmodify : (modify align : StreamReader PUnit)
      ((c.forward (vbrBits 8 id.toNat).length).forward (vbrBits 4 width).length) =
        .ok () (c.forward (headBits c.pos id width).length) :=
    congrArg (EStateM.Result.ok ()) halign
  rw [readBlockHeader, bind_of_ok (lift_of_ok (readVbr_of_sees (by omega) (by omega) hid hid')),
    if_neg (Nat.not_le.mpr id.toNat_lt),
    bind_of_ok (lift_of_ok (readVbr_of_sees (by omega) (by omega) hwidth hwidth')),
    if_neg (by omega), bind_of_ok hmodify,
    bind_of_ok (lift_of_ok (read_of_sees (Nat.le_refl 32) hlt hlength))]
  change EStateM.Result.ok _ _ = _
  rw [forward_forward, UInt32.ofNat_toNat, Cursor.word, hstart]
  rfl

end

/-! ## Runs -/

def Reader.after (r : Reader) (n : Nat) (events : List Event) : Reader :=
  { r with cursor := r.cursor.forward n, events := r.events ++ events.toArray }

@[simp] theorem Reader.after_cursor (r : Reader) (n : Nat) (events : List Event) :
    (r.after n events).cursor = r.cursor.forward n := rfl

theorem Reader.moveTo_emit (r : Reader) (n : Nat) (e : Event) :
    (r.moveTo (r.cursor.forward n)).emit e = r.after n [e] := by
  simp [moveTo, emit, after]

theorem Reader.moveTo_after (r : Reader) (m n : Nat) (events : List Event) :
    (r.moveTo (r.cursor.forward m)).after n events = r.after (m + n) events := by
  simp [moveTo, after]

theorem Reader.after_after (r : Reader) (m n : Nat) (es fs : List Event) :
    (r.after m es).after n fs = r.after (m + n) (es ++ fs) := by
  simp [after]

section

variable {policy : EntryPolicy} {h : BlockHeader} {inScope : List Abbreviation}
  {rest : List Frame} {r : Reader} {c : Cursor}

theorem run_record {record : Record}
    (hitem : readItem h.id h.width inScope r.cursor = .ok (.record (some record)) c) :
    run policy (⟨h, inScope⟩ :: rest) r =
      run policy (⟨h, inScope⟩ :: rest) ((r.moveTo c).emit (.record h.id record)) :=
  run_of_stepped (.recorded hitem)

theorem run_endBlock (hitem : readItem h.id h.width inScope r.cursor = .ok .endBlock c) :
    run policy (⟨h, inScope⟩ :: rest) r = run policy rest ((r.moveTo c).emit (.exit h.id)) :=
  run_of_stepped (.ended hitem)

theorem run_subBlock {inner : Frame} {r' : Reader} (hnest : h.mayNest)
    (hitem : readItem h.id h.width inScope r.cursor = .ok .subBlock c)
    (hin : enterBlock policy (h.level + 1) (r.moveTo c) = .ok (some inner) r') :
    run policy (⟨h, inScope⟩ :: rest) r = run policy (inner :: ⟨h, inScope⟩ :: rest) r' :=
  run_of_stepped (.opened hitem hnest (enterBlock_eq_ok.mp hin))

end

def Content.events : Content → (h : BlockHeader) → (pos : Nat) → List Event
  | finish, h, _ => [.exit h.id]
  | record r rest, h, pos =>
    .record h.id r :: rest.events h (pos + (recordBits h.width r).length)
  | block id width inner rest, h, pos =>
    let header := headerAt (pos + h.width) id width (h.level + 1) (inner.bits width)
    let size := (blockBits (pos + h.width) id width (inner.bits width)).length
    .enter header :: inner.events header (32 * header.start) ++
      rest.events h (pos + h.width + size)

/-- Reading content yields its events and goes on with the blocks around it. -/
def Content.Runs (content : Content) : Prop :=
  ∀ (h : BlockHeader) (inScope : List Abbreviation) (rest : List Frame) (r : Reader),
    content.wellFormed h.id → 2 ≤ h.width → h.width ≤ 32 →
    (content.bits h.width r.cursor.pos).length < 32 * UInt32.size →
    r.cursor.Sees (content.bits h.width r.cursor.pos) →
    run .all (⟨h, inScope⟩ :: rest) r =
      run .all rest (r.after (content.bits h.width r.cursor.pos).length
        (content.events h r.cursor.pos))

theorem legalBlock_iff {id : UInt32} {width : Nat} :
    legalBlock id width = true ↔ id ≠ 0 ∧ 2 ≤ width ∧ width ≤ 32 := by
  simp [legalBlock]

theorem enterBlock_of_sees {r : Reader} {id : UInt32} {width : Nat} {inner : Content} (level : Nat)
    (hruns : inner.Runs) (hlegal : legalBlock id width) (hwf : inner.wellFormed id)
    (hsize : (blockBits r.cursor.pos id width (inner.bits width)).length < 32 * UInt32.size)
    (h : r.cursor.Sees (blockBits r.cursor.pos id width (inner.bits width))) :
    let header := headerAt r.cursor.pos id width level (inner.bits width)
    ∃ frame r', enterBlock .all level r = .ok (some frame) r' ∧
      ∀ rest, run .all (frame :: rest) r' =
        run .all rest (r.after (blockBits r.cursor.pos id width (inner.bits width)).length
          (.enter header :: inner.events header (32 * header.start))) := by
  intro header
  obtain ⟨hid, hw, hw'⟩ := legalBlock_iff.mp hlegal
  obtain ⟨hstart, hcontent⟩ := contentStart_of_sees h
  have hlen := length_blockBits r.cursor.pos id width (inner.bits width)
  have hhead : contentStart r.cursor.pos id width =
    r.cursor.pos + (headBits r.cursor.pos id width).length + 32 := rfl
  have hne : header.id ≠ BlockKind.blockInfo.id := hid
  refine ⟨r.frame header,
    r.after ((headBits r.cursor.pos id width).length + 32) [.enter header], ?_, fun rest => ?_⟩
  · rw [enterBlock, readBlockHeader_of_sees level hw hw' (by omega) h]
    simp only [if_neg hne, EntryPolicy.all, if_true, Reader.moveTo_emit, header]
    rfl
  · have hrun := hruns header (r.abbreviationsFor header.id) rest
      (r.after ((headBits r.cursor.pos id width).length + 32) [.enter header]) hwf hw hw'
    rw [Reader.after_cursor, hstart, show header.width = width from rfl] at hrun
    rw [Reader.frame, hrun (by omega) hcontent, Reader.after_after,
      show 32 * header.start = _ from start_headerAt _ _ _ _ _]
    congr 2
    omega

theorem Content.runs (content : Content) : content.Runs := by
  induction content with
  | finish =>
    intro h inScope rest r hwf hw hw' hsize hsees
    rw [run_endBlock (readItem_end _ _ hw hw' hsees), Reader.moveTo_emit]
    rfl
  | record record next ih =>
    intro h inScope rest r hwf hw hw' hsize hsees
    rw [bits] at hsees hsize ⊢
    obtain ⟨hrec, hnext⟩ := sees_append.mp hsees
    rw [List.length_append] at hsize ⊢
    have hcount : record.operands.length < UInt64.size := by
      have := length_operands_le record
      simp only [recordBits_eq, List.length_append, UInt32.size, UInt64.size] at hsize ⊢
      omega
    rw [← forward_pos hrec.length_le] at hnext hsize
    have hrest := ih h inScope rest
      (r.after (recordBits h.width record).length [.record h.id record]) hwf hw hw'
    rw [Reader.after_cursor] at hrest
    rw [run_record (readItem_record _ _ hw hw' record hcount hrec), Reader.moveTo_emit,
      hrest (by omega) hnext, Reader.after_after, events, forward_pos hrec.length_le]
    rfl
  | block id width inner next ihinner ihnext =>
    intro h inScope rest r hwf hw hw' hsize hsees
    rw [wellFormed, Bool.and_eq_true, Bool.and_eq_true, Bool.and_eq_true] at hwf
    obtain ⟨⟨⟨hnest, hlegal⟩, hinner⟩, hnext⟩ := hwf
    rw [bits] at hsees hsize ⊢
    simp only [List.length_append, length_bitsOf] at hsize ⊢
    rw [sees_append, sees_append, length_bitsOf] at hsees
    obtain ⟨hid, hblock, hsees⟩ := hsees
    have hpos : (r.cursor.forward h.width).pos = r.cursor.pos + h.width :=
      forward_pos (by simpa using hid.length_le)
    rw [← hpos] at hblock hsees hsize
    have hblockSize : (blockBits (r.cursor.forward h.width).pos id width
      (inner.bits width)).length < 32 * UInt32.size := by omega
    -- Into the block and through its content, then on from behind it.
    obtain ⟨frame, r', henter, hrun⟩ := enterBlock_of_sees
      (r := r.moveTo (r.cursor.forward h.width)) (h.level + 1) ihinner hlegal hinner hblockSize
      hblock
    rw [run_subBlock (by simpa [BlockHeader.mayNest, canNest] using hnest)
      (readItem_subBlock _ _ hw hw' hid) henter, hrun, Reader.moveTo_after]
    have hrest := fun es => ihnext h inScope rest (r.after (h.width +
        (blockBits (r.cursor.forward h.width).pos id width (inner.bits width)).length) es)
      hnext hw hw'
    simp only [Reader.after_cursor, ← forward_forward] at hrest
    rw [← forward_pos hblock.length_le] at hsees hsize
    refine (hrest _ (by omega) hsees).trans ?_
    rw [Reader.after_after, forward_pos hblock.length_le, hpos, events, Nat.add_assoc]
    simp only [Reader.moveTo, hpos]

/-! ## Trees -/

theorem mul_toNat_ofNat_div {n : Nat} (h : 32 ∣ n) (hlt : n < 32 * UInt32.size) :
    32 * (UInt32.ofNat (n / 32)).toNat = n := by
  rw [UInt32.toNat_ofNat', Nat.mod_eq_of_lt (by simp only [UInt32.size] at hlt; omega)]
  omega

/-- The events of content close the innermost open block, with what the content describes added
to it. -/
theorem Content.foldl_events (content : Content) (h : BlockHeader) (pos : Nat)
    (hsize : (content.bits h.width pos).length < 32 * UInt32.size) :
    ∃ records blocks, content.Describes h.level records blocks ∧
      ∀ (b : OpenBlock) (stack : List OpenBlock) (root : Option Block),
        (content.events h pos).foldl TreeBuilder.add ⟨b :: stack, root⟩ =
          TreeBuilder.add ⟨⟨b.header, records.reverse ++ b.records, blocks.reverse ++ b.blocks⟩ ::
            stack, root⟩ (.exit h.id) := by
  induction content generalizing h pos with
  | finish => exact ⟨[], [], ⟨rfl, rfl⟩, fun b stack root => rfl⟩
  | record r rest ih =>
    rw [bits, List.length_append] at hsize
    obtain ⟨records, blocks, hdesc, hfold⟩ := ih h (pos + (recordBits h.width r).length) (by omega)
    refine ⟨r :: records, blocks, ⟨records, rfl, hdesc⟩, fun b stack root => ?_⟩
    rw [events, List.foldl_cons, TreeBuilder.add, hfold]
    simp
  | block id width inner rest ihinner ihrest =>
    simp only [bits, List.length_append, length_bitsOf] at hsize
    have hlen := length_blockBits (pos + h.width) id width (inner.bits width)
    have hhead : contentStart (pos + h.width) id width =
      pos + h.width + (headBits (pos + h.width) id width).length + 32 := rfl
    have hstart := start_headerAt (pos + h.width) id width (h.level + 1) (inner.bits width)
    obtain ⟨records, blocks, hdesc, hfold⟩ := ihinner
      (headerAt (pos + h.width) id width (h.level + 1) (inner.bits width))
      (contentStart (pos + h.width) id width) (by simp only [headerAt]; omega)
    obtain ⟨records', blocks', hdesc', hfold'⟩ := ihrest h
      (pos + h.width + (blockBits (pos + h.width) id width (inner.bits width)).length) (by omega)
    have hdvd : 32 ∣ (inner.bits width (contentStart (pos + h.width) id width)).length := by
      have := dvd_contentStart (pos + h.width) id width
      have := inner.dvd_length_bits width (contentStart (pos + h.width) id width)
      omega
    refine ⟨records', .mk (headerAt (pos + h.width) id width (h.level + 1) (inner.bits width))
      records blocks :: blocks', ⟨_, _, rfl, rfl, rfl, rfl, ?_, hdesc, hdesc'⟩,
      fun b stack root => ?_⟩
    · rw [Block.header, hstart]
      exact mul_toNat_ofNat_div hdvd (by omega)
    · rw [events, hstart, List.foldl_append, List.foldl_cons, TreeBuilder.add, hfold,
        TreeBuilder.add, hfold']
      simp [OpenBlock.close]

/-! ## Streams -/

theorem BlockTree.length_words (t : BlockTree) (magic : UInt32) :
    32 * (t.words magic).length = (t.bits magic).length := by
  have hlen := length_blockBits 34 t.id t.width (t.content.bits t.width)
  have := t.content.dvd_length_bits t.width (contentStart 34 t.id t.width)
  simp only [words, length_wordsOfBits, bits, List.length_append, length_bitsOf]
  omega

theorem BlockTree.sees_words (t : BlockTree) (magic : UInt32) :
    let words := (t.words magic).toArray
    words.getD 0 0 = magic ∧ (words.getD 1 0).toNat % 4 = 1 ∧
      ((Cursor.start words).forward 34).Sees
        (blockBits 34 t.id t.width (t.content.bits t.width)) := by
  intro words
  have hsees : (Cursor.start words).Sees (t.bits magic) := sees_wordsOfBits _
  rw [bits, sees_append, sees_append, length_bitsOf, length_bitsOf, forward_forward] at hsees
  obtain ⟨hmagic, hopen, hblock⟩ := hsees
  have hpos : ((Cursor.start words).forward 32).pos = 32 := by
    rw [forward_pos (by simpa using hmagic.length_le)]
    rfl
  have hfirst : (words.getD 0 0).toNat % Nat.pow 2 32 = magic.toNat := by
    rw [← hmagic.field_eq (Nat.le_refl 32) magic.toNat_lt]
    exact (field_of_dvd words (Nat.le_refl 32) (Nat.dvd_zero 32)).symm
  have hsecond := hopen.field_eq (by omega) (by decide)
  rw [hpos, field_of_dvd _ (by omega) (by decide)] at hsecond
  rw [Nat.mod_eq_of_lt (UInt32.toNat_lt _)] at hfirst
  exact ⟨UInt32.toNat_inj.mp hfirst, hsecond, hblock⟩

theorem BlockTree.readSubBlock_words (t : BlockTree) (magic : UInt32) (hwf : t.wellFormed)
    (hsize : (t.words magic).length < UInt32.size) :
    let cursor := (Cursor.start (t.words magic).toArray).forward 34
    let header := headerAt 34 t.id t.width 0 (t.content.bits t.width)
    readSubBlock .all 0 { cursor } = .ok ()
      (Reader.after { cursor } (blockBits 34 t.id t.width (t.content.bits t.width)).length
        (.enter header :: t.content.events header (contentStart 34 t.id t.width))) := by
  intro cursor header
  have hblock : cursor.Sees _ := (t.sees_words magic).2.2
  have hlen := t.length_words magic
  have hbits : (t.bits magic).length =
      34 + (blockBits 34 t.id t.width (t.content.bits t.width)).length := by
    simp only [bits, List.length_append, length_bitsOf]
    omega
  have hpos : cursor.pos = 34 := by
    rw [forward_pos (by simp only [left, Cursor.start, List.size_toArray]; omega)]
    rfl
  rw [wellFormed, Bool.and_eq_true] at hwf
  rw [← hpos] at hblock hbits
  obtain ⟨frame, r', henter, hrun⟩ := enterBlock_of_sees (r := { cursor }) 0 t.content.runs hwf.1
    hwf.2 (by simp only; omega) hblock
  rw [readSubBlock, henter]
  simp only [hrun]
  rw [run, hpos, start_headerAt]

def BlockTree.events (t : BlockTree) : List Event :=
  let header := headerAt 34 t.id t.width 0 (t.content.bits t.width)
  .enter header :: t.content.events header (contentStart 34 t.id t.width)

theorem BlockTree.visitWords_words (t : BlockTree) (magic : UInt32) (hwf : t.wellFormed)
    (hsize : (t.words magic).length < UInt32.size) :
    ∃ c : Cursor, c.word = (t.words magic).length ∧
      visitWords .all (t.words magic).toArray = (t.events.toArray, .ok c) := by
  have hopen := (t.sees_words magic).2.1
  have hread := t.readSubBlock_words magic hwf hsize
  have hlen := t.length_words magic
  have htwo : 2 ≤ (t.words magic).length := by
    simp only [bits, List.length_append, length_bitsOf] at hlen
    omega
  have hfirst : (t.words magic).toArray[1]? = some ((t.words magic).toArray.getD 1 0) := by
    simp [Array.getD, show 1 < (t.words magic).length by omega]
  have hat : Cursor.at? (t.words magic).toArray 1 2 =
      some ((Cursor.start (t.words magic).toArray).forward 34) := by
    rw [Cursor.at?, dif_pos (by simp only [List.size_toArray]; omega)]
    congr 1
    refine Cursor.ext rfl ?_
    simp only [forward, Cursor.start, List.size_toArray]
    omega
  refine ⟨((Cursor.start (t.words magic).toArray).forward 34).forward
    (blockBits 34 t.id t.width (t.content.bits t.width)).length, ?_, ?_⟩
  · have hbits : (t.bits magic).length =
        34 + (blockBits 34 t.id t.width (t.content.bits t.width)).length := by
      simp only [bits, List.length_append, length_bitsOf]
      omega
    simp only [word, forward, Cursor.start, List.size_toArray]
    omega
  · simp only [visitWords, hfirst, hopen, hat, hread]
    simp [Reader.after, events]

theorem BlockTree.ofEvents?_events (t : BlockTree)
    (hsize : (t.content.bits t.width (contentStart 34 t.id t.width)).length < 32 * UInt32.size) :
    ∃ root, Block.ofEvents? t.events.toArray = some root ∧ t.Describes root := by
  obtain ⟨records, blocks, hdesc, hfold⟩ := t.content.foldl_events
    (headerAt 34 t.id t.width 0 (t.content.bits t.width)) (contentStart 34 t.id t.width) hsize
  have hstart := start_headerAt 34 t.id t.width 0 (t.content.bits t.width)
  have hdvd : 32 ∣ (t.content.bits t.width (contentStart 34 t.id t.width)).length := by
    have := dvd_contentStart 34 t.id t.width
    have := t.content.dvd_length_bits t.width (contentStart 34 t.id t.width)
    omega
  refine ⟨.mk (headerAt 34 t.id t.width 0 (t.content.bits t.width)) records blocks, ?_,
    rfl, rfl, rfl, ?_, hdesc⟩
  · rw [Block.ofEvents?, List.foldl_toArray, events, List.foldl_cons, TreeBuilder.add, hfold]
    simp [TreeBuilder.add, OpenBlock.close]
  · rw [Block.header, hstart]
    exact mul_toNat_ofNat_div hdvd hsize

/-- Reading a written tree of blocks succeeds, takes back the tree and ends with the last word. -/
theorem BlockTree.ofBytes_bytes (t : BlockTree) (magic : UInt32) (hwf : t.wellFormed)
    (hsize : (t.words magic).length < UInt32.size) :
    ∃ root, Bitcode.ofBytes (t.bytes magic) =
        .ok ⟨magic, root, (t.words magic).length, (t.words magic).length⟩ ∧ t.Describes root := by
  obtain ⟨c, hend, hvisit⟩ := t.visitWords_words magic hwf hsize
  have hlen := t.length_words magic
  have hblock := length_blockBits 34 t.id t.width (t.content.bits t.width)
  simp only [bits, List.length_append, length_bitsOf] at hlen
  have hstart : 34 ≤ contentStart 34 t.id t.width := by
    simp only [contentStart]
    omega
  obtain ⟨root, hroot, hdesc⟩ := t.ofEvents?_events (by omega)
  refine ⟨root, ?_, hdesc⟩
  rw [Bitcode.ofBytes, bytes, wordsOfBytes_bytesOfWord, Bitcode.ofWords, hvisit]
  simp only [hroot, hend, (t.sees_words magic).1, List.size_toArray]

/-- A module with a record, a function that has a metadata block between two records, and an empty
constants block. -/
theorem BlockTree.ofBytes_bytes_nested :
    let t : BlockTree := ⟨8, 3, .record ⟨1, [0, 2000]⟩
      (.block 12 32 (.record ⟨7, []⟩ (.block 15 2 .finish (.record ⟨2, [1]⟩ .finish)))
        (.block 11 4 .finish .finish))⟩
    (t.wellFormed ∧ (t.words bitcodeMagic).length < UInt32.size) ∧
      ∃ root, Bitcode.ofBytes (t.bytes bitcodeMagic) = .ok ⟨bitcodeMagic, root,
        (t.words bitcodeMagic).length, (t.words bitcodeMagic).length⟩ ∧ t.Describes root := by
  intro t
  have hwf : t.wellFormed := by decide
  have hsize : (t.words bitcodeMagic).length < UInt32.size := by decide +kernel
  exact ⟨⟨hwf, hsize⟩, BlockTree.ofBytes_bytes t bitcodeMagic hwf hsize⟩

end Dxil
