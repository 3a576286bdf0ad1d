import Dxil.Proofs.Stream.Skipping
import Dxil.Proofs.Stream.Widths

/-!
# Dxil.Proofs.Stream.Progress

Reading a block comes to an end on every stream, for each item takes up bits. There are no more
events than bits.

* `turn` : one turn of the loop over the items of a block, in which a nested block is read whole.
* `Loops` : a loop whose turns use up bits, unless they are the last.
* `Advances.readAbbreviation` : definitions take up bits for each of their operands.
* `ReachedIn` and `EndsWithin` : the moves of a reading, counted.
* `Moves.left_lt` : a move uses up bits. From it follow the bounds on moves and on events.
* `reading_terminates` : blocks, block info and whole streams.
-/

namespace Dxil

/-! ## Turns of a loop -/

/-- `loop` repeats `body` until it gives nothing to go on with. A turn after which it goes on uses
up bits. -/
structure Loops {α : Type} (body : α → EStateM StreamError Reader (Option α))
    (loop : α → EStateM StreamError Reader Unit) : Prop where
  unroll : ∀ a r, loop a r = (body a >>= fun next => next.elim (pure ()) loop) r
  left_lt : ∀ a a' r r', body a r = .ok (some a') r' → r'.cursor.left < r.cursor.left

/-- What an item of a block comes to: the block to go on with, none at its end. A nested block is
read whole. -/
def turnItem (policy : EntryPolicy) (frame : Frame) :
    Item → EStateM StreamError Reader (Option Frame)
  | .endBlock => do
    emit (.exit frame.header.id)
    pure none
  | .subBlock =>
    if frame.header.mayNest then do
      readSubBlock policy (frame.header.level + 1)
      pure (some frame)
    else throw (.childNotAllowed frame.header.id)
  | .define a => pure (some { frame with inScope := frame.inScope ++ [a] })
  | .record none => pure (some frame)
  | .record (some record) => do
    emit (.record frame.header.id record)
    pure (some frame)

def turn (policy : EntryPolicy) (frame : Frame) : EStateM StreamError Reader (Option Frame) := do
  let item ← onCursor (readItem frame.header.id frame.header.width frame.inScope)
  turnItem policy frame item

section

variable {policy : EntryPolicy} {frame frame' : Frame} {level : Nat} {r r' : Reader}

theorem left_of_readSubBlock (h : readSubBlock policy level r = .ok () r') :
    r'.cursor.left ≤ r.cursor.left := by
  rw [readSubBlock_eq] at h
  obtain ⟨opened, r₁, henter, hrun⟩ := exists_of_bind_ok h
  exact Nat.le_trans (left_of_run hrun) (Nat.le_of_lt (left_of_enterBlock henter))

theorem runM_singleton (policy : EntryPolicy) (frame : Frame) (r : Reader) :
    runM policy [frame] r =
      (turn policy frame >>= fun next =>
        next.elim (pure ()) fun frame => runM policy [frame]) r := by
  have hrun : runM policy [frame] r = (step policy frame [] >>= runM policy) r :=
    run_cons policy frame [] r
  rw [hrun, step, turn, bind_assoc, bind_assoc]
  cases hitem : onCursor (readItem frame.header.id frame.header.width frame.inScope) r with
  | error e r₁ => rw [bind_of_error hitem, bind_of_error hitem]
  | ok item r₁ =>
    rw [bind_of_ok hitem, bind_of_ok hitem]
    cases item with
    | endBlock => exact run_nil
    | subBlock =>
      simp only [applyItem, turnItem]
      split
      · -- The nested block is read first, and then what is left of this one.
        rw [bind_assoc, bind_assoc, bind_of_eq (readSubBlock_eq _ _ _), bind_assoc]
        refine congrArg (fun f => (enterBlock policy (frame.header.level + 1) >>= f) r₁) ?_
        funext opened r₂
        refine Eq.trans ?_ (runM_append policy opened.toList [frame] r₂)
        cases opened <;> rfl
      · rfl
    | define a => rfl
    | record record => cases record <;> rfl

theorem left_lt_of_turn (h : turn policy frame r = .ok (some frame') r') :
    r'.cursor.left < r.cursor.left := by
  obtain ⟨item, r₁, hread, h⟩ := exists_of_bind_ok h
  obtain ⟨c, hitem, rfl⟩ := of_onCursor_ok hread
  have hlt := (left_of_readItem hitem).2
  cases item with
  | endBlock => cases h
  | subBlock =>
    simp only [turnItem] at h
    split at h
    · obtain ⟨_, r₂, hnested, h⟩ := exists_of_bind_ok h
      cases h
      exact Nat.lt_of_le_of_lt (left_of_readSubBlock hnested) (hlt (by simp))
    · cases h
  | define a =>
    cases h
    exact hlt (by simp)
  | record record =>
    cases record <;> cases h <;> exact hlt (by simp)

end

theorem loops_turn (policy : EntryPolicy) :
    Loops (turn policy) fun frame => runM policy [frame] :=
  ⟨runM_singleton policy, fun _ _ _ _ => left_lt_of_turn⟩

theorem loops_infoStep (header : BlockHeader) :
    Loops (infoStep header) (readBlockInfoItems header) := by
  constructor
  · intro selected r
    rw [readBlockInfoItems_eq]
    refine congrArg (fun f => (infoStep header selected >>= f) r) ?_
    funext next
    cases next <;> rfl
  · intro selected next r r' hstep
    exact (infoStep_eq_ok.mp hstep).left_lt

/-! ## Operands of definitions -/

namespace Advances

variable {α β : Type} {x : StreamReader α} {m n : Nat}

theorem mono (hx : Advances x n) (h : m ≤ n) : Advances x m :=
  fun c a c' hread => Nat.le_trans (Nat.add_le_add_left h _) (hx c a c' hread)

theorem throw (e : StreamError) : Advances (MonadExcept.throw e : StreamReader α) n := by
  intro c a c' h
  cases h

theorem map (hx : Advances x n) (f : α → β) : Advances (f <$> x) n := by
  rw [← bind_pure_comp]
  exact hx.bind fun a => .pure (f a)

theorem ofExcept (result : Except StreamError α) :
    Advances (MonadExcept.ofExcept result : StreamReader α) 0 := by
  cases result with
  | error e => exact .throw e
  | ok a => exact .pure a

theorem readAbbreviationOp : Advances Dxil.readAbbreviationOp 4 := by
  unfold Dxil.readAbbreviationOp
  refine (liftBits (read 1)).bind (n := 3) fun _ => ?_
  split
  · exact ((liftBits (readVbr 8)).bind fun _ => .pure _).mono (by decide)
  · refine (liftBits (read 3)).bind (n := 0) fun _ => ?_
    split
    · exact ((liftBits (readVbr 5)).bind fun _ => (ofExcept _).map _).mono (by decide)
    · exact ((liftBits (readVbr 5)).bind fun _ => (ofExcept _).map _).mono (by decide)
    · exact .pure _
    · exact .pure _
    · exact .pure _
    · exact .throw _

theorem readElement : Advances Dxil.readElement 4 := by
  refine readAbbreviationOp.bind (n := 0) fun op => ?_
  split
  · exact .throw _
  · exact .pure _
  · exact .throw _

theorem readAbbreviation (count : Nat) : Advances (Dxil.readAbbreviation count) (4 * count) := by
  induction count with
  | zero => exact .pure _
  | succ count ih =>
    rw [show 4 * (count + 1) = 4 + 4 * count by omega]
    refine readAbbreviationOp.bind fun op => ?_
    split
    · exact ih.bind fun _ => .pure _
    · split
      · -- The element is the other operand.
        exact (readElement.bind fun _ => .pure _).mono (by omega)
      · exact .throw _
    · split
      · exact Advances.mono (.pure _) (by omega)
      · exact .throw _

theorem left_le {c c' : Cursor} {a : α} (hx : Advances x n)
    (hlocal : Local (.bits .bufferOverflow) x) (h : x c = .ok a c') :
    n + c'.left ≤ c.left := by
  have hwords : c'.words = c.words := (hlocal c a c' h).words
  have hpos := hx c a c' h
  have hle := c'.pos_le
  rw [hwords] at hle
  simp only [Cursor.left, hwords]
  omega

end Advances

theorem left_lt_of_readAbbreviationOp {op : AbbreviationOp} {c c' : Cursor}
    (h : readAbbreviationOp c = .ok op c') : c'.left < c.left := by
  have hle := Advances.readAbbreviationOp.left_le .readAbbreviationOp h
  omega

/-! ## Moves use up bits -/

/-- In every block that was entered, abbreviation ids take up bits. -/
def Place.Wide (p : Place) : Prop := ∀ header ∈ p.headers, 1 ≤ header.width

section

variable {policy : EntryPolicy} {p p' p₀ : Place} {r r' r₀ : Reader} {e : StreamError} {n : Nat}

theorem left_lt_of_readItem {block : UInt32} {width : Nat} {inScope : List Abbreviation} {i : Item}
    {c c' : Cursor} (hwidth : 1 ≤ width) (h : readItem block width inScope c = .ok i c') :
    c'.left < c.left := by
  obtain ⟨id, c₁, hid, h⟩ := exists_of_bind_ok h
  obtain ⟨-, hleft, -, rfl⟩ := Cursor.of_read_ok (of_lift_ok hid)
  refine Nat.lt_of_le_of_lt (Shortens.itemOfId block inScope id _ _ _ h) ?_
  simp only [Cursor.left, Cursor.advance] at hleft ⊢
  omega

theorem Moves.wide (h : Moves policy p r p' r') (hp : p.Wide) : p'.Wide := by
  cases h with
  | informed hheader | entered hheader =>
    exact List.forall_mem_cons.mpr ⟨((Avoids.readBlockHeader _).result hheader).1, hp⟩
  | infoEnded | ended => exact (List.forall_mem_cons.mp hp).2
  | skipped | info | nested | defined | nothing | recorded => exact hp

theorem Moves.left_lt (h : Moves policy p r p' r') (hp : p.Wide) :
    r'.cursor.left < r.cursor.left := by
  cases h with
  | informed hheader | entered hheader => exact (left_lt_of_readBlockHeader hheader).1
  | skipped hheader _ _ hskip =>
    obtain ⟨hlt, hbit⟩ := left_lt_of_readBlockHeader hheader
    exact Nat.lt_of_le_of_lt (Cursor.left_le_of_skipWords hskip hbit) hlt
  | info hstep => exact hstep.left_lt
  | infoEnded hstep =>
    cases hstep with
    | ended hitem => exact left_lt_of_readItem (List.forall_mem_cons.mp hp).1 hitem
  | nested hitem | ended hitem | defined hitem | nothing hitem | recorded hitem =>
    exact left_lt_of_readItem (List.forall_mem_cons.mp hp).1 hitem

theorem Moves.events_le (h : Moves policy p r p' r') : r'.events.size ≤ r.events.size + 1 := by
  cases h with
  | info hstep | infoEnded hstep => cases hstep <;> exact Nat.le_succ _
  | informed | nested | defined | nothing => exact Nat.le_succ _
  | entered | skipped | ended | recorded => exact Nat.le_of_eq (Array.size_push _)

/-- A block that cannot be passed over was met all the same, but its header took up bits. -/
theorem Fails.events_le (h : Fails policy p r e r') :
    r'.events.size ≤ r.events.size + r.cursor.left := by
  cases h with
  | skip hheader =>
    have hlt := (left_lt_of_readBlockHeader hheader).1
    simp only [Reader.emit, Reader.moveTo, Array.size_push]
    omega
  | header | misplaced | infoItem | infoRefused | item | child => exact Nat.le_add_right _ _

/-! ## Counting the moves -/

inductive ReachedIn (policy : EntryPolicy) (p₀ : Place) (r₀ : Reader) :
    Nat → Place → Reader → Prop where
  | start : ReachedIn policy p₀ r₀ 0 p₀ r₀
  | next {n : Nat} {p p' : Place} {r r' : Reader} (h : ReachedIn policy p₀ r₀ n p r)
      (hmoves : Moves policy p r p' r') : ReachedIn policy p₀ r₀ (n + 1) p' r'

/-- A reading with `bound` bits ahead, each move of which takes one of them at the least. It ends
with `result`: all blocks have ended, or it fails where it has come to. -/
structure EndsWithin (policy : EntryPolicy) (bound : Nat) (p : Place) (r : Reader)
    (result : EStateM.Result StreamError Reader Unit) : Prop where
  bounded : ∀ n p' r', ReachedIn policy p r n p' r' → n + r'.cursor.left ≤ bound
  ends : Ending (fun r' => Reached policy p r (.within []) r')
    (fun e r' => ∃ p₁ r₁, Reached policy p r p₁ r₁ ∧ Fails policy p₁ r₁ e r') result

theorem ReachedIn.left_le (h : ReachedIn policy p₀ r₀ n p r) (h₀ : p₀.Wide) :
    p.Wide ∧ n + r.cursor.left ≤ r₀.cursor.left := by
  induction h with
  | start => exact ⟨h₀, Nat.le_of_eq (Nat.zero_add _)⟩
  | next _ hmoves ih =>
    have hlt := hmoves.left_lt ih.1
    exact ⟨hmoves.wide ih.1, by omega⟩

theorem endsWithin_finish (policy : EntryPolicy) (hp : p.Wide) (r : Reader) :
    EndsWithin policy r.cursor.left p r (finish policy p r) :=
  ⟨fun _ _ _ hreached => (hreached.left_le hp).2, ending_reached policy p r⟩

/-! ## Events -/

/-- The events so far and the bits ahead come to `budget` at most. -/
structure Spends (budget : Nat) (p : Place) (r : Reader) : Prop where
  wide : p.Wide
  events : r.events.size + r.cursor.left ≤ budget

theorem Moves.spends {budget : Nat} (h : Moves policy p r p' r') (hp : Spends budget p r) :
    Spends budget p' r' := by
  have hlt := h.left_lt hp.wide
  have hevents := h.events_le
  have hbudget := hp.events
  exact ⟨h.wide hp.wide, by omega⟩

theorem events_finish_le (policy : EntryPolicy) (hp : p.Wide) (r : Reader) :
    (finalState (finish policy p r)).events.size ≤ r.events.size + r.cursor.left := by
  have hstart : Spends (r.events.size + r.cursor.left) p r := ⟨hp, Nat.le_refl _⟩
  have hend := ending_finish (I := Spends (r.events.size + r.cursor.left))
    (E := fun _ r' => r'.events.size ≤ r.events.size + r.cursor.left) policy hstart
    (fun _ _ _ _ hmoves => hmoves.spends)
    (fun _ _ _ _ hfails h => Nat.le_trans hfails.events_le h.events)
  cases hfinish : finish policy p r with
  | ok u r' =>
    rw [hfinish] at hend
    exact Nat.le_trans (Nat.le_add_right _ _) hend.events
  | error e r' =>
    rw [hfinish] at hend
    exact hend

end

theorem events_visitWords_le (policy : EntryPolicy) (words : Array UInt32) :
    (visitWords policy words).1.size ≤ 32 * words.size := by
  unfold visitWords
  split
  · exact Nat.zero_le _
  split
  · exact Nat.zero_le _
  split
  · exact Nat.zero_le _
  rename_i cursor hat
  have hstart : (Place.opening 0 []).Wide := by simp [Place.Wide, Place.headers]
  have hle := events_finish_le policy hstart { cursor }
  have hleft : cursor.left ≤ 32 * words.size := by
    rw [← Cursor.words_of_at? hat]
    exact Nat.sub_le _ _
  rw [← readSubBlock_eq_finish] at hle
  cases hread : readSubBlock policy 0 { cursor } with
  | ok u r | error e r =>
    rw [hread] at hle
    exact Nat.le_trans hle (Nat.le_trans (Nat.le_of_eq (Nat.zero_add _)) hleft)

/-- Reading comes to an end on every stream, under every policy.

The content of a block and of block info is read in no more moves than there are bits ahead, nested
blocks included, if the ids in the block take up bits. Each turn of the two loops uses up bits,
unless it is the last, and so does each operand of a definition, however many it announces. A
stream makes no more events than it has bits. -/
theorem reading_terminates (policy : EntryPolicy) :
    (∀ (header : BlockHeader) (r : Reader), 1 ≤ header.width →
      EndsWithin policy r.cursor.left (.within [r.frame header]) r (readBlock policy header r) ∧
      if header.level ≤ 1 then
        EndsWithin policy r.cursor.left (.info header none []) r (readBlockInfo header r)
      else readBlockInfo header r = .error (.misplacedBlockInfo header.level) r) ∧
    Loops (turn policy) (fun frame => runM policy [frame]) ∧
    (∀ header, Loops (infoStep header) (readBlockInfoItems header)) ∧
    (∀ op c c', readAbbreviationOp c = .ok op c' → c'.left < c.left) ∧
    (∀ count a c c', readAbbreviation count c = .ok a c' → 4 * count + c'.left ≤ c.left) ∧
    ∀ bytes, (visit policy bytes).1.size ≤ 32 * (wordsOfBytes bytes).length := by
  refine ⟨?_, loops_turn policy, loops_infoStep, fun _ _ _ => left_lt_of_readAbbreviationOp,
    fun count _ _ _ => (Advances.readAbbreviation count).left_le (.readAbbreviation count),
    fun bytes => events_visitWords_le policy _⟩
  intro header r hwidth
  have hblock : (Place.within [r.frame header]).Wide := List.forall_mem_singleton.mpr hwidth
  have hinfo : (Place.info header none []).Wide := List.forall_mem_singleton.mpr hwidth
  refine ⟨endsWithin_finish policy hblock r, ?_⟩
  split
  · rename_i hlevel
    rw [readBlockInfo_eq_finish policy r hlevel]
    exact endsWithin_finish policy hinfo r
  · rename_i hlevel
    rw [readBlockInfo, if_pos (by omega)]

/-- A module with block info and a nested block, from its first item on. -/
theorem reading_terminates_nested :
    let words : List UInt32 := [0xdec04342, 0xc21, 0xd, 0x1001, 0x3, 0x18a44107, 0x48389020, 0x218,
      0xa080312, 0x1e, 0x6224, 0x3, 0x2c, 0x0, 0x0, 0x0]
    let bytes := words.flatMap bytesOfWord
    let header : BlockHeader := ⟨8, 3, 3, 13, 0⟩
    let r : Reader := { cursor := ⟨words.toArray, 96, by decide⟩ }
    1 ≤ header.width ∧
      EndsWithin .all 416 (.within [r.frame header]) r (readBlock .all header r) ∧
      (finalState (readBlock .all header r)).events.size = 5 ∧
      (visit .all bytes).1.size = 6 ∧ (visit .all bytes).1.size ≤ 32 * 16 := by
  intro words bytes header r
  obtain ⟨hblocks, -, -, -, -, hevents⟩ := reading_terminates .all
  exact ⟨by decide, (hblocks header r (by decide)).1, by decide +kernel, by decide +kernel,
    hevents bytes⟩

end Dxil
