import Dxil.Proofs.Stream.Run

/-!
# Dxil.Proofs.Stream.Moves

Reading as a machine that goes from item to item, through block info as through any other block.
What every move keeps holds wherever the reading comes by and when it ends, well or not.

* `Place` : where a reading is. `finish` is what is left of it from there.
* `Moves` and `Fails` : everything that one item or header can come to.
* `moves_or_fails` : there is always one of them, until all blocks have ended.
* `Reached` : the places that a reading comes by.
* `Ending` and `ending_finish` : an invariant of the moves, at the end of the reading.
-/

namespace Dxil

@[simp]
theorem Reader.abbreviationsFor_moveTo (r : Reader) (c : Cursor) (id : UInt32) :
    (r.moveTo c).abbreviationsFor id = r.abbreviationsFor id := rfl

@[simp]
theorem Reader.abbreviationsFor_register (r : Reader) (id id' : UInt32) (a : Abbreviation) :
    (r.register id a).abbreviationsFor id' =
      r.abbreviationsFor id' ++ if id = id' then [a] else [] := by
  by_cases h : id = id' <;> simp [Reader.register, Reader.abbreviationsFor, h]

theorem of_readBlockHeader_ok {level : Nat} {header : BlockHeader} {c c' : Cursor}
    (h : readBlockHeader level c = .ok header c') :
    header.level = level ∧ header.start = c'.word := by
  obtain ⟨id, c₁, -, h⟩ := exists_of_bind_ok h
  split at h
  · cases h
  obtain ⟨width, c₂, -, h⟩ := exists_of_bind_ok h
  split at h
  · cases h
  obtain ⟨_, c₃, -, h⟩ := exists_of_bind_ok h
  obtain ⟨length, c₄, -, h⟩ := exists_of_bind_ok h
  cases h
  exact ⟨rfl, rfl⟩

/-- Where a reading is, inside the blocks of `stack`, innermost first. -/
inductive Place where
  /-- In front of the header of a block. -/
  | opening (level : Nat) (stack : List Frame)
  /-- In block info, with the block that is selected. -/
  | info (header : BlockHeader) (selected : Option UInt32) (stack : List Frame)
  /-- In front of an item of the innermost block. Without one the reading is over. -/
  | within (stack : List Frame)

/-- What is left of a reading. -/
def finish (policy : EntryPolicy) : Place → EStateM StreamError Reader Unit
  | .opening level stack => do
    let opened ← enterBlock policy level
    runM policy (opened.toList ++ stack)
  | .info header selected stack => do
    infoRest header (some selected)
    runM policy stack
  | .within stack => runM policy stack

/-! ## One header or item -/

section

variable (policy : EntryPolicy)

/-- The ways to go on. -/
inductive Moves : Place → Reader → Place → Reader → Prop where
  | informed {level : Nat} {stack : List Frame} {r : Reader} {header : BlockHeader} {c : Cursor}
      (hheader : readBlockHeader level r.cursor = .ok header c)
      (hid : header.id = BlockKind.blockInfo.id) (hlevel : header.level ≤ 1) :
      Moves (.opening level stack) r (.info header none stack) (r.moveTo c)
  | entered {level : Nat} {stack : List Frame} {r : Reader} {header : BlockHeader} {c : Cursor}
      (hheader : readBlockHeader level r.cursor = .ok header c)
      (hid : header.id ≠ BlockKind.blockInfo.id) (hpolicy : policy r.events header = true) :
      Moves (.opening level stack) r (.within (r.frame header :: stack))
        ((r.moveTo c).emit (.enter header))
  | skipped {level : Nat} {stack : List Frame} {r : Reader} {header : BlockHeader} {c c' : Cursor}
      (hheader : readBlockHeader level r.cursor = .ok header c)
      (hid : header.id ≠ BlockKind.blockInfo.id) (hpolicy : policy r.events header = false)
      (hskip : Cursor.skipWords header.length.toNat c = .ok () c') :
      Moves (.opening level stack) r (.within stack) ((r.moveTo c').emit (.enter header))
  | info {header : BlockHeader} {selected next : Option UInt32} {stack : List Frame}
      {r r' : Reader} (hstep : InfoStepped header selected r (some next) r') :
      Moves (.info header selected stack) r (.info header next stack) r'
  | infoEnded {header : BlockHeader} {selected : Option UInt32} {stack : List Frame}
      {r r' : Reader} (hstep : InfoStepped header selected r none r') :
      Moves (.info header selected stack) r (.within stack) r'
  | nested {frame : Frame} {rest : List Frame} {r : Reader} {c : Cursor}
      (hitem : readItem frame.header.id frame.header.width frame.inScope r.cursor =
        .ok .subBlock c) (hnest : frame.header.mayNest) :
      Moves (.within (frame :: rest)) r (.opening (frame.header.level + 1) (frame :: rest))
        (r.moveTo c)
  | ended {frame : Frame} {rest : List Frame} {r : Reader} {c : Cursor}
      (hitem : readItem frame.header.id frame.header.width frame.inScope r.cursor =
        .ok .endBlock c) :
      Moves (.within (frame :: rest)) r (.within rest)
        ((r.moveTo c).emit (.exit frame.header.id))
  | defined {frame : Frame} {rest : List Frame} {r : Reader} {a : Abbreviation} {c : Cursor}
      (hitem : readItem frame.header.id frame.header.width frame.inScope r.cursor =
        .ok (.define a) c) :
      Moves (.within (frame :: rest)) r
        (.within ({ frame with inScope := frame.inScope ++ [a] } :: rest)) (r.moveTo c)
  | nothing {frame : Frame} {rest : List Frame} {r : Reader} {c : Cursor}
      (hitem : readItem frame.header.id frame.header.width frame.inScope r.cursor =
        .ok (.record none) c) :
      Moves (.within (frame :: rest)) r (.within (frame :: rest)) (r.moveTo c)
  | recorded {frame : Frame} {rest : List Frame} {r : Reader} {record : Record} {c : Cursor}
      (hitem : readItem frame.header.id frame.header.width frame.inScope r.cursor =
        .ok (.record (some record)) c) :
      Moves (.within (frame :: rest)) r (.within (frame :: rest))
        ((r.moveTo c).emit (.record frame.header.id record))

def Record.selects? (r : Record) : Option UInt32 :=
  if r.code = 1 then r.operands.head?.map UInt64.toUInt32 else none

def Item.refusal (block : UInt32) (selected : Option UInt32) : Item → Option StreamError
  | .subBlock => some (.childNotAllowed block)
  | .define _ =>
    match selected with
    | none => some .noBlockSelected
    | some id => if id = BlockKind.module.id then some .moduleAbbreviation else none
  | .record (some r) =>
    if r.code = 1 ∧ r.operands = [] then some (.invalidBlockInfoRecord r.code) else none
  | _ => none

/-- The ways to fail. -/
inductive Fails : Place → Reader → StreamError → Reader → Prop where
  | header {level : Nat} {stack : List Frame} {r : Reader} {e : StreamError} {c : Cursor}
      (hheader : readBlockHeader level r.cursor = .error e c) :
      Fails (.opening level stack) r e (r.moveTo c)
  | misplaced {level : Nat} {stack : List Frame} {r : Reader} {header : BlockHeader} {c : Cursor}
      (hheader : readBlockHeader level r.cursor = .ok header c)
      (hid : header.id = BlockKind.blockInfo.id) (hlevel : 1 < header.level) :
      Fails (.opening level stack) r (.misplacedBlockInfo header.level) (r.moveTo c)
  | skip {level : Nat} {stack : List Frame} {r : Reader} {header : BlockHeader} {e : BitError}
      {c c' : Cursor} (hheader : readBlockHeader level r.cursor = .ok header c)
      (hid : header.id ≠ BlockKind.blockInfo.id) (hpolicy : policy r.events header = false)
      (hskip : Cursor.skipWords header.length.toNat c = .error e c') :
      Fails (.opening level stack) r (.bits e) ((r.moveTo c').emit (.enter header))
  | infoItem {header : BlockHeader} {selected : Option UInt32} {stack : List Frame} {r : Reader}
      {e : StreamError} {c : Cursor}
      (hitem : readItem header.id header.width (r.abbreviationsFor header.id) r.cursor =
        .error e c) :
      Fails (.info header selected stack) r e (r.moveTo c)
  | infoRefused {header : BlockHeader} {selected : Option UInt32} {stack : List Frame}
      {r : Reader} {item : Item} {e : StreamError} {c : Cursor}
      (hitem : readItem header.id header.width (r.abbreviationsFor header.id) r.cursor =
        .ok item c) (hrefused : item.refusal header.id selected = some e) :
      Fails (.info header selected stack) r e (r.moveTo c)
  | item {frame : Frame} {rest : List Frame} {r : Reader} {e : StreamError} {c : Cursor}
      (hitem : readItem frame.header.id frame.header.width frame.inScope r.cursor =
        .error e c) :
      Fails (.within (frame :: rest)) r e (r.moveTo c)
  | child {frame : Frame} {rest : List Frame} {r : Reader} {c : Cursor}
      (hitem : readItem frame.header.id frame.header.width frame.inScope r.cursor =
        .ok .subBlock c) (hnest : frame.header.mayNest = false) :
      Fails (.within (frame :: rest)) r (.childNotAllowed frame.header.id) (r.moveTo c)

end

section

variable {policy : EntryPolicy} {p p' : Place} {r r' : Reader} {e : StreamError}

theorem infoRest_of_stepped {header : BlockHeader} {selected : Option UInt32}
    {next : Option (Option UInt32)} (h : InfoStepped header selected r next r') :
    infoRest header (some selected) r = infoRest header next r' :=
  (readBlockInfoItems_eq header selected r).trans (bind_of_ok (infoStep_eq_ok.mpr h))

theorem readBlockInfo_eq {header : BlockHeader} (h : header.level ≤ 1) :
    readBlockInfo header r = infoRest header (some none) r := by
  rw [readBlockInfo, if_neg (by omega)]
  rfl

/-- A move is the beginning of what is left. -/
theorem finish_of_moves (h : Moves policy p r p' r') : finish policy p r = finish policy p' r' := by
  cases h with
  | @informed level stack _ header c hheader hid hlevel =>
    have hbegin := readBlockInfo_eq (r := r.moveTo c) hlevel
    cases hrest : infoRest header (some none) (r.moveTo c) with
    | error e r' =>
      have henter : enterBlock policy level r = .error e r' := by
        rw [enterBlock_eq, bind_of_ok (onCursor_of_ok hheader), enterWith, if_pos hid,
          bind_of_error (hbegin.trans hrest)]
      exact (bind_of_error henter).trans (bind_of_error hrest).symm
    | ok u r' =>
      have henter : enterBlock policy level r = .ok none r' :=
        enterBlock_eq_ok.mpr (.info hheader hid (hbegin.trans hrest))
      exact (bind_of_ok henter).trans (bind_of_ok (f := fun _ => runM policy stack) hrest).symm
  | entered hheader hid hpolicy =>
    exact bind_of_ok (enterBlock_eq_ok.mpr (.opened hheader hid hpolicy))
  | skipped hheader hid hpolicy hskip =>
    exact bind_of_ok (enterBlock_eq_ok.mpr (.skipped hheader hid hpolicy hskip))
  | info hstep => exact bind_of_eq (infoRest_of_stepped hstep)
  | infoEnded hstep => exact bind_of_ok (infoRest_of_stepped hstep)
  | @nested frame rest _ c hitem hnest =>
    change run policy (frame :: rest) r = _
    rw [run_cons, step, bind_assoc, bind_of_ok (onCursor_of_ok hitem), applyItem, if_pos hnest,
      bind_assoc]
    refine congrArg (fun f => (enterBlock policy (frame.header.level + 1) >>= f) (r.moveTo c)) ?_
    funext opened
    cases opened <;> rfl
  | ended hitem => exact run_of_stepped (.ended hitem)
  | defined hitem => exact run_of_stepped (.defined hitem)
  | nothing hitem => exact run_of_stepped (.nothing hitem)
  | recorded hitem => exact run_of_stepped (.recorded hitem)

theorem selectBlock_eq (selected : Option UInt32) (record : Record) :
    selectBlock selected record =
      if record.code = 1 ∧ record.operands = [] then .error (.invalidBlockInfoRecord record.code)
      else .ok (record.selects?.or selected) := by
  obtain ⟨code, operands⟩ := record
  by_cases hcode : code = 1
  · subst hcode
    cases operands <;> rfl
  · have hother : BlockInfoCode.ofNat? code.toNat ≠ some .selectBlock := by
      intro h
      unfold BlockInfoCode.ofNat? at h
      split at h
      · exact hcode (UInt32.toNat_inj.mp ‹_›)
      all_goals cases h
    simp only [Record.selects?, hcode, false_and, if_false, Option.none_or]
    unfold selectBlock
    split
    · contradiction
    · rfl

theorem infoStep_of_refusal {header : BlockHeader} {selected : Option UInt32} {item : Item}
    {c : Cursor}
    (hitem : readItem header.id header.width (r.abbreviationsFor header.id) r.cursor = .ok item c)
    (hrefused : item.refusal header.id selected = some e) :
    infoStep header selected r = .error e (r.moveTo c) := by
  have hscope : registeredFor header.id r = .ok (r.abbreviationsFor header.id) r := rfl
  rw [infoStep, bind_of_ok hscope, bind_of_ok (onCursor_of_ok hitem)]
  cases item with
  | endBlock => cases hrefused
  | subBlock =>
    cases hrefused
    rfl
  | define a =>
    refine bind_of_error ?_
    cases selected with
    | none =>
      cases hrefused
      rfl
    | some id =>
      simp only [Item.refusal] at hrefused
      split at hrefused <;> rename_i hid <;> cases hrefused
      simp only [registerFor, Reader.registerFor, if_pos hid]
  | record record =>
    cases record with
    | none => cases hrefused
    | some record =>
      simp only [Item.refusal] at hrefused
      split at hrefused <;> rename_i hempty <;> cases hrefused
      simp only [selectBlock_eq, if_pos hempty]
      rfl

theorem infoRest_of_error {header : BlockHeader} {selected : Option UInt32}
    (h : infoStep header selected r = .error e r') :
    infoRest header (some selected) r = .error e r' :=
  (readBlockInfoItems_eq header selected r).trans (bind_of_error h)

theorem finish_of_fails (h : Fails policy p r e r') : finish policy p r = .error e r' := by
  cases h with
  | header hheader =>
    refine bind_of_error ?_
    rw [enterBlock_eq, bind_of_error (by rw [onCursor, hheader])]
  | misplaced hheader hid hlevel =>
    refine bind_of_error ?_
    rw [enterBlock_eq, bind_of_ok (onCursor_of_ok hheader), enterWith, if_pos hid,
      bind_of_error (by rw [readBlockInfo, if_pos hlevel])]
  | skip hheader hid hpolicy hskip =>
    refine bind_of_error ?_
    simp only [enterBlock, hheader, if_neg hid, hpolicy, hskip]
    rfl
  | @infoItem header _ _ _ _ c hitem =>
    refine bind_of_error (infoRest_of_error ?_)
    have hscope : registeredFor header.id r = .ok (r.abbreviationsFor header.id) r := rfl
    rw [infoStep, bind_of_ok hscope, bind_of_error (by rw [onCursor, hitem])]
  | infoRefused hitem hrefused =>
    exact bind_of_error (infoRest_of_error (infoStep_of_refusal hitem hrefused))
  | @item frame rest _ _ c hitem =>
    change run policy (frame :: rest) r = _
    rw [run_cons, step, bind_of_error (bind_of_error (by rw [onCursor, hitem]))]
  | @child frame rest _ c hitem hnest =>
    change run policy (frame :: rest) r = _
    rw [run_cons, step, bind_assoc, bind_of_ok (onCursor_of_ok hitem), applyItem,
      if_neg (by simp [hnest])]
    rfl

theorem moves_or_fails (policy : EntryPolicy) (p : Place) (r : Reader) :
    p = .within [] ∨ (∃ p' r', Moves policy p r p' r') ∨ ∃ e r', Fails policy p r e r' := by
  match p with
  | .opening level stack =>
    right
    cases hheader : readBlockHeader level r.cursor with
    | error e c => exact .inr ⟨_, _, .header hheader⟩
    | ok header c =>
      by_cases hid : header.id = BlockKind.blockInfo.id
      · by_cases hlevel : header.level ≤ 1
        · exact .inl ⟨_, _, .informed hheader hid hlevel⟩
        · exact .inr ⟨_, _, .misplaced hheader hid (by omega)⟩
      · cases hpolicy : policy r.events header with
        | true => exact .inl ⟨_, _, .entered hheader hid hpolicy⟩
        | false =>
          cases hskip : Cursor.skipWords header.length.toNat c with
          | error e c' => exact .inr ⟨_, _, .skip hheader hid hpolicy hskip⟩
          | ok u c' => exact .inl ⟨_, _, .skipped hheader hid hpolicy hskip⟩
  | .info header selected stack =>
    right
    cases hitem : readItem header.id header.width (r.abbreviationsFor header.id) r.cursor with
    | error e c => exact .inr ⟨_, _, .infoItem hitem⟩
    | ok item c =>
      cases hrefused : item.refusal header.id selected with
      | some e => exact .inr ⟨_, _, .infoRefused hitem hrefused⟩
      | none =>
        left
        match item with
        | .endBlock => exact ⟨_, _, .infoEnded (.ended hitem)⟩
        | .subBlock => cases hrefused
        | .define a =>
          cases selected with
          | none => cases hrefused
          | some id =>
            simp only [Item.refusal] at hrefused
            split at hrefused <;> rename_i hid <;> cases hrefused
            exact ⟨_, _, .info (.defined hitem rfl hid)⟩
        | .record none => exact ⟨_, _, .info (.nothing hitem)⟩
        | .record (some record) =>
          simp only [Item.refusal] at hrefused
          split at hrefused <;> rename_i hempty <;> cases hrefused
          exact ⟨_, _, .info (.recorded hitem ((selectBlock_eq _ _).trans (if_neg hempty)))⟩
  | .within [] => exact .inl rfl
  | .within (frame :: rest) =>
    right
    cases hitem : readItem frame.header.id frame.header.width frame.inScope r.cursor with
    | error e c => exact .inr ⟨_, _, .item hitem⟩
    | ok item c =>
      match item with
      | .endBlock => exact .inl ⟨_, _, .ended hitem⟩
      | .subBlock =>
        cases hnest : frame.header.mayNest with
        | true => exact .inl ⟨_, _, .nested hitem hnest⟩
        | false => exact .inr ⟨_, _, .child hitem hnest⟩
      | .define a => exact .inl ⟨_, _, .defined hitem⟩
      | .record none => exact .inl ⟨_, _, .nothing hitem⟩
      | .record (some record) => exact .inl ⟨_, _, .recorded hitem⟩

/-! ## Whole readings -/

/-- How much there is to read at most. A block that ends may take no bits, a header takes some. -/
def Place.weight (r : Reader) : Place → Nat
  | .opening _ stack => 2 * r.cursor.left + stack.length
  | .info _ _ stack => 2 * r.cursor.left + stack.length + 1
  | .within stack => 2 * r.cursor.left + stack.length

theorem Moves.weight_lt (h : Moves policy p r p' r') : p'.weight r' < p.weight r := by
  cases h with
  | informed hheader =>
    have hlt := (left_lt_of_readBlockHeader hheader).1
    simp only [Place.weight, Reader.moveTo]
    omega
  | entered hheader =>
    have hlt := (left_lt_of_readBlockHeader hheader).1
    simp only [Place.weight, Reader.moveTo, Reader.emit, List.length_cons]
    omega
  | skipped hheader _ _ hskip =>
    obtain ⟨hlt, hbit⟩ := left_lt_of_readBlockHeader hheader
    have hle := Cursor.left_le_of_skipWords hskip hbit
    simp only [Place.weight, Reader.moveTo, Reader.emit]
    omega
  | info hstep =>
    have hlt := hstep.left_lt
    simp only [Place.weight]
    omega
  | infoEnded hstep =>
    cases hstep with
    | ended hitem =>
      have hle := (left_of_readItem hitem).1
      simp only [Place.weight, Reader.moveTo]
      omega
  | nested hitem =>
    have hlt := (left_of_readItem hitem).2 (by simp)
    simp only [Place.weight, Reader.moveTo, List.length_cons]
    omega
  | ended hitem =>
    have hle := (left_of_readItem hitem).1
    simp only [Place.weight, Reader.moveTo, Reader.emit, List.length_cons]
    omega
  | defined hitem | nothing hitem | recorded hitem =>
    have hlt := (left_of_readItem hitem).2 (by simp)
    simp only [Place.weight, Reader.moveTo, Reader.emit, List.length_cons]
    omega

end

/-- The places that a reading comes by, the first one included. -/
inductive Reached (policy : EntryPolicy) (p₀ : Place) (r₀ : Reader) : Place → Reader → Prop where
  | start : Reached policy p₀ r₀ p₀ r₀
  | next {p p' : Place} {r r' : Reader} (h : Reached policy p₀ r₀ p r)
      (hmoves : Moves policy p r p' r') : Reached policy p₀ r₀ p' r'

def finalState {ε σ α : Type} : EStateM.Result ε σ α → σ
  | .ok _ s | .error _ s => s

/-- `Q` of a reading that succeeds, `E` of one that fails. -/
def Ending (Q : Reader → Prop) (E : StreamError → Reader → Prop) :
    EStateM.Result StreamError Reader Unit → Prop
  | .ok _ r => Q r
  | .error e r => E e r

section

variable {policy : EntryPolicy} {p p₀ : Place} {r r₀ : Reader} {I : Place → Reader → Prop}
  {E : StreamError → Reader → Prop}

/-- What every move keeps holds wherever the reading comes by. -/
theorem Reached.invariant (h : Reached policy p₀ r₀ p r) (h₀ : I p₀ r₀)
    (hmoves : ∀ p r p' r', Moves policy p r p' r' → I p r → I p' r') : I p r := by
  induction h with
  | start => exact h₀
  | next _ hmove ih => exact hmoves _ _ _ _ hmove ih

theorem ending_reached (policy : EntryPolicy) (p₀ : Place) (r₀ : Reader) :
    Ending (fun r' => Reached policy p₀ r₀ (.within []) r')
      (fun e r' => ∃ p r, Reached policy p₀ r₀ p r ∧ Fails policy p r e r')
      (finish policy p₀ r₀) := by
  suffices hall : ∀ n p r, p.weight r = n → Reached policy p₀ r₀ p r →
      Ending (fun r' => Reached policy p₀ r₀ (.within []) r')
        (fun e r' => ∃ p r, Reached policy p₀ r₀ p r ∧ Fails policy p r e r')
        (finish policy p r) from hall _ p₀ r₀ rfl .start
  intro n
  induction n using Nat.strongRecOn with
  | _ n ih =>
    intro p r hn hreached
    rcases moves_or_fails policy p r with rfl | ⟨p', r', hmoves⟩ | ⟨e, r', hfails⟩
    · rw [show finish policy (.within []) r = .ok () r from run_nil]
      exact hreached
    · rw [finish_of_moves hmoves]
      exact ih _ (hn ▸ hmoves.weight_lt) p' r' rfl (hreached.next hmoves)
    · rw [finish_of_fails hfails]
      exact ⟨p, r, hreached, hfails⟩

/-- What every move keeps holds at the end, and a failure comes from a place where it holds. -/
theorem ending_finish (policy : EntryPolicy) (h₀ : I p₀ r₀)
    (hmoves : ∀ p r p' r', Moves policy p r p' r' → I p r → I p' r')
    (hfails : ∀ p r e r', Fails policy p r e r' → I p r → E e r') :
    Ending (I (.within [])) E (finish policy p₀ r₀) := by
  have hend := ending_reached policy p₀ r₀
  cases hfinish : finish policy p₀ r₀ with
  | ok u r' =>
    rw [hfinish] at hend
    exact hend.invariant h₀ hmoves
  | error e r' =>
    rw [hfinish] at hend
    obtain ⟨p, r, hreached, hfail⟩ := hend
    exact hfails p r e r' hfail (hreached.invariant h₀ hmoves)

/-! The readings of blocks, and where they start. -/

theorem readSubBlock_eq_finish (policy : EntryPolicy) (level : Nat) (r : Reader) :
    readSubBlock policy level r = finish policy (.opening level []) r := by
  rw [readSubBlock_eq]
  simp only [finish, List.append_nil]

theorem readBlock_eq_finish (policy : EntryPolicy) (header : BlockHeader) (r : Reader) :
    readBlock policy header r = finish policy (.within [r.frame header]) r := rfl

theorem readBlockInfo_eq_finish (policy : EntryPolicy) {header : BlockHeader} (r : Reader)
    (h : header.level ≤ 1) :
    readBlockInfo header r = finish policy (.info header none []) r := by
  rw [readBlockInfo_eq h, finish]
  cases hrest : infoRest header (some none) r with
  | error e r' => rw [bind_of_error hrest]
  | ok u r' =>
    rw [bind_of_ok hrest]
    exact run_nil.symm

end

end Dxil
