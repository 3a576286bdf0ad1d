import Dxil.Stream.Block

/-!
# Dxil.Stream.Reader

Reading blocks. Abbreviations come from two places: block info registers them for all blocks of an
id, and a block defines its own, which end with it.

* `Reader` : the cursor, the registered abbreviations and the events so far.
* `EntryPolicy` : which blocks are read and which passed over.
* `readItem` : the next item of a block.
* `readBlockInfo` : registers abbreviations.
* `run` : reads on until the given open blocks have ended; `readBlock` and `readSubBlock` start it.
-/

namespace Dxil

structure Reader where
  cursor : Cursor
  /-- Block ids and the abbreviations registered for them, in order of definition. -/
  registered : List (UInt32 × Abbreviation) := []
  events : Array Event := #[]

/-- Whether to read a block, given the events up to it. -/
abbrev EntryPolicy := Array Event → BlockHeader → Bool

def EntryPolicy.all : EntryPolicy := fun _ _ => true

def EntryPolicy.skipping (ids : List UInt32) : EntryPolicy := fun _ h => !ids.contains h.id

namespace Reader

def abbreviationsFor (r : Reader) (id : UInt32) : List Abbreviation :=
  r.registered.filterMap fun (block, a) => if block = id then some a else none

def register (r : Reader) (id : UInt32) (a : Abbreviation) : Reader :=
  { r with registered := r.registered ++ [(id, a)] }

def moveTo (r : Reader) (c : Cursor) : Reader := { r with cursor := c }

def emit (r : Reader) (e : Event) : Reader := { r with events := r.events.push e }

end Reader

/-! ## Items -/

/-- Abbreviation ids with a fixed meaning. Ids from 4 on name abbreviations. -/
inductive BuiltinId where
  | endBlock
  | enterSubBlock
  | defineAbbreviation
  | unabbreviatedRecord
  deriving DecidableEq, Repr

def BuiltinId.ofNat? : Nat → Option BuiltinId
  | 0 => some endBlock
  | 1 => some enterSubBlock
  | 2 => some defineAbbreviation
  | 3 => some unabbreviatedRecord
  | _ => none

def firstApplicationId : Nat := 4

inductive Item where
  | endBlock
  | subBlock
  | define (abbreviation : Abbreviation)
  /-- `none` comes from an abbreviation that encodes nothing. -/
  | record (record : Option Record)

/-- The item that starts with abbreviation id `id`. Of a nested block only that id is consumed. -/
def itemOfId (block : UInt32) (inScope : List Abbreviation) (id : Nat) : StreamReader Item :=
  match BuiltinId.ofNat? id with
  | some .endBlock => do
    modify Cursor.align
    pure .endBlock
  | some .enterSubBlock => pure .subBlock
  | some .defineAbbreviation => do
    let count ← Cursor.readVbr 5
    let a ← readAbbreviation count
    pure (.define a)
  | some .unabbreviatedRecord => do
    let r ← readUnabbreviated
    pure (.record (some r))
  | none =>
    match inScope[id - firstApplicationId]? with
    | none => throw (.unknownAbbreviation block id)
    | some a => do
      let r ← readAbbreviated a
      pure (.record r)

def readItem (block : UInt32) (width : Nat) (inScope : List Abbreviation) :
    StreamReader Item := do
  let id ← Cursor.read width
  itemOfId block inScope id

theorem Shortens.itemOfId (block : UInt32) (inScope : List Abbreviation) (id : Nat) :
    Shortens (Dxil.itemOfId block inScope id) := by
  unfold Dxil.itemOfId
  split
  · intro c i c' h
    cases h
    exact c.left_align_le
  · exact .pure _
  · exact .bind (.liftBits (.readVbr _)) fun _ => .bind (.readAbbreviation _) fun _ => .pure _
  · exact .bind .readUnabbreviated fun _ => .pure _
  · split
    · exact .throw _
    · exact .bind (.readAbbreviated _) fun _ => .pure _

theorem left_of_readItem {block : UInt32} {width : Nat} {inScope : List Abbreviation} {i : Item}
    {c c' : Cursor} (h : readItem block width inScope c = .ok i c') :
    c'.left ≤ c.left ∧ (i ≠ .endBlock → c'.left < c.left) := by
  change EStateM.bind (liftBits (Cursor.read width)) (itemOfId block inScope) c = _ at h
  unfold EStateM.bind liftBits at h
  cases hr : Cursor.read width c with
  | error e c₁ =>
    rw [hr] at h
    cases h
  | ok id c₁ =>
    rw [hr] at h
    have h₁ := Shortens.itemOfId block inScope id _ _ _ h
    refine ⟨Nat.le_trans h₁ (Shortens.read width _ _ _ hr), fun hne => ?_⟩
    refine Nat.lt_of_le_of_lt h₁ (Cursor.left_lt_of_read hr ?_)
    rintro rfl
    cases h
    exact hne rfl

/-! ## Block info -/

/-- Records of a block info block. Names serve debugging only. -/
inductive BlockInfoCode where
  | selectBlock
  | blockName
  | recordName
  deriving DecidableEq, Repr

def BlockInfoCode.ofNat? : Nat → Option BlockInfoCode
  | 1 => some selectBlock
  | 2 => some blockName
  | 3 => some recordName
  | _ => none

def selectBlock (selected : Option UInt32) (r : Record) : Except StreamError (Option UInt32) :=
  match BlockInfoCode.ofNat? r.code.toNat with
  | some .selectBlock =>
    match r.operands with
    | [] => .error (.invalidBlockInfoRecord r.code)
    | id :: _ => .ok (some id.toUInt32)
  | _ => .ok selected

/-- Where an abbreviation defined in block info goes. Modules take none. -/
def Reader.registerFor (r : Reader) (selected : Option UInt32) (a : Abbreviation) :
    Except StreamError Reader :=
  match selected with
  | none => .error .noBlockSelected
  | some id =>
    if id = BlockKind.module.id then .error .moduleAbbreviation else .ok (r.register id a)

set_option linter.unusedVariables false in
/-- The content of a block info block. `selected` is the block that definitions are for. -/
def readBlockInfoItems (header : BlockHeader) (selected : Option UInt32) (r : Reader) :
    EStateM.Result StreamError Reader Unit :=
  match h : readItem header.id header.width (r.abbreviationsFor header.id) r.cursor with
  | .error e c => .error e (r.moveTo c)
  | .ok .endBlock c => .ok () (r.moveTo c)
  | .ok .subBlock c => .error (.childNotAllowed header.id) (r.moveTo c)
  | .ok (.define a) c =>
    match h' : (r.moveTo c).registerFor selected a with
    | .error e => .error e (r.moveTo c)
    | .ok r' => readBlockInfoItems header selected r'
  | .ok (.record none) c => readBlockInfoItems header selected (r.moveTo c)
  | .ok (.record (some record)) c =>
    match selectBlock selected record with
    | .error e => .error e (r.moveTo c)
    | .ok selected => readBlockInfoItems header selected (r.moveTo c)
termination_by r.cursor.left
decreasing_by
  · have := (left_of_readItem h).2 (by simp)
    have : r'.cursor = c := by
      unfold Reader.registerFor at h'
      split at h'
      · cases h'
      split at h'
      · cases h'
      · cases h'; rfl
    simp_all
  · have := (left_of_readItem h).2 (by simp)
    simpa [Reader.moveTo]
  · have := (left_of_readItem h).2 (by simp)
    simpa [Reader.moveTo]

/-- A block info block, which may not stand deeper than directly below the root. -/
def readBlockInfo (header : BlockHeader) : EStateM StreamError Reader Unit := fun r =>
  if 1 < header.level then .error (.misplacedBlockInfo header.level) r
  else readBlockInfoItems header none r

theorem left_of_readBlockInfoItems {header : BlockHeader} {selected : Option UInt32}
    {r r' : Reader} {u : Unit} (h : readBlockInfoItems header selected r = .ok u r') :
    r'.cursor.left ≤ r.cursor.left := by
  fun_induction readBlockInfoItems header selected r with
  | case1 => cases h
  | case2 selected r c hi =>
    cases h
    exact (left_of_readItem hi).1
  | case3 => cases h
  | case4 => cases h
  | case5 selected r a c hi r₁ hreg ih =>
    have hc : r₁.cursor = c := by
      unfold Reader.registerFor at hreg
      split at hreg
      · cases hreg
      split at hreg
      · cases hreg
      · cases hreg; rfl
    exact Nat.le_trans (hc ▸ ih h) (left_of_readItem hi).1
  | case6 selected r c hi ih => exact Nat.le_trans (ih h) (left_of_readItem hi).1
  | case7 => cases h
  | case8 selected r record c hi selected' hs ih =>
    exact Nat.le_trans (ih h) (left_of_readItem hi).1

/-! ## Blocks -/

structure Frame where
  header : BlockHeader
  inScope : List Abbreviation

def Reader.frame (r : Reader) (header : BlockHeader) : Frame :=
  ⟨header, r.abbreviationsFor header.id⟩

/-- Begin the block whose header comes next. Block info is read at once, and a block that the
policy refuses is passed over by its declared length; in both cases no frame is left to read. -/
def enterBlock (policy : EntryPolicy) (level : Nat) :
    EStateM StreamError Reader (Option Frame) := fun r =>
  match readBlockHeader level r.cursor with
  | .error e c => .error e (r.moveTo c)
  | .ok header c =>
    if header.id = BlockKind.blockInfo.id then
      match readBlockInfo header (r.moveTo c) with
      | .error e r' => .error e r'
      | .ok () r' => .ok none r'
    else
      let r' := (r.moveTo c).emit (.enter header)
      if policy r.events header then .ok (some (r'.frame header)) r'
      else
        match Cursor.skipWords header.length.toNat c with
        | .error e c' => .error (.bits e) (r'.moveTo c')
        | .ok () c' => .ok none (r'.moveTo c')

theorem left_of_enterBlock {policy : EntryPolicy} {level : Nat} {r r' : Reader} {f : Option Frame}
    (h : enterBlock policy level r = .ok f r') : r'.cursor.left < r.cursor.left := by
  unfold enterBlock at h
  split at h
  · cases h
  · rename_i header c hh
    have hlt := left_lt_of_readBlockHeader hh
    split at h
    · split at h
      · cases h
      · rename_i r₁ hi
        cases h
        unfold readBlockInfo at hi
        split at hi
        · cases hi
        · exact Nat.lt_of_le_of_lt (left_of_readBlockInfoItems hi) hlt.1
    · dsimp only at h
      split at h
      · cases h
        exact hlt.1
      · split at h
        · cases h
        · rename_i c' hs
          cases h
          exact Nat.lt_of_le_of_lt (Cursor.left_le_of_skipWords hs hlt.2) hlt.1

set_option linter.unusedVariables false in
/-- Read until every block of `stack`, innermost first, has ended. -/
def run (policy : EntryPolicy) (stack : List Frame) (r : Reader) :
    EStateM.Result StreamError Reader Unit :=
  match stack with
  | [] => .ok () r
  | frame :: rest =>
    match h : readItem frame.header.id frame.header.width frame.inScope r.cursor with
    | .error e c => .error e (r.moveTo c)
    | .ok .endBlock c => run policy rest ((r.moveTo c).emit (.exit frame.header.id))
    | .ok .subBlock c =>
      if frame.header.mayNest then
        match h' : enterBlock policy (frame.header.level + 1) (r.moveTo c) with
        | .error e r' => .error e r'
        | .ok none r' => run policy (frame :: rest) r'
        | .ok (some inner) r' => run policy (inner :: frame :: rest) r'
      else .error (.childNotAllowed frame.header.id) (r.moveTo c)
    | .ok (.define a) c =>
      run policy ({ frame with inScope := frame.inScope ++ [a] } :: rest) (r.moveTo c)
    | .ok (.record none) c => run policy (frame :: rest) (r.moveTo c)
    | .ok (.record (some record)) c =>
      run policy (frame :: rest) ((r.moveTo c).emit (.record frame.header.id record))
termination_by r.cursor.left + stack.length
decreasing_by
  · have := (left_of_readItem h).1
    simp only [Reader.moveTo, Reader.emit, List.length_cons]
    omega
  · have := (left_of_readItem h).2 (by simp)
    have := left_of_enterBlock h'
    simp only [Reader.moveTo, List.length_cons] at *
    omega
  · have := (left_of_readItem h).2 (by simp)
    have := left_of_enterBlock h'
    simp only [Reader.moveTo, List.length_cons] at *
    omega
  · have := (left_of_readItem h).2 (by simp)
    simp only [Reader.moveTo, List.length_cons]
    omega
  · have := (left_of_readItem h).2 (by simp)
    simp only [Reader.moveTo, List.length_cons]
    omega
  · have := (left_of_readItem h).2 (by simp)
    simp only [Reader.moveTo, Reader.emit, List.length_cons]
    omega

def readBlock (policy : EntryPolicy) (header : BlockHeader) : EStateM StreamError Reader Unit :=
  fun r => run policy [r.frame header] r

def readSubBlock (policy : EntryPolicy) (level : Nat) : EStateM StreamError Reader Unit := fun r =>
  match enterBlock policy level r with
  | .error e r' => .error e r'
  | .ok none r' => .ok () r'
  | .ok (some frame) r' => run policy [frame] r'

end Dxil
