import Dxil.Proofs.Bits.Local
import Dxil.Stream.Bitcode

/-!
# Dxil.Proofs.Stream.Run

What reading a stream does item by item.

* `step` : one item of the innermost open block; `run_cons` says that a run is steps in a row.
* `Entered` and `Stepped` : everything that entering a block and a step can come to.
* `runM_append` : blocks are run one after another.
* `run_induction` : what holds of a run because each of its steps carries it.
* `Opens` : where the root block of a stream starts.
-/

namespace Dxil

section

variable {α : Type} {x : BitReader α} {c c' : Cursor} {a : α}

theorem lift_of_ok (h : x c = .ok a c') : (liftM x : StreamReader α) c = .ok a c' := by
  change liftBits x c = _
  rw [liftBits, h]

theorem of_lift_ok (h : liftBits x c = .ok a c') : x c = .ok a c' := by
  unfold liftBits at h
  split at h
  · cases h
    assumption
  · cases h

end

def onCursor {α : Type} (x : StreamReader α) : EStateM StreamError Reader α := fun r =>
  match x r.cursor with
  | .ok a c => .ok a (r.moveTo c)
  | .error e c => .error e (r.moveTo c)

def emit (e : Event) : EStateM StreamError Reader Unit := modify fun r => r.emit e

def registeredFor (id : UInt32) : EStateM StreamError Reader (List Abbreviation) := fun r =>
  .ok (r.abbreviationsFor id) r

def registerFor (selected : Option UInt32) (a : Abbreviation) : EStateM StreamError Reader Unit :=
  fun r =>
    match r.registerFor selected a with
    | .ok r' => .ok () r'
    | .error e => .error e r

/-- One item of block info: the block that is selected after it, none at the end. -/
def infoStep (header : BlockHeader) (selected : Option UInt32) :
    EStateM StreamError Reader (Option (Option UInt32)) := do
  let inScope ← registeredFor header.id
  match ← onCursor (readItem header.id header.width inScope) with
  | .endBlock => pure none
  | .subBlock => throw (.childNotAllowed header.id)
  | .define a => do
    registerFor selected a
    pure (some selected)
  | .record none => pure (some selected)
  | .record (some record) =>
    match selectBlock selected record with
    | .error e => throw e
    | .ok selected => pure (some selected)

def infoRest (header : BlockHeader) : Option (Option UInt32) → EStateM StreamError Reader Unit
  | none => pure ()
  | some selected => readBlockInfoItems header selected

def admits (policy : EntryPolicy) (header : BlockHeader) : EStateM StreamError Reader Bool :=
  fun r => .ok (policy r.events header) r

def frameFor (header : BlockHeader) : EStateM StreamError Reader Frame := fun r =>
  .ok (r.frame header) r

def enterWith (policy : EntryPolicy) (header : BlockHeader) :
    EStateM StreamError Reader (Option Frame) :=
  if header.id = BlockKind.blockInfo.id then do
    readBlockInfo header
    pure none
  else do
    let admitted ← admits policy header
    emit (.enter header)
    if admitted then some <$> frameFor header
    else do
      onCursor (liftBits (Cursor.skipWords header.length.toNat))
      pure none

/-- What an item does to the open blocks, `frame` being the innermost. -/
def applyItem (policy : EntryPolicy) (frame : Frame) (rest : List Frame) :
    Item → EStateM StreamError Reader (List Frame)
  | .endBlock => do
    emit (.exit frame.header.id)
    pure rest
  | .subBlock =>
    if frame.header.mayNest then do
      match ← enterBlock policy (frame.header.level + 1) with
      | none => pure (frame :: rest)
      | some inner => pure (inner :: frame :: rest)
    else throw (.childNotAllowed frame.header.id)
  | .define a => pure ({ frame with inScope := frame.inScope ++ [a] } :: rest)
  | .record none => pure (frame :: rest)
  | .record (some record) => do
    emit (.record frame.header.id record)
    pure (frame :: rest)

/-- One item of the innermost open block, and the blocks that are open after it. -/
def step (policy : EntryPolicy) (frame : Frame) (rest : List Frame) :
    EStateM StreamError Reader (List Frame) := do
  let item ← onCursor (readItem frame.header.id frame.header.width frame.inScope)
  applyItem policy frame rest item

/-- `run` as a program that may follow another. -/
def runM (policy : EntryPolicy) (stack : List Frame) : EStateM StreamError Reader Unit :=
  run policy stack

section

variable {policy : EntryPolicy} {frame : Frame} {rest stack : List Frame} {level : Nat}
  {r r₁ r' : Reader}

theorem onCursor_of_ok {α : Type} {x : StreamReader α} {a : α} {c : Cursor}
    (h : x r.cursor = .ok a c) : onCursor x r = .ok a (r.moveTo c) := by
  rw [onCursor, h]

theorem of_onCursor_ok {α : Type} {x : StreamReader α} {a : α} (h : onCursor x r = .ok a r') :
    ∃ c, x r.cursor = .ok a c ∧ r' = r.moveTo c := by
  unfold onCursor at h
  split at h
  · rename_i c hx
    cases h
    exact ⟨c, hx, rfl⟩
  · cases h

theorem enterBlock_eq (policy : EntryPolicy) (level : Nat) (r : Reader) :
    enterBlock policy level r = (onCursor (readBlockHeader level) >>= enterWith policy) r := by
  unfold enterBlock
  split <;> rename_i header c hheader
  · exact (bind_of_error (by rw [onCursor, hheader])).symm
  rw [bind_of_ok (onCursor_of_ok hheader), enterWith]
  split
  · cases hinfo : readBlockInfo header (r.moveTo c) with
    | error e r' => rw [bind_of_error hinfo]
    | ok u r' =>
      rw [bind_of_ok hinfo]
      rfl
  · have hadmits : admits policy header (r.moveTo c) =
        .ok (policy r.events header) (r.moveTo c) := rfl
    have hemit : emit (.enter header) (r.moveTo c) =
        .ok () ((r.moveTo c).emit (.enter header)) := rfl
    rw [bind_of_ok hadmits, bind_of_ok hemit]
    dsimp only
    split
    · rfl
    · simp only [bind, EStateM.bind, onCursor, liftBits, Reader.emit, Reader.moveTo]
      cases Cursor.skipWords header.length.toNat c <;> rfl

theorem run_cons (policy : EntryPolicy) (frame : Frame) (rest : List Frame) (r : Reader) :
    run policy (frame :: rest) r = (step policy frame rest >>= runM policy) r := by
  rw [run, step]
  split <;> rename_i hitem
  · exact (bind_of_error (bind_of_error (by rw [onCursor, hitem]))).symm
  all_goals rw [bind_assoc, bind_of_ok (onCursor_of_ok hitem)]
  · rfl
  · simp only [applyItem]
    split
    · rw [bind_assoc]
      split <;> rename_i hin
      · exact (bind_of_error hin).symm
      · rw [bind_of_ok hin]
        rfl
      · rw [bind_of_ok hin]
        rfl
    · rfl
  · rfl
  · rfl
  · rfl

/-! ## Block info -/

theorem readBlockInfoItems_eq (header : BlockHeader) (selected : Option UInt32) (r : Reader) :
    readBlockInfoItems header selected r =
      (infoStep header selected >>= infoRest header) r := by
  have hscope : registeredFor header.id r = .ok (r.abbreviationsFor header.id) r := rfl
  rw [readBlockInfoItems, infoStep, bind_assoc, bind_of_ok hscope, bind_assoc]
  split <;> rename_i hitem
  · exact (bind_of_error (by rw [onCursor, hitem])).symm
  all_goals rw [bind_of_ok (onCursor_of_ok hitem)]
  · rfl
  · rfl
  · rename_i a c
    rw [bind_assoc]
    cases hreg : (r.moveTo c).registerFor selected a with
    | error e =>
      have hfail : registerFor selected a (r.moveTo c) = .error e (r.moveTo c) := by
        rw [registerFor, hreg]
      rw [bind_of_error hfail]
    | ok r' =>
      have hdone : registerFor selected a (r.moveTo c) = .ok () r' := by
        rw [registerFor, hreg]
      rw [bind_of_ok hdone]
      rfl
  · rfl
  · rename_i record _
    cases hsel : selectBlock selected record with
    | error e => simp only [hsel]; rfl
    | ok selected => simp only [hsel]; rfl

theorem of_registerFor_ok {selected : Option UInt32} {a : Abbreviation} {u : Unit}
    (h : registerFor selected a r = .ok u r') :
    ∃ id, selected = some id ∧ id ≠ BlockKind.module.id ∧ r' = r.register id a := by
  cases selected with
  | none => cases h
  | some id =>
    simp only [registerFor, Reader.registerFor] at h
    split at h <;> rename_i hreg <;> cases h
    split at hreg <;> rename_i hid <;> cases hreg
    exact ⟨id, rfl, hid, rfl⟩

inductive InfoStepped (header : BlockHeader) (selected : Option UInt32) (r : Reader) :
    Option (Option UInt32) → Reader → Prop where
  | ended {c : Cursor}
      (hitem : readItem header.id header.width (r.abbreviationsFor header.id) r.cursor =
        .ok .endBlock c) :
      InfoStepped header selected r none (r.moveTo c)
  | defined {a : Abbreviation} {id : UInt32} {c : Cursor}
      (hitem : readItem header.id header.width (r.abbreviationsFor header.id) r.cursor =
        .ok (.define a) c)
      (hselected : selected = some id) (hid : id ≠ BlockKind.module.id) :
      InfoStepped header selected r (some selected) ((r.moveTo c).register id a)
  | nothing {c : Cursor}
      (hitem : readItem header.id header.width (r.abbreviationsFor header.id) r.cursor =
        .ok (.record none) c) :
      InfoStepped header selected r (some selected) (r.moveTo c)
  | recorded {record : Record} {next : Option UInt32} {c : Cursor}
      (hitem : readItem header.id header.width (r.abbreviationsFor header.id) r.cursor =
        .ok (.record (some record)) c)
      (hnext : selectBlock selected record = .ok next) :
      InfoStepped header selected r (some next) (r.moveTo c)

section

variable {header : BlockHeader} {selected : Option UInt32} {next : Option (Option UInt32)}

theorem infoStep_eq_ok :
    infoStep header selected r = .ok next r' ↔ InfoStepped header selected r next r' := by
  constructor
  · intro h
    obtain ⟨inScope, r₁, hscope, h⟩ := exists_of_bind_ok h
    cases hscope
    obtain ⟨item, r₂, hread, h⟩ := exists_of_bind_ok h
    obtain ⟨c, hitem, rfl⟩ := of_onCursor_ok hread
    match item with
    | .endBlock =>
      cases h
      exact .ended hitem
    | .subBlock => cases h
    | .define a =>
      obtain ⟨_, r₃, hreg, h⟩ := exists_of_bind_ok h
      cases h
      obtain ⟨id, hselected, hid, rfl⟩ := of_registerFor_ok hreg
      exact .defined hitem hselected hid
    | .record none =>
      cases h
      exact .nothing hitem
    | .record (some record) =>
      cases hnext : selectBlock selected record with
      | error e =>
        simp only [hnext] at h
        cases h
      | ok next =>
        simp only [hnext] at h
        cases h
        exact .recorded hitem hnext
  · intro h
    have hscope : registeredFor header.id r = .ok (r.abbreviationsFor header.id) r := rfl
    rw [infoStep, bind_of_ok hscope]
    cases h with
    | ended hitem =>
      rw [bind_of_ok (onCursor_of_ok hitem)]
      rfl
    | @defined a id c hitem hselected hid =>
      rw [bind_of_ok (onCursor_of_ok hitem)]
      have hreg : registerFor selected a (r.moveTo c) = .ok () ((r.moveTo c).register id a) := by
        simp only [registerFor, Reader.registerFor, hselected, if_neg hid]
      exact bind_of_ok hreg
    | nothing hitem =>
      rw [bind_of_ok (onCursor_of_ok hitem)]
      rfl
    | recorded hitem hnext =>
      rw [bind_of_ok (onCursor_of_ok hitem)]
      simp only [hnext]
      rfl

theorem InfoStepped.left_lt {selected' : Option UInt32}
    (h : InfoStepped header selected r (some selected') r') :
    r'.cursor.left < r.cursor.left := by
  cases h with
  | defined hitem _ _ => exact (left_of_readItem hitem).2 (by simp)
  | nothing hitem => exact (left_of_readItem hitem).2 (by simp)
  | recorded hitem _ => exact (left_of_readItem hitem).2 (by simp)

theorem info_induction {motive : Option UInt32 → Reader → Reader → Prop}
    (nil : ∀ selected r r', InfoStepped header selected r none r' → motive selected r r')
    (cons : ∀ selected r next r₁ r', InfoStepped header selected r (some next) r₁ →
      readBlockInfoItems header next r₁ = .ok () r' → motive next r₁ r' → motive selected r r')
    (h : readBlockInfoItems header selected r = .ok () r') : motive selected r r' := by
  -- Every item but the end uses up bits.
  induction hn : r.cursor.left using Nat.strongRecOn generalizing selected r with
  | _ n ih =>
    rw [readBlockInfoItems_eq] at h
    obtain ⟨next, r₁, hstep, h⟩ := exists_of_bind_ok h
    have hstep := infoStep_eq_ok.mp hstep
    cases next with
    | none =>
      cases h
      exact nil selected r _ hstep
    | some next => exact cons selected r next r₁ r' hstep h (ih _ (hn ▸ hstep.left_lt) h rfl)

end

/-! ## What can happen -/

/-- The ways to begin a block: block info is read at once, others are opened or passed over. -/
inductive Entered (policy : EntryPolicy) (level : Nat) (r : Reader) :
    Option Frame → Reader → Prop where
  | info {header : BlockHeader} {c : Cursor} {r' : Reader}
      (hheader : readBlockHeader level r.cursor = .ok header c)
      (hid : header.id = BlockKind.blockInfo.id)
      (hinfo : readBlockInfo header (r.moveTo c) = .ok () r') : Entered policy level r none r'
  | opened {header : BlockHeader} {c : Cursor}
      (hheader : readBlockHeader level r.cursor = .ok header c)
      (hid : header.id ≠ BlockKind.blockInfo.id) (hpolicy : policy r.events header = true) :
      Entered policy level r (some (r.frame header)) ((r.moveTo c).emit (.enter header))
  | skipped {header : BlockHeader} {c c' : Cursor}
      (hheader : readBlockHeader level r.cursor = .ok header c)
      (hid : header.id ≠ BlockKind.blockInfo.id) (hpolicy : policy r.events header = false)
      (hskip : Cursor.skipWords header.length.toNat c = .ok () c') :
      Entered policy level r none ((r.moveTo c').emit (.enter header))

theorem enterBlock_eq_ok {opened : Option Frame} :
    enterBlock policy level r = .ok opened r' ↔ Entered policy level r opened r' := by
  constructor
  · intro h
    unfold enterBlock at h
    split at h
    · cases h
    rename_i header c hheader
    split at h
    · rename_i hid
      split at h <;> rename_i hinfo <;> cases h
      exact .info hheader hid hinfo
    rename_i hid
    simp only at h
    split at h
    · rename_i hpolicy
      cases h
      exact .opened hheader hid hpolicy
    rename_i hpolicy
    split at h <;> rename_i hskip <;> cases h
    exact .skipped hheader hid (Bool.not_eq_true _ ▸ hpolicy) hskip
  · rintro (⟨hheader, hid, hinfo⟩ | ⟨hheader, hid, hpolicy⟩ | ⟨hheader, hid, hpolicy, hskip⟩)
    · simp only [enterBlock, hheader, if_pos hid, hinfo]
    · simp only [enterBlock, hheader, if_neg hid, if_pos hpolicy]
      rfl
    · simp only [enterBlock, hheader, if_neg hid, hpolicy, hskip]
      rfl

/-- The ways to take a step, with the blocks that are open after it. -/
inductive Stepped (policy : EntryPolicy) (frame : Frame) (rest : List Frame) (r : Reader) :
    List Frame → Reader → Prop where
  | ended {c : Cursor}
      (hitem : readItem frame.header.id frame.header.width frame.inScope r.cursor =
        .ok .endBlock c) :
      Stepped policy frame rest r rest ((r.moveTo c).emit (.exit frame.header.id))
  | passed {c : Cursor} {r' : Reader}
      (hitem : readItem frame.header.id frame.header.width frame.inScope r.cursor =
        .ok .subBlock c)
      (hnest : frame.header.mayNest)
      (henter : Entered policy (frame.header.level + 1) (r.moveTo c) none r') :
      Stepped policy frame rest r (frame :: rest) r'
  | opened {c : Cursor} {inner : Frame} {r' : Reader}
      (hitem : readItem frame.header.id frame.header.width frame.inScope r.cursor =
        .ok .subBlock c)
      (hnest : frame.header.mayNest)
      (henter : Entered policy (frame.header.level + 1) (r.moveTo c) (some inner) r') :
      Stepped policy frame rest r (inner :: frame :: rest) r'
  | defined {a : Abbreviation} {c : Cursor}
      (hitem : readItem frame.header.id frame.header.width frame.inScope r.cursor =
        .ok (.define a) c) :
      Stepped policy frame rest r ({ frame with inScope := frame.inScope ++ [a] } :: rest)
        (r.moveTo c)
  | nothing {c : Cursor}
      (hitem : readItem frame.header.id frame.header.width frame.inScope r.cursor =
        .ok (.record none) c) :
      Stepped policy frame rest r (frame :: rest) (r.moveTo c)
  | recorded {record : Record} {c : Cursor}
      (hitem : readItem frame.header.id frame.header.width frame.inScope r.cursor =
        .ok (.record (some record)) c) :
      Stepped policy frame rest r (frame :: rest)
        ((r.moveTo c).emit (.record frame.header.id record))

theorem step_eq_ok :
    step policy frame rest r = .ok stack r' ↔ Stepped policy frame rest r stack r' := by
  constructor
  · intro h
    obtain ⟨item, r₁, hread, h⟩ := exists_of_bind_ok h
    obtain ⟨c, hitem, rfl⟩ := of_onCursor_ok hread
    match item with
    | .endBlock =>
      cases h
      exact .ended hitem
    | .subBlock =>
      simp only [applyItem] at h
      split at h
      · rename_i hnest
        obtain ⟨inner, r₂, henter, h⟩ := exists_of_bind_ok h
        cases inner with
        | none =>
          cases h
          exact .passed hitem hnest (enterBlock_eq_ok.mp henter)
        | some inner =>
          cases h
          exact .opened hitem hnest (enterBlock_eq_ok.mp henter)
      · cases h
    | .define a =>
      cases h
      exact .defined hitem
    | .record none =>
      cases h
      exact .nothing hitem
    | .record (some record) =>
      cases h
      exact .recorded hitem
  · intro h
    cases h with
    | ended hitem => rw [step, bind_of_ok (onCursor_of_ok hitem)]; rfl
    | passed hitem hnest henter =>
      rw [step, bind_of_ok (onCursor_of_ok hitem), applyItem, if_pos hnest,
        bind_of_ok (enterBlock_eq_ok.mpr henter)]
      rfl
    | opened hitem hnest henter =>
      rw [step, bind_of_ok (onCursor_of_ok hitem), applyItem, if_pos hnest,
        bind_of_ok (enterBlock_eq_ok.mpr henter)]
      rfl
    | defined hitem => rw [step, bind_of_ok (onCursor_of_ok hitem)]; rfl
    | nothing hitem => rw [step, bind_of_ok (onCursor_of_ok hitem)]; rfl
    | recorded hitem => rw [step, bind_of_ok (onCursor_of_ok hitem)]; rfl

/-- A step uses up bits or ends a block. -/
theorem Stepped.measure_lt (h : Stepped policy frame rest r stack r') :
    r'.cursor.left + stack.length < r.cursor.left + (frame :: rest).length := by
  cases h with
  | ended hitem =>
    have hle := (left_of_readItem hitem).1
    simp only [Reader.moveTo, Reader.emit, List.length_cons]
    omega
  | passed hitem hnest henter =>
    have hitem := (left_of_readItem hitem).2 (by simp)
    have hin := left_of_enterBlock (enterBlock_eq_ok.mpr henter)
    simp only [Reader.moveTo, List.length_cons] at hin ⊢
    omega
  | opened hitem hnest henter =>
    have hitem := (left_of_readItem hitem).2 (by simp)
    have hin := left_of_enterBlock (enterBlock_eq_ok.mpr henter)
    simp only [Reader.moveTo, List.length_cons] at hin ⊢
    omega
  | defined hitem =>
    have hitem := (left_of_readItem hitem).2 (by simp)
    simp only [Reader.moveTo, List.length_cons]
    omega
  | nothing hitem =>
    have hitem := (left_of_readItem hitem).2 (by simp)
    simp only [Reader.moveTo, List.length_cons]
    omega
  | recorded hitem =>
    have hitem := (left_of_readItem hitem).2 (by simp)
    simp only [Reader.moveTo, Reader.emit, List.length_cons]
    omega

/-! ## Runs -/

theorem run_nil : run policy [] r = .ok () r := by
  rw [run]

theorem readSubBlock_eq (policy : EntryPolicy) (level : Nat) (r : Reader) :
    readSubBlock policy level r =
      (enterBlock policy level >>= fun opened => runM policy opened.toList) r := by
  unfold readSubBlock
  cases henter : enterBlock policy level r with
  | error e r' => rw [bind_of_error henter]
  | ok opened r' =>
    rw [bind_of_ok henter]
    cases opened with
    | none => exact run_nil.symm
    | some frame => rfl

theorem run_of_stepped (h : Stepped policy frame rest r stack r₁) :
    run policy (frame :: rest) r = run policy stack r₁ := by
  rw [run_cons, bind_of_ok (step_eq_ok.mpr h), runM]

theorem stepped_of_run (h : run policy (frame :: rest) r = .ok () r') :
    ∃ stack r₁, Stepped policy frame rest r stack r₁ ∧ run policy stack r₁ = .ok () r' := by
  rw [run_cons] at h
  obtain ⟨stack, r₁, hstep, h⟩ := exists_of_bind_ok h
  exact ⟨stack, r₁, step_eq_ok.mp hstep, h⟩

theorem applyItem_append (policy : EntryPolicy) (frame : Frame) (rest t : List Frame)
    (item : Item) :
    applyItem policy frame (rest ++ t) item =
      (applyItem policy frame rest item >>= fun stack => pure (stack ++ t)) := by
  cases item with
  | endBlock => rfl
  | subBlock =>
    simp only [applyItem]
    split
    · rw [bind_assoc]
      congr
      funext opened
      cases opened <;> rfl
    · rfl
  | define a => rfl
  | record record => cases record <;> rfl

/-- A run of several blocks is one run after another, whether or not they succeed. -/
theorem runM_append (policy : EntryPolicy) (s t : List Frame) (r : Reader) :
    runM policy (s ++ t) r = (runM policy s >>= fun _ => runM policy t) r := by
  induction hn : r.cursor.left + s.length using Nat.strongRecOn generalizing s r with
  | _ n ih =>
    match s with
    | [] => exact (bind_of_ok (f := fun _ => runM policy t) run_nil).symm
    | frame :: rest =>
      have hfirst : runM policy (frame :: rest) r = (step policy frame rest >>= runM policy) r :=
        run_cons policy frame rest r
      have hboth : runM policy (frame :: rest ++ t) r =
          (step policy frame rest >>= fun stack => runM policy (stack ++ t)) r := by
        refine (run_cons policy frame (rest ++ t) r).trans ?_
        simp only [step, applyItem_append, bind_assoc, pure_bind]
      rw [hboth, bind_of_eq hfirst, bind_assoc]
      cases hstep : step policy frame rest r with
      | error e r₁ => rw [bind_of_error hstep, bind_of_error hstep]
      | ok stack r₁ =>
        rw [bind_of_ok hstep, bind_of_ok hstep]
        exact ih _ (hn ▸ (step_eq_ok.mp hstep).measure_lt) stack r₁ rfl

theorem run_append_ok {s t : List Frame} (h : run policy (s ++ t) r = .ok () r') :
    ∃ r₁, run policy s r = .ok () r₁ ∧ run policy t r₁ = .ok () r' := by
  have hboth := runM_append policy s t r
  rw [runM, h] at hboth
  obtain ⟨_, r₁, hfirst, hsecond⟩ := exists_of_bind_ok hboth.symm
  exact ⟨r₁, hfirst, hsecond⟩

/-- Induction on a run that succeeds, from its end to its start. -/
theorem run_induction {motive : List Frame → Reader → Reader → Prop}
    (nil : ∀ r, motive [] r r)
    (cons : ∀ frame rest r stack r₁ r', Stepped policy frame rest r stack r₁ →
      run policy stack r₁ = .ok () r' → motive stack r₁ r' → motive (frame :: rest) r r')
    (h : run policy stack r = .ok () r') : motive stack r r' := by
  induction hn : r.cursor.left + stack.length using Nat.strongRecOn generalizing stack r with
  | _ n ih =>
    match stack with
    | [] =>
      rw [run_nil] at h
      cases h
      exact nil _
    | frame :: rest =>
      obtain ⟨stack, r₁, hstep, hrun⟩ := stepped_of_run h
      exact cons frame rest r stack r₁ r' hstep hrun (ih _ (hn ▸ hstep.measure_lt) hrun rfl)

/-! ## Ends of blocks -/

theorem bit_align (c : Cursor) : c.align.bit = 0 := by
  simp [Cursor.align, Cursor.bit]

theorem bit_of_endBlock {block : UInt32} {width : Nat} {inScope : List Abbreviation} {c c' : Cursor}
    (h : readItem block width inScope c = .ok .endBlock c') : c'.bit = 0 := by
  obtain ⟨id, c₁, -, h⟩ := exists_of_bind_ok h
  generalize hread : itemOfId block inScope id = read at h
  unfold itemOfId at hread
  split at hread
  · subst hread
    cases h
    exact bit_align c₁
  · subst hread
    cases h
  · subst hread
    obtain ⟨count, c₂, -, h⟩ := exists_of_bind_ok h
    obtain ⟨a, c₃, -, h⟩ := exists_of_bind_ok h
    cases h
  · subst hread
    obtain ⟨record, c₂, -, h⟩ := exists_of_bind_ok h
    cases h
  · split at hread
    · subst hread
      cases h
    · subst hread
      obtain ⟨record, c₂, -, h⟩ := exists_of_bind_ok h
      cases h

theorem bit_of_readBlockInfo {header : BlockHeader} (h : readBlockInfo header r = .ok () r') :
    r'.cursor.bit = 0 := by
  unfold readBlockInfo at h
  split at h
  · cases h
  refine info_induction (motive := fun _ _ r' => r'.cursor.bit = 0) ?_ ?_ h
  · intro selected r r' hstep
    cases hstep with
    | ended hitem => exact bit_of_endBlock hitem
  · intro selected r next r₁ r' _ _ hend
    exact hend

theorem bit_of_run (h : run policy stack r = .ok () r') (hstart : stack = [] → r.cursor.bit = 0) :
    r'.cursor.bit = 0 := by
  refine run_induction (motive := fun stack r r' =>
    (stack = [] → r.cursor.bit = 0) → r'.cursor.bit = 0) ?_ ?_ h hstart
  · intro r hr
    exact hr rfl
  · intro frame rest r stack r₁ r' hstep _ hrest _
    refine hrest fun hstack => ?_
    cases hstep with
    | ended hitem => exact bit_of_endBlock hitem
    | passed => cases hstack
    | opened => cases hstack
    | defined => cases hstack
    | nothing => cases hstack
    | recorded => cases hstack

theorem bit_of_readSubBlock (h : readSubBlock policy level r = .ok () r') : r'.cursor.bit = 0 := by
  rw [readSubBlock_eq] at h
  obtain ⟨opened, r₁, henter, h⟩ := exists_of_bind_ok h
  refine bit_of_run h fun hnone => ?_
  cases enterBlock_eq_ok.mp henter with
  | info hheader hid hinfo => exact bit_of_readBlockInfo hinfo
  | opened => cases hnone
  | skipped hheader hid hpolicy hskip =>
    have hpos := (Cursor.of_skipWords_ok hskip).2
    simp only [Reader.moveTo, Reader.emit, Cursor.bit, hpos]
    omega

/-! ## Whole streams -/

/-- A stream whose root block starts at `c`, behind its opening abbreviation id. -/
structure Opens (words : Array UInt32) (c : Cursor) : Prop where
  first : ∃ first, words[1]? = some first ∧ first.toNat % 4 = 1
  words : c.words = words
  pos : c.pos = 34

theorem Opens.at?_eq {words : Array UInt32} {c : Cursor} (h : Opens words c) :
    Cursor.at? words 1 2 = some c := by
  obtain ⟨-, rfl, hpos⟩ := h
  have hle := c.pos_le
  rw [Cursor.at?, dif_pos (by omega)]
  exact congrArg some (Cursor.ext rfl hpos.symm)

/-- What is left of reading a stream once the root block has been read. -/
def outcome : EStateM.Result StreamError Reader Unit → Array Event × Except StreamError Cursor
  | .ok _ r => (r.events, .ok r.cursor)
  | .error e r => (r.events, .error e)

theorem visitWords_of_opens {words : Array UInt32} {c : Cursor} (h : Opens words c) :
    visitWords policy words = outcome (readSubBlock policy 0 { cursor := c }) := by
  have hat := h.at?_eq
  obtain ⟨first, hfirst, hid⟩ := h.first
  simp only [visitWords, hfirst, hid, hat]
  cases readSubBlock policy 0 { cursor := c } <;> rfl

theorem opens_of_visitWords_ok {words : Array UInt32} {events : Array Event} {c : Cursor}
    (h : visitWords policy words = (events, .ok c)) :
    ∃ start r, Opens words start ∧ readSubBlock policy 0 { cursor := start } = .ok () r ∧
      r.events = events ∧ r.cursor = c := by
  unfold visitWords at h
  split at h
  · cases h
  rename_i first hfirst
  split at h
  · cases h
  rename_i hid
  split at h
  · cases h
  rename_i start hat
  have hopens : Opens words start := by
    unfold Cursor.at? at hat
    split at hat
    · cases hat
      exact ⟨⟨first, hfirst, by omega⟩, rfl, rfl⟩
    · cases hat
  cases hread : readSubBlock policy 0 { cursor := start } with
  | error e r =>
    rw [hread] at h
    cases h
  | ok u r =>
    rw [hread] at h
    cases h
    exact ⟨start, r, hopens, hread, rfl, rfl⟩

end

end Dxil
