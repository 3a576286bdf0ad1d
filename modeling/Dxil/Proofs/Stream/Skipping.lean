import Dxil.Proofs.Stream.Local
import Dxil.Proofs.Stream.Scoping

/-!
# Dxil.Proofs.Stream.Skipping

Blocks may be passed over by their declared length instead of being read. What is delivered is then
what reading everything delivers, less the content of those blocks.

* `spans` : the blocks of a stream as they end, each with the word it ends at.
* `Measured` : blocks declare the length that they have.
* `prune` : events without the content of some blocks.
* `run_skipping` : a run that passes over blocks follows the run that reads them.
* `visit_skipping` : whole streams.
-/

namespace Dxil

/-! ## Blocks and where they end -/

set_option linter.unusedVariables false in
/-- The blocks that end while `stack` is read, each with the word that it ends at. -/
def spans (policy : EntryPolicy) (stack : List Frame) (r : Reader) : List (BlockHeader × Nat) :=
  match stack with
  | [] => []
  | frame :: rest =>
    match h : step policy frame rest r with
    | .error _ _ => []
    | .ok stack' r' =>
      -- The open blocks get fewer when the innermost one ends.
      if stack'.length ≤ rest.length then (frame.header, r'.cursor.word) :: spans policy stack' r'
      else spans policy stack' r'
termination_by r.cursor.left + stack.length
decreasing_by all_goals exact (step_eq_ok.mp h).measure_lt

def subBlockSpans (policy : EntryPolicy) (level : Nat) (r : Reader) : List (BlockHeader × Nat) :=
  match enterBlock policy level r with
  | .error _ _ => []
  | .ok opened r' => spans policy opened.toList r'

def blockSpans (words : Array UInt32) : List (BlockHeader × Nat) :=
  match Cursor.at? words 1 2 with
  | none => []
  | some cursor => subBlockSpans .all 0 { cursor }

/-- Blocks with one of the ids have as many words as they declare. -/
def Measured (ids : List UInt32) (blocks : List (BlockHeader × Nat)) : Prop :=
  ∀ b ∈ blocks, b.1.id ∈ ids → b.1.start + b.1.length.toNat = b.2

instance (ids : List UInt32) (blocks : List (BlockHeader × Nat)) :
    Decidable (Measured ids blocks) :=
  inferInstanceAs (Decidable (∀ b ∈ blocks, _))

/-! ## Events without the content of blocks -/

/-- Leave out what follows the start of an outermost block with one of the ids, up to its end.
`depth` counts the blocks that are open from such a block on. -/
def prune (ids : List UInt32) : (depth : Nat) → List Event → List Event
  | _, [] => []
  | 0, .enter h :: es => .enter h :: prune ids (if h.id ∈ ids then 1 else 0) es
  | 0, e :: es => e :: prune ids 0 es
  | depth + 1, .enter _ :: es => prune ids (depth + 2) es
  | depth + 1, .exit _ :: es => prune ids depth es
  | depth + 1, .record _ _ :: es => prune ids (depth + 1) es

section

variable {policy : EntryPolicy} {frame : Frame} {rest stack s t : List Frame} {level : Nat}
  {r r₁ r' : Reader} {ids : List UInt32}

theorem spans_of_stepped (h : Stepped policy frame rest r stack r') :
    spans policy (frame :: rest) r =
      (if stack.length ≤ rest.length then [(frame.header, r'.cursor.word)] else []) ++
        spans policy stack r' := by
  rw [spans]
  split <;> rename_i hstep <;> rw [step_eq_ok.mpr h] at hstep <;> cases hstep
  split <;> rfl

/-! ## Runs of several blocks -/

theorem Stepped.append (h : Stepped policy frame rest r stack r') (t : List Frame) :
    Stepped policy frame (rest ++ t) r (stack ++ t) r' := by
  cases h with
  | ended hitem => exact .ended hitem
  | passed hitem hnest henter => exact .passed hitem hnest henter
  | opened hitem hnest henter => exact .opened hitem hnest henter
  | defined hitem => exact .defined hitem
  | nothing hitem => exact .nothing hitem
  | recorded hitem => exact .recorded hitem

theorem spans_append (h : run policy s r = .ok () r₁) (t : List Frame) :
    spans policy (s ++ t) r = spans policy s r ++ spans policy t r₁ := by
  refine run_induction (motive := fun s r r₁ =>
    spans policy (s ++ t) r = spans policy s r ++ spans policy t r₁) ?_ ?_ h
  · intro r
    rw [spans]
    rfl
  · intro frame rest r stack r₁ r' hstep _ ih
    have hlen : (stack ++ t).length ≤ (rest ++ t).length ↔ stack.length ≤ rest.length := by
      simp only [List.length_append]
      omega
    rw [List.cons_append, spans_of_stepped (hstep.append t), spans_of_stepped hstep, ih,
      List.append_assoc]
    simp only [hlen]

theorem mem_spans_of_run {header : BlockHeader} (h : run policy stack r = .ok () r')
    (hlast : stack.getLast?.map Frame.header = some header) :
    (header, r'.cursor.word) ∈ spans policy stack r := by
  refine run_induction (motive := fun stack r r' => stack.getLast?.map Frame.header = some header →
    (header, r'.cursor.word) ∈ spans policy stack r) ?_ ?_ h hlast
  · intro r hr
    cases hr
  · intro frame rest r stack r₁ r' hstep hrun ih hlast
    rw [spans_of_stepped hstep]
    cases stack with
    | nil =>
      -- The last block ends with this step.
      rw [run_nil] at hrun
      cases hrun
      cases hstep
      simp at hlast
      simp [hlast]
    | cons f stack =>
      refine List.mem_append_right _ (ih ?_)
      rw [← hlast]
      cases hstep with
      | ended => rw [List.getLast?_cons_cons]
      | passed => rfl
      | opened => rw [List.getLast?_cons_cons]
      | defined =>
        cases rest with
        | nil => rfl
        | cons g rest => rw [List.getLast?_cons_cons, List.getLast?_cons_cons]
      | nothing => rfl
      | recorded => rfl

/-! ## The content of a block -/

theorem registered_of_run (h : run policy stack r = .ok () r')
    (hlevel : ∀ f ∈ stack, 1 ≤ f.header.level) : r'.registered = r.registered := by
  have hsame := registered_finish policy (.within stack) r hlevel
  rwa [show finish policy (.within stack) r = .ok () r' from h] at hsame

def Reader.withEvents (r : Reader) (events : Array Event) : Reader := { r with events }

theorem Reader.emit_withEvents (r : Reader) (es : Array Event) (e : Event) :
    (r.withEvents es).emit e = (r.emit e).withEvents (es ++ [e].toArray) := by
  simp [emit, withEvents]

theorem Reader.toList_emit (r : Reader) (e : Event) :
    (r.emit e).events.toList = r.events.toList ++ [e] := by
  simp [emit]

/-- Block info delivers nothing and does not look at what was delivered. -/
theorem readBlockInfo_withEvents {header : BlockHeader} (h : readBlockInfo header r = .ok () r') :
    r'.events = r.events ∧
      ∀ es, readBlockInfo header (r.withEvents es) = .ok () (r'.withEvents es) := by
  unfold readBlockInfo at h ⊢
  by_cases hlevel : 1 < header.level
  · rw [if_pos hlevel] at h
    cases h
  rw [if_neg hlevel] at h
  simp only [if_neg hlevel]
  refine info_induction (motive := fun selected r r' => r'.events = r.events ∧ ∀ es,
    readBlockInfoItems header selected (r.withEvents es) = .ok () (r'.withEvents es)) ?_ ?_ h
  · intro selected r r' hstep
    cases hstep with
    | ended hitem =>
      refine ⟨rfl, fun es => ?_⟩
      have hstep : InfoStepped header selected (r.withEvents es) none _ := .ended hitem
      rw [readBlockInfoItems_eq, bind_of_ok (infoStep_eq_ok.mpr hstep)]
      rfl
  · intro selected r next r₁ r' hstep _ ih
    obtain ⟨hevents, hsame⟩ : r₁.events = r.events ∧ ∀ es,
        InfoStepped header selected (r.withEvents es) (some next) (r₁.withEvents es) := by
      cases hstep with
      | defined hitem hselected hid => exact ⟨rfl, fun es => .defined hitem hselected hid⟩
      | nothing hitem => exact ⟨rfl, fun es => .nothing hitem⟩
      | recorded hitem hnext => exact ⟨rfl, fun es => .recorded hitem hnext⟩
    refine ⟨ih.1.trans hevents, fun es => ?_⟩
    rw [readBlockInfoItems_eq, bind_of_ok (infoStep_eq_ok.mpr (hsame es))]
    exact ih.2 es

/-- The events of blocks that are read to their end bring the depth down by their number. -/
theorem prune_events_of_run (ids : List UInt32) (h : run .all stack r = .ok () r') :
    ∃ es, r'.events.toList = r.events.toList ++ es ∧
      ∀ depth after, prune ids (depth + stack.length) (es ++ after) = prune ids depth after := by
  refine run_induction (motive := fun stack r r' => ∃ es,
    r'.events.toList = r.events.toList ++ es ∧ ∀ depth after,
      prune ids (depth + stack.length) (es ++ after) = prune ids depth after) ?_ ?_ h
  · intro r
    exact ⟨[], by simp, fun _ _ => rfl⟩
  · intro frame rest r stack r₁ r' hstep _ ih
    obtain ⟨es, hes, hprune⟩ := ih
    cases hstep with
    | ended =>
      exact ⟨.exit frame.header.id :: es, by simp [hes, Reader.emit, Reader.moveTo], hprune⟩
    | passed _ _ henter =>
      cases henter with
      | info _ _ hinfo => exact ⟨es, by rw [hes, (readBlockInfo_withEvents hinfo).1]; rfl, hprune⟩
      | skipped _ _ hpolicy => cases hpolicy
    | opened _ _ henter =>
      cases henter with
      | @opened header =>
        exact ⟨.enter header :: es, by simp [hes, Reader.emit, Reader.moveTo], hprune⟩
    | defined => exact ⟨es, hes, hprune⟩
    | nothing => exact ⟨es, hes, hprune⟩
    | @recorded record =>
      exact ⟨.record frame.header.id record :: es,
        by simp [hes, Reader.emit, Reader.moveTo], hprune⟩

/-! ## Both runs side by side -/

theorem skipWords_of_word {count : Nat} {c c' : Cursor} (hwords : c'.words = c.words)
    (hbit : c'.bit = 0) (hword : c.word + count = c'.word) :
    Cursor.skipWords count c = .ok () c' := by
  have hle := c'.pos_le
  rw [hwords] at hle
  simp only [Cursor.bit, Cursor.word] at hbit hword
  rw [Cursor.skipWords, dif_pos (by simp only [Cursor.word]; omega)]
  refine congrArg (EStateM.Result.ok ()) (Cursor.ext hwords.symm ?_)
  change 32 * (c.word + count) = c'.pos
  simp only [Cursor.word]
  omega

theorem left_of_run (h : run policy stack r = .ok () r') : r'.cursor.left ≤ r.cursor.left := by
  have hpass := Local.runM policy stack r () r' h
  have hwords : r'.cursor.words = r.cursor.words := hpass.words
  have hforward : r.cursor.pos ≤ r'.cursor.pos := hpass.forward
  simp only [Cursor.left, hwords]
  omega

/-- The content of a block that was read, and what passing over it does instead. -/
theorem skip_of_run {header : BlockHeader} {inScope : List Abbreviation} {c₀ : Cursor}
    (hheader : readBlockHeader level c₀ = .ok header r.cursor)
    (h : run .all [⟨header, inScope⟩] r = .ok () r') (hid : header.id ∈ ids)
    (hmeasured : Measured ids (spans .all [⟨header, inScope⟩] r)) :
    Cursor.skipWords header.length.toNat r.cursor = .ok () r'.cursor := by
  have hstart := (of_readBlockHeader_ok hheader).2
  have hend : header.start + header.length.toNat = r'.cursor.word :=
    hmeasured (header, r'.cursor.word) (mem_spans_of_run h rfl) hid
  exact skipWords_of_word (Local.runM .all _ r () r' h).words (bit_of_run h (by simp)) (by omega)

/-- A step of the run that reads everything is a step of the other run too, unless it opens a block
that is passed over there. -/
theorem Stepped.skipping (ids : List UInt32) (h : Stepped .all frame rest r stack r₁) :
    (∃ es, r₁.events.toList = r.events.toList ++ es ∧
      (∀ after, prune ids 0 (es ++ after) = es ++ prune ids 0 after) ∧
      ∀ qs, Stepped (.skipping ids) frame rest (r.withEvents qs) stack
        (r₁.withEvents (qs ++ es.toArray))) ∨
    ∃ header c c₁, readItem frame.header.id frame.header.width frame.inScope r.cursor =
        .ok .subBlock c ∧ frame.header.mayNest ∧
      readBlockHeader (frame.header.level + 1) c = .ok header c₁ ∧
      header.id ≠ BlockKind.blockInfo.id ∧ header.id ∈ ids ∧
      stack = r.frame header :: frame :: rest ∧ r₁ = (r.moveTo c₁).emit (.enter header) := by
  have hempty : ∀ qs : Array Event, qs ++ ([] : List Event).toArray = qs := fun qs => by simp
  cases h with
  | ended hitem =>
    refine .inl ⟨[.exit frame.header.id], Reader.toList_emit _ _, fun _ => rfl, fun qs => ?_⟩
    rw [← Reader.emit_withEvents]
    exact .ended hitem
  | passed hitem hnest henter =>
    cases henter with
    | info hheader hid hinfo =>
      obtain ⟨hevents, hsame⟩ := readBlockInfo_withEvents hinfo
      refine .inl ⟨[], by rw [hevents, List.append_nil]; rfl, fun _ => rfl, fun qs => ?_⟩
      rw [hempty]
      exact .passed hitem hnest (.info hheader hid (hsame qs))
    | skipped _ _ hpolicy => cases hpolicy
  | opened hitem hnest henter =>
    cases henter with
    | @opened header c₁ hheader hid _ =>
      by_cases hmem : header.id ∈ ids
      · exact .inr ⟨header, _, c₁, hitem, hnest, hheader, hid, hmem, rfl, rfl⟩
      · refine .inl ⟨[.enter header], Reader.toList_emit _ _, ?_, fun qs => ?_⟩
        · intro after
          simp only [List.cons_append, List.nil_append, prune, if_neg hmem]
        · rw [← Reader.emit_withEvents]
          have hpolicy : EntryPolicy.skipping ids qs header = true := by
            simp [EntryPolicy.skipping, hmem]
          exact .opened hitem hnest (.opened hheader hid hpolicy)
  | defined hitem =>
    refine .inl ⟨[], (List.append_nil _).symm, fun _ => rfl, fun qs => ?_⟩
    rw [hempty]
    exact .defined hitem
  | nothing hitem =>
    refine .inl ⟨[], (List.append_nil _).symm, fun _ => rfl, fun qs => ?_⟩
    rw [hempty]
    exact .nothing hitem
  | @recorded record _ hitem =>
    refine .inl ⟨[.record frame.header.id record], Reader.toList_emit _ _, fun _ => rfl,
      fun qs => ?_⟩
    rw [← Reader.emit_withEvents]
    exact .recorded hitem

theorem Stepped.of_skipped {header : BlockHeader} {c c₁ : Cursor} (rest : List Frame)
    (hitem : readItem frame.header.id frame.header.width frame.inScope r.cursor = .ok .subBlock c)
    (hnest : frame.header.mayNest)
    (hheader : readBlockHeader (frame.header.level + 1) c = .ok header c₁)
    (hid : header.id ≠ BlockKind.blockInfo.id) (hmem : header.id ∈ ids)
    (h : run .all [r.frame header] ((r.moveTo c₁).emit (.enter header)) = .ok () r')
    (hmeasured : Measured ids
      (spans .all [r.frame header] ((r.moveTo c₁).emit (.enter header)))) (qs : Array Event) :
    Stepped (.skipping ids) frame rest (r.withEvents qs) (frame :: rest)
      (r'.withEvents (qs ++ [.enter header].toArray)) := by
  have hskip : Cursor.skipWords header.length.toNat c₁ = .ok () r'.cursor :=
    skip_of_run (r := (r.moveTo c₁).emit (.enter header)) hheader h hmem hmeasured
  have hregistered : r'.registered = ((r.moveTo c₁).emit (.enter header)).registered := by
    refine registered_of_run h fun f hf => ?_
    obtain rfl := List.mem_singleton.mp hf
    have hlevel : header.level = frame.header.level + 1 := (of_readBlockHeader_ok hheader).1
    exact hlevel ▸ Nat.le_add_left 1 _
  have hpolicy : EntryPolicy.skipping ids qs header = false := by
    simp [EntryPolicy.skipping, hmem]
  have hsame : r'.withEvents (qs ++ [.enter header].toArray) =
      ((r.withEvents qs).moveTo r'.cursor).emit (.enter header) := by
    simp [Reader.withEvents, Reader.moveTo, Reader.emit, hregistered]
  rw [hsame]
  exact .passed hitem hnest (.skipped hheader hid hpolicy hskip)

theorem Measured.append {as bs : List (BlockHeader × Nat)} (h : Measured ids (as ++ bs)) :
    Measured ids as ∧ Measured ids bs :=
  ⟨fun b hb => h b (List.mem_append_left _ hb), fun b hb => h b (List.mem_append_right _ hb)⟩

/-- The run that passes over blocks goes where the run that reads them goes. -/
theorem run_skipping (h : run .all stack r = .ok () r')
    (hmeasured : Measured ids (spans .all stack r)) :
    ∃ es, r'.events.toList = r.events.toList ++ es ∧
      ∀ qs, run (.skipping ids) stack (r.withEvents qs) =
        .ok () (r'.withEvents (qs ++ (prune ids 0 es).toArray)) := by
  -- Passing over a block answers many steps at once, so the induction is on what is left.
  induction hn : r.cursor.left + stack.length using Nat.strongRecOn generalizing stack r with
  | _ n ih =>
    match stack with
    | [] =>
      rw [run_nil] at h
      cases h
      exact ⟨[], (List.append_nil _).symm, fun qs => by simp [run_nil, prune]⟩
    | frame :: rest =>
      obtain ⟨stack, r₁, hstep, hrun⟩ := stepped_of_run h
      have hlt := hstep.measure_lt
      rw [spans_of_stepped hstep] at hmeasured
      obtain ⟨es, hes, hkeep, hsame⟩ |
        ⟨header, c, c₁, hitem, hnest, hheader, hid, hmem, rfl, rfl⟩ := hstep.skipping ids
      · obtain ⟨es', hes', hrest⟩ := ih _ (hn ▸ hlt) hrun hmeasured.append.2 rfl
        refine ⟨es ++ es', by rw [hes', hes, List.append_assoc], fun qs => ?_⟩
        rw [run_of_stepped (hsame qs), hrest, hkeep]
        simp
      · -- The block as a whole, then what comes behind it.
        obtain ⟨r₂, hinner, houter⟩ := run_append_ok (s := [r.frame header]) hrun
        have hblocks := hmeasured.append.2
        rw [← List.singleton_append, spans_append hinner] at hblocks
        have hleft := left_of_run hinner
        have hlt' : r₂.cursor.left + (frame :: rest).length < n := by
          simp only [List.length_cons] at hlt hn ⊢
          omega
        obtain ⟨es₁, hes₁, hprune⟩ := prune_events_of_run ids hinner
        obtain ⟨es₂, hes₂, hrest⟩ := ih _ hlt' houter hblocks.append.2 rfl
        refine ⟨.enter header :: (es₁ ++ es₂), ?_, fun qs => ?_⟩
        · rw [hes₂, hes₁, Reader.toList_emit]
          simp [Reader.moveTo]
        · have hpassed := Stepped.of_skipped rest hitem hnest hheader hid hmem hinner
            hblocks.append.1 qs
          have hevents : prune ids 0 (.enter header :: (es₁ ++ es₂)) =
              .enter header :: prune ids 0 es₂ := by
            rw [prune, if_pos hmem]
            exact congrArg _ (hprune 0 es₂)
          rw [run_of_stepped hpassed, hrest, hevents]
          simp

/-! ## Whole streams -/

theorem readSubBlock_skipping {cursor : Cursor}
    (h : readSubBlock .all level { cursor } = .ok () r')
    (hmeasured : Measured ids (subBlockSpans .all level { cursor })) :
    ∃ q, readSubBlock (.skipping ids) level { cursor } = .ok () q ∧ q.cursor = r'.cursor ∧
      q.events = (prune ids 0 r'.events.toList).toArray := by
  rw [readSubBlock_eq] at h ⊢
  obtain ⟨opened, r₁, henter, hrun⟩ := exists_of_bind_ok h
  rw [subBlockSpans, henter] at hmeasured
  cases enterBlock_eq_ok.mp henter with
  | info hheader hid hinfo =>
    have hend : r₁ = r' := by
      have hrun : run .all [] r₁ = .ok () r' := hrun
      rw [run_nil] at hrun
      cases hrun
      rfl
    subst hend
    have hsame : enterBlock (.skipping ids) level { cursor } = .ok none r₁ :=
      enterBlock_eq_ok.mpr (.info hheader hid hinfo)
    refine ⟨r₁, (bind_of_ok hsame).trans run_nil, rfl, ?_⟩
    rw [(readBlockInfo_withEvents hinfo).1]
    rfl
  | @opened header c hheader hid _ =>
    by_cases hmem : header.id ∈ ids
    · -- The block itself is passed over.
      have hskip := skip_of_run (r := ({ cursor : Reader }.moveTo c).emit (.enter header)) hheader
        hrun hmem hmeasured
      have hpolicy : EntryPolicy.skipping ids #[] header = false := by
        simp [EntryPolicy.skipping, hmem]
      have hpassed : enterBlock (.skipping ids) level { cursor } =
          .ok none (({ cursor : Reader }.moveTo r'.cursor).emit (.enter header)) :=
        enterBlock_eq_ok.mpr (.skipped hheader hid hpolicy hskip)
      refine ⟨_, (bind_of_ok hpassed).trans run_nil, rfl, ?_⟩
      obtain ⟨es, hes, hprune⟩ := prune_events_of_run ids hrun
      have hnone : prune ids 1 es = [] := by
        have hclosed := hprune 0 []
        rwa [List.append_nil, prune] at hclosed
      rw [hes, Reader.toList_emit]
      simp [Reader.moveTo, Reader.emit, prune, hmem, hnone]
    · have hpolicy : EntryPolicy.skipping ids #[] header = true := by
        simp [EntryPolicy.skipping, hmem]
      have hopened : enterBlock (.skipping ids) level { cursor } = .ok _ _ :=
        enterBlock_eq_ok.mpr (.opened hheader hid hpolicy)
      obtain ⟨es, hes, hsame⟩ := run_skipping hrun hmeasured
      refine ⟨_, (bind_of_ok hopened).trans (hsame #[.enter header]), rfl, ?_⟩
      rw [hes, Reader.toList_emit]
      simp [Reader.withEvents, Reader.moveTo, prune, hmem]
  | skipped _ _ hpolicy => cases hpolicy

/-- Passing over blocks that have their declared length ends where reading them ends, and delivers
the same events but for the content of the outermost of those blocks. -/
theorem visit_skipping {bytes : List UInt8} {events : Array Event} {c : Cursor}
    (h : visit .all bytes = (events, .ok c))
    (hmeasured : Measured ids (blockSpans (wordsOfBytes bytes).toArray)) :
    visit (.skipping ids) bytes = ((prune ids 0 events.toList).toArray, .ok c) := by
  obtain ⟨start, r, hopens, hread, rfl, rfl⟩ := opens_of_visitWords_ok h
  rw [blockSpans, hopens.at?_eq] at hmeasured
  obtain ⟨q, hskip, hcursor, hevents⟩ := readSubBlock_skipping hread hmeasured
  rw [visit, visitWords_of_opens hopens, hskip, outcome, hcursor, hevents]

end

/-- A module with a type table and a function, both passed over, the function with its constants. -/
theorem visit_skipping_nested :
    let words : List UInt32 := [0xdec04342, 0xc21, 0xb, 0x1889, 0x1, 0x2020b, 0x1861, 0x5,
      0xb21020b, 0x3, 0x1, 0x20b, 0x53, 0x28213]
    let bytes := words.flatMap bytesOfWord
    let ids := [BlockKind.type.id, BlockKind.function.id]
    ∃ events c, visit .all bytes = (events, .ok c) ∧
      Measured ids (blockSpans (wordsOfBytes bytes).toArray) ∧ events.size = 13 ∧
      (prune ids 0 events.toList).length = 5 ∧
      visit (.skipping ids) bytes = ((prune ids 0 events.toList).toArray, .ok c) := by
  intro words bytes ids
  have hmeasured : Measured ids (blockSpans (wordsOfBytes bytes).toArray) := by decide +kernel
  have hsize : (visit .all bytes).1.size = 13 := by decide +kernel
  have hpruned : (prune ids 0 (visit .all bytes).1.toList).length = 5 := by decide +kernel
  have hok : (visit .all bytes).2.isOk = true := by decide +kernel
  rcases hvisit : visit .all bytes with ⟨events, outcome⟩
  cases outcome with
  | error e =>
    rw [hvisit] at hok
    cases hok
  | ok c =>
    rw [hvisit] at hsize hpruned
    exact ⟨events, c, rfl, hmeasured, hsize, hpruned, visit_skipping hvisit hmeasured⟩

end Dxil
