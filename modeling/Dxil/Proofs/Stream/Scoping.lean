import Dxil.Proofs.Stream.Moves

/-!
# Dxil.Proofs.Stream.Scoping

Where abbreviations are in force. Block info registers them for all blocks of an id that come after
it; what a block defines itself ends with it.

* `selection`, `definitionsFor` : what items of block info select, and define for the blocks of an
  id.
* `InfoItems` and `InfoEnds` : the items that block info takes in, and what stands behind them.
* `Moves.registered` : nothing but a definition in block info registers anything.
* `abbreviations_scoped` : what reading does to the abbreviations that are registered, also if it
  fails.
-/

namespace Dxil

/-! ## Items of block info -/

def Item.selects? : Item → Option UInt32
  | .record (some r) => r.selects?
  | _ => none

def Item.definition? : Item → Option Abbreviation
  | .define a => some a
  | _ => none

/-- The block that was selected last, if `selected` was it before the items. -/
def selection (selected : Option UInt32) (items : List Item) : Option UInt32 :=
  items.foldl (fun selected item => item.selects?.or selected) selected

/-- What the items define while blocks of the id are selected. -/
def definitionsFor (id : UInt32) : (selected : Option UInt32) → List Item → List Abbreviation
  | _, [] => []
  | selected, item :: items =>
    (if selected = some id then item.definition?.toList else []) ++
      definitionsFor id (item.selects?.or selected) items

theorem selection_concat (selected : Option UInt32) (items : List Item) (item : Item) :
    selection selected (items ++ [item]) = item.selects?.or (selection selected items) := by
  simp [selection]

theorem definitionsFor_concat (id : UInt32) (selected : Option UInt32) (items : List Item)
    (item : Item) :
    definitionsFor id selected (items ++ [item]) = definitionsFor id selected items ++
      if selection selected items = some id then item.definition?.toList else [] := by
  induction items generalizing selected with
  | nil => exact List.append_nil _
  | cons first items ih =>
    rw [List.cons_append, definitionsFor, definitionsFor, ih, List.append_assoc]
    rfl

/-- Block info that starts at `c` takes in the items up to `c'`. Its own abbreviations are those it
had before, `own`, and what the items define for blocks with its id. -/
inductive InfoItems (header : BlockHeader) (own : List Abbreviation) (c : Cursor) :
    List Item → Cursor → Prop where
  | nil : InfoItems header own c [] c
  | concat {items : List Item} {item : Item} {c₁ c₂ : Cursor}
      (h : InfoItems header own c items c₁)
      (hitem : readItem header.id header.width (own ++ definitionsFor header.id none items) c₁ =
        .ok item c₂) (hnext : item ≠ .endBlock)
      (haccepted : item.refusal header.id (selection none items) = none) :
      InfoItems header own c (items ++ [item]) c₂

/-- Behind its items, at `c`, block info ends, or something cannot be read or is refused. -/
def InfoEnds (header : BlockHeader) (own : List Abbreviation) (items : List Item) (c : Cursor) :
    EStateM.Result StreamError Reader Unit → Prop
  | .ok _ r =>
    readItem header.id header.width (own ++ definitionsFor header.id none items) c =
      .ok .endBlock r.cursor
  | .error e r =>
    readItem header.id header.width (own ++ definitionsFor header.id none items) c =
      .error e r.cursor ∨
    ∃ item, readItem header.id header.width (own ++ definitionsFor header.id none items) c =
      .ok item r.cursor ∧ item.refusal header.id (selection none items) = some e

/-- Block info that started at `r₀` has taken in the items up to `c`, and has registered what they
define. -/
structure TakenIn (header : BlockHeader) (r₀ r : Reader) (items : List Item) (c : Cursor) :
    Prop where
  holds : InfoItems header (r₀.abbreviationsFor header.id) r₀.cursor items c
  registered : ∀ id, r.abbreviationsFor id = r₀.abbreviationsFor id ++ definitionsFor id none items

def InfoReads (header : BlockHeader) (r₀ : Reader) : Place → Reader → Prop
  | .opening _ _, _ => False
  | .info h selected stack, r =>
    header = h ∧ stack = [] ∧ ∃ items, TakenIn header r₀ r items r.cursor ∧
      selected = selection none items
  | .within stack, r =>
    stack = [] ∧ ∃ items c, TakenIn header r₀ r items c ∧
      readItem header.id header.width
        (r₀.abbreviationsFor header.id ++ definitionsFor header.id none items) c =
        .ok .endBlock r.cursor

section

variable {policy : EntryPolicy} {header : BlockHeader} {p p' : Place} {r₀ r r' : Reader}
  {e : StreamError}

theorem TakenIn.concat {items : List Item} {item : Item} {c : Cursor}
    (h : TakenIn header r₀ r items r.cursor)
    (hitem : readItem header.id header.width (r.abbreviationsFor header.id) r.cursor = .ok item c)
    (hnext : item ≠ .endBlock)
    (haccepted : item.refusal header.id (selection none items) = none)
    (hregistered : ∀ id, r'.abbreviationsFor id = r.abbreviationsFor id ++
      if selection none items = some id then item.definition?.toList else []) :
    TakenIn header r₀ r' (items ++ [item]) c := by
  refine ⟨.concat h.holds (h.registered _ ▸ hitem) hnext haccepted, fun id => ?_⟩
  rw [hregistered, h.registered, definitionsFor_concat, List.append_assoc]

theorem Moves.infoReads (h : Moves policy p r p' r') (hp : InfoReads header r₀ p r) :
    InfoReads header r₀ p' r' := by
  cases h with
  | informed | entered | skipped => cases hp
  | info hstep =>
    obtain ⟨rfl, rfl, items, htaken, rfl⟩ := hp
    cases hstep with
    | @defined a id c hitem hselected hid =>
      have hnext : TakenIn header r₀ ((r.moveTo c).register id a) (items ++ [.define a]) c := by
        refine htaken.concat hitem (by simp) ?_ fun id' => ?_
        · simp [Item.refusal, hselected, hid]
        · simp [hselected, Item.definition?]
      exact ⟨rfl, rfl, _, hnext, (selection_concat none items (.define a)).symm⟩
    | @nothing c hitem =>
      have hnext : TakenIn header r₀ (r.moveTo c) (items ++ [.record none]) c :=
        htaken.concat hitem (by simp) rfl fun id' => by simp [Item.definition?]
      exact ⟨rfl, rfl, _, hnext, (selection_concat none items (.record none)).symm⟩
    | @recorded record _ c hitem hselect =>
      rw [selectBlock_eq] at hselect
      split at hselect <;> rename_i hempty <;> cases hselect
      have hnext : TakenIn header r₀ (r.moveTo c) (items ++ [.record (some record)]) c := by
        refine htaken.concat hitem (by simp) ?_ fun id' => by simp [Item.definition?]
        simp only [Item.refusal, if_neg hempty]
      exact ⟨rfl, rfl, _, hnext, (selection_concat none items (.record (some record))).symm⟩
  | infoEnded hstep =>
    obtain ⟨rfl, rfl, items, htaken, -⟩ := hp
    cases hstep with
    | ended hitem =>
      exact ⟨rfl, items, r.cursor, ⟨htaken.holds, htaken.registered⟩, htaken.registered _ ▸ hitem⟩
  | nested | ended | defined | nothing | recorded => cases hp.1

theorem Fails.infoEnds (h : Fails policy p r e r') (hp : InfoReads header r₀ p r) :
    ∃ items c, TakenIn header r₀ r' items c ∧
      InfoEnds header (r₀.abbreviationsFor header.id) items c (.error e r') := by
  cases h with
  | header | misplaced | skip => cases hp
  | infoItem hitem =>
    obtain ⟨rfl, rfl, items, htaken, -⟩ := hp
    exact ⟨items, r.cursor, ⟨htaken.holds, htaken.registered⟩,
      .inl (htaken.registered _ ▸ hitem)⟩
  | infoRefused hitem hrefused =>
    obtain ⟨rfl, rfl, items, htaken, rfl⟩ := hp
    exact ⟨items, r.cursor, ⟨htaken.holds, htaken.registered⟩,
      .inr ⟨_, htaken.registered _ ▸ hitem, hrefused⟩⟩
  | item | child => cases hp.1

/-- Block info registers what its items define, and nothing else. -/
theorem readBlockInfo_takesIn (hlevel : header.level ≤ 1) (r : Reader) :
    ∃ items c, TakenIn header r (finalState (readBlockInfo header r)) items c ∧
      InfoEnds header (r.abbreviationsFor header.id) items c (readBlockInfo header r) := by
  have hstart : InfoReads header r (.info header none []) r :=
    ⟨rfl, rfl, [], ⟨.nil, fun id => (List.append_nil _).symm⟩, rfl⟩
  have hend := ending_finish .all hstart (fun _ _ _ _ hmoves hp => hmoves.infoReads hp)
    (fun _ _ _ _ hfails hp => hfails.infoEnds hp)
  rw [← readBlockInfo_eq_finish .all r hlevel] at hend
  cases hread : readBlockInfo header r with
  | ok u r' =>
    rw [hread] at hend
    obtain ⟨-, items, c, htaken, hitem⟩ := hend
    exact ⟨items, c, htaken, hitem⟩
  | error e r' =>
    rw [hread] at hend
    exact hend

/-! ## What is registered -/

/-- Only a definition in block info registers an abbreviation, and never one for modules. -/
theorem Moves.registered (h : Moves policy p r p' r') :
    r'.registered = r.registered ∨ ∃ header selected stack id a,
      p = .info header selected stack ∧ id ≠ BlockKind.module.id ∧
        r'.registered = r.registered ++ [(id, a)] := by
  cases h with
  | info hstep =>
    cases hstep with
    | defined _ _ hid => exact .inr ⟨_, _, _, _, _, rfl, hid, rfl⟩
    | nothing => exact .inl rfl
    | recorded => exact .inl rfl
  | infoEnded hstep =>
    cases hstep with
    | ended => exact .inl rfl
  | informed | entered | skipped | nested | ended | defined | nothing | recorded =>
    exact .inl rfl

theorem Fails.registered (h : Fails policy p r e r') : r'.registered = r.registered := by
  cases h <;> rfl

theorem Reader.abbreviationsFor_of_append {new : List (UInt32 × Abbreviation)}
    (h : r'.registered = r.registered ++ new) (id : UInt32) :
    r'.abbreviationsFor id =
      r.abbreviationsFor id ++ { r with registered := new }.abbreviationsFor id := by
  rw [Reader.abbreviationsFor, h, List.filterMap_append]
  rfl

/-- What every move keeps of the abbreviations that are registered holds of a whole reading, also if
it fails. -/
theorem finalState_of_moves {P : Place → List (UInt32 × Abbreviation) → Prop} (policy : EntryPolicy)
    (p : Place) (r : Reader) (h : P p r.registered)
    (hmoves : ∀ p r p' r', Moves policy p r p' r' → P p r.registered → P p' r'.registered) :
    ∃ p', P p' (finalState (finish policy p r)).registered := by
  have hend := ending_finish (I := fun p r => P p r.registered)
    (E := fun _ r => ∃ p, P p r.registered) policy h hmoves
    fun p r e r' hfails hp => ⟨p, hfails.registered ▸ hp⟩
  cases hfinish : finish policy p r with
  | ok u r' =>
    rw [hfinish] at hend
    exact ⟨_, hend⟩
  | error e r' =>
    rw [hfinish] at hend
    exact hend

theorem registered_extends (policy : EntryPolicy) (p : Place) (r : Reader) :
    ∃ new, (finalState (finish policy p r)).registered = r.registered ++ new ∧
      ∀ entry ∈ new, entry.1 ≠ BlockKind.module.id := by
  obtain ⟨-, hnew⟩ := finalState_of_moves
    (P := fun _ l => ∃ new, l = r.registered ++ new ∧ ∀ entry ∈ new, entry.1 ≠ BlockKind.module.id)
    policy p r ⟨[], by simp⟩ fun p₁ r₁ p₂ r₂ hmoves ⟨new, hregistered, hids⟩ => by
      obtain hsame | ⟨_, _, _, id, a, -, hid, hadded⟩ := hmoves.registered
      · exact ⟨new, hsame.trans hregistered, hids⟩
      · refine ⟨new ++ [(id, a)], by rw [hadded, hregistered, List.append_assoc], ?_⟩
        exact List.forall_mem_append.mpr ⟨hids, List.forall_mem_singleton.mpr hid⟩
  exact hnew

def Place.IsDeep : Place → Prop
  | .opening level stack => 2 ≤ level ∧ ∀ f ∈ stack, 1 ≤ f.header.level
  | .info _ _ _ => False
  | .within stack => ∀ f ∈ stack, 1 ≤ f.header.level

theorem Moves.isDeep (h : Moves policy p r p' r') (hp : p.IsDeep) : p'.IsDeep := by
  cases h with
  | informed hheader _ hlevel =>
    -- Block info may not stand this deep.
    have hsame := (of_readBlockHeader_ok hheader).1
    have htwo := hp.1
    omega
  | @entered level _ _ header _ hheader =>
    have hsame := (of_readBlockHeader_ok hheader).1
    have htwo := hp.1
    have hone : 1 ≤ header.level := by omega
    exact List.forall_mem_cons.mpr ⟨hone, hp.2⟩
  | skipped => exact hp.2
  | info | infoEnded => cases hp
  | nested =>
    have hone := (List.forall_mem_cons.mp hp).1
    exact ⟨by omega, hp⟩
  | ended => exact (List.forall_mem_cons.mp hp).2
  | defined => exact List.forall_mem_cons.mpr (List.forall_mem_cons.mp hp)
  | nothing => exact hp
  | recorded => exact hp

/-- Blocks deeper down than the root leave what is registered as it is. -/
theorem registered_finish (policy : EntryPolicy) (p : Place) (r : Reader) (hp : p.IsDeep) :
    (finalState (finish policy p r)).registered = r.registered := by
  obtain ⟨-, -, hsame⟩ := finalState_of_moves (P := fun p l => p.IsDeep ∧ l = r.registered) policy
    p r ⟨hp, rfl⟩ fun p₁ r₁ p₂ r₂ hmoves ⟨hdeep, hsame⟩ => by
      refine ⟨hmoves.isDeep hdeep, ?_⟩
      obtain hnone | ⟨_, _, _, _, _, rfl, -⟩ := hmoves.registered
      · exact hnone.trans hsame
      · cases hdeep
  exact hsame

end

/-- What reading does to the abbreviations that are registered, whether or not it fails.

* A block and all that is in it leave those that are there before as they are, and in order.
* A block below the root leaves all of them as they are.
* Block info adds for each id, in order, what its items define while that id is selected.
* None are ever added for modules. -/
theorem abbreviations_scoped (policy : EntryPolicy) (r : Reader) :
    (∀ level id, r.abbreviationsFor id <+:
      (finalState (readSubBlock policy level r)).abbreviationsFor id) ∧
    (∀ header : BlockHeader, 1 ≤ header.level →
      (finalState (readBlock policy header r)).registered = r.registered) ∧
    (∀ header : BlockHeader, header.level ≤ 1 → ∃ items c,
      InfoItems header (r.abbreviationsFor header.id) r.cursor items c ∧
      InfoEnds header (r.abbreviationsFor header.id) items c (readBlockInfo header r) ∧
      ∀ id, (finalState (readBlockInfo header r)).abbreviationsFor id =
        r.abbreviationsFor id ++ definitionsFor id none items) ∧
    ∀ level, (finalState (readSubBlock policy level r)).abbreviationsFor BlockKind.module.id =
      r.abbreviationsFor BlockKind.module.id := by
  refine ⟨?_, ?_, ?_, ?_⟩
  · intro level id
    obtain ⟨new, hnew, -⟩ := registered_extends policy (.opening level []) r
    rw [readSubBlock_eq_finish, Reader.abbreviationsFor_of_append hnew]
    exact List.prefix_append _ _
  · intro header hlevel
    rw [readBlock_eq_finish]
    exact registered_finish policy _ r (List.forall_mem_singleton.mpr hlevel)
  · intro header hlevel
    obtain ⟨items, c, htaken, hends⟩ := readBlockInfo_takesIn hlevel r
    exact ⟨items, c, htaken.holds, hends, htaken.registered⟩
  · intro level
    obtain ⟨new, hnew, hids⟩ := registered_extends policy (.opening level []) r
    have hnone : { r with registered := new }.abbreviationsFor BlockKind.module.id = [] :=
      List.filterMap_eq_nil_iff.mpr fun entry hentry => if_neg (hids entry hentry)
    rw [readSubBlock_eq_finish, Reader.abbreviationsFor_of_append hnew, hnone, List.append_nil]

/-- Block info that selects the types and defines, selects itself and defines an abbreviation that
selects, and with that selects the types once more and defines again. Last, with an id beyond 32
bits, it selects modules, for which it may not define anything. -/
theorem abbreviations_scoped_selected :
    let words : List UInt32 := [0x8148820b, 0x900082cc, 0x30902018, 0x2, 0x40000000, 0x890c2,
      0x10000, 0x120a0000, 0x0]
    let header : BlockHeader :=
      { id := BlockKind.blockInfo.id, width := 3, start := 0, length := 9, level := 1 }
    let r : Reader := { cursor := ⟨words.toArray, 0, by decide⟩ }
    (readBlockInfo header).run' r = none ∧
    (∃ items c, InfoItems header [] r.cursor items c ∧
      InfoEnds header [] items c (readBlockInfo header r) ∧
      definitionsFor BlockKind.type.id none items =
        [{ fields := [.vbr 6] }, { fields := [], payload := some (.array .char6) }] ∧
      definitionsFor BlockKind.blockInfo.id none items = [{ fields := [.literal 1, .fixed 64] }]) ∧
    (finalState (readBlock .all header r)).registered = [] := by
  intro words header r
  refine ⟨by decide +kernel, ?_⟩
  obtain ⟨-, hbelow, hinfo, -⟩ := abbreviations_scoped .all r
  obtain ⟨items, c, hitems, hends, happended⟩ := hinfo header (by decide)
  refine ⟨⟨items, c, hitems, hends, ?_, ?_⟩, hbelow header (by decide)⟩
  · have htypes := happended BlockKind.type.id
    rw [show (finalState (readBlockInfo header r)).abbreviationsFor BlockKind.type.id =
      [{ fields := [.vbr 6] }, { fields := [], payload := some (.array .char6) }] by
        decide +kernel] at htypes
    exact htypes.symm
  · have hown := happended BlockKind.blockInfo.id
    rw [show (finalState (readBlockInfo header r)).abbreviationsFor BlockKind.blockInfo.id =
      [{ fields := [.literal 1, .fixed 64] }] by decide +kernel] at hown
    exact hown.symm

end Dxil
