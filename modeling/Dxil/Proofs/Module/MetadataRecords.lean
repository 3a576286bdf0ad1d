import Dxil.Proofs.Module.Metadata
import Dxil.Proofs.Module.TypeRecords

/-!
# Dxil.Proofs.Module.MetadataRecords

A metadata table holds what the records of its block say. Slots are counted before they are filled,
so that a node may refer to one that comes later, and roots are looked at when all are there.

* `Metadata.waitingName` : the name that waits for its list, after some records.
* `Tabulates` : entries for some of the records, in order.
* `MetadataTable.DefinedBy` : a table that holds what records say, and refers to what exists.
* `Metadata.State.Follows` : what holds of the table after some records.
* `MetadataTable.decode_definedBy` : what all records of a block do.
* `Ensures.metadataDecodeAll` : every table of a module is closed.
-/

namespace Dxil

/-- The last name that no list has taken, after some records. -/
def Metadata.waitingName (records : List Record) : Option String :=
  lastPending Record.isNamedNode Record.metadataName? records

/-- The entries are those of the records with `p`, in order. What an entry is may depend on the
records before its own. -/
structure Tabulates {β : Type} (p : Record → Bool) (R : List Record → Record → β → Prop)
    (records : List Record) (entries : List β) : Prop where
  length : entries.length = records.countP p
  entry : ∀ before r, before ++ [r] <+: records → p r = true →
    ∃ b, entries[before.countP p]? = some b ∧ R before r b

/-- The table holds what the records say, and everything that it refers to exists. -/
structure MetadataTable.DefinedBy (types : TypeTable) (values : Values) (records : List Record)
    (t : MetadataTable) : Prop extends t.Closed types values where
  entries : Tabulates takesSlot (fun _ r v => r.metadata? = some v) records t.values.toList
  /-- Only a distinct node refers to itself. -/
  distinct : ∀ (slot : Nat) operands, t.values[slot]? = some (.node false operands) →
    some slot ∉ operands
  lists : Tabulates Record.isNamedNode
    (fun before r list => Metadata.waitingName before = some list.name ∧
      list.operands = r.operands.map UInt64.toNat) records t.named
  /-- Lists are of nodes. -/
  nodes : ∀ list ∈ t.named, ∀ slot ∈ list.operands,
    ∃ isDistinct operands, t.values[slot]? = some (.node isDistinct operands)

namespace Tabulates

variable {β : Type} {p : Record → Bool} {R : List Record → Record → β → Prop}
  {done : List Record} {r : Record} {entries : List β}

theorem nil : Tabulates p R [] [] :=
  ⟨rfl, fun before r hprefix => by simp at hprefix⟩

theorem skip (h : Tabulates p R done entries) (hr : p r = false) :
    Tabulates p R (done ++ [r]) entries := by
  refine ⟨?_, forall_concat_prefix h.entry fun hr' => ?_⟩
  · rw [h.length, countP_concat_of_neg hr]
  · rw [hr] at hr'
    cases hr'

theorem concat (h : Tabulates p R done entries) (hr : p r = true) {b : β} (hb : R done r b) :
    Tabulates p R (done ++ [r]) (entries ++ [b]) := by
  refine ⟨?_, forall_concat_prefix (fun before r' hprefix hr' => ?_) fun _ => ⟨b, ?_, hb⟩⟩
  · rw [List.length_append, h.length, countP_concat_of_pos hr, List.length_singleton]
  · obtain ⟨b', hget, hb'⟩ := h.entry before r' hprefix hr'
    have hlt := (List.getElem?_eq_some_iff.mp hget).1
    exact ⟨b', by rw [List.getElem?_append_left hlt, hget], hb'⟩
  · rw [← h.length, List.getElem?_concat_length]

end Tabulates

namespace Record

variable {r : Record}

theorem isNamedNode_of_takesSlot (h : takesSlot r = true) : r.isNamedNode = false := by
  unfold takesSlot at h
  unfold isNamedNode
  split at h <;> simp_all

theorem metadataName?_of_takesSlot (h : takesSlot r = true) : r.metadataName? = none := by
  unfold takesSlot at h
  unfold metadataName?
  split at h <;> simp_all

theorem takesSlot_of_isNamedNode (h : r.isNamedNode = true) : takesSlot r = false := by
  unfold takesSlot
  rw [of_decide_eq_true h]

theorem ofNat?_of_metadataName? {text : String} (h : r.metadataName? = some text) :
    MetadataCode.ofNat? r.code.toNat = some .name := by
  unfold metadataName? at h
  split at h
  · assumption
  · cases h

end Record

/-! ## Records in turn -/

namespace Metadata

theorem waitingName_concat (done : List Record) (r : Record) :
    waitingName (done ++ [r]) =
      if r.isNamedNode then none else r.metadataName?.or (waitingName done) :=
  lastPending_concat Record.isNamedNode Record.metadataName? done r

/-- The table of the records so far, and the name that waits after them. -/
structure State.Follows (types : TypeTable) (values : Values) (count : Nat) (done : List Record)
    (s : State) : Prop where
  entries : Tabulates takesSlot (fun _ r v => r.metadata? = some v) done s.table.values.toList
  closed : ∀ v ∈ s.table.values, v.Closed types values count
  named : ∀ list ∈ s.table.named, ∀ slot ∈ list.operands, slot < count
  distinct : ∀ (slot : Nat) operands, s.table.values[slot]? = some (.node false operands) →
    some slot ∉ operands
  lists : Tabulates Record.isNamedNode
    (fun before r list => waitingName before = some list.name ∧
      list.operands = r.operands.map UInt64.toNat) done s.table.named
  pendingName : s.pendingName = waitingName done

namespace State.Follows

variable {types : TypeTable} {values : Values} {count : Nat} {done : List Record} {r : Record}
  {s s' : State}

theorem start : State.Follows types values count [] {} := by
  refine ⟨.nil, ?_, by simp, ?_, .nil, rfl⟩
  · intro v hmem
    simp at hmem
  · intro slot operands hget
    simp at hget

theorem push (h : s.Follows types values count done) (hr : takesSlot r = true)
    {v : MetadataValue} (hentry : r.metadata? = some v) (hclosed : v.Closed types values count)
    (hself : ∀ operands, v = .node false operands → some s.table.values.size ∉ operands) :
    (s.push v).Follows types values count (done ++ [r]) := by
  have hlist := Record.isNamedNode_of_takesSlot hr
  refine ⟨?_, ?_, h.named, ?_, h.lists.skip hlist, ?_⟩
  · change Tabulates _ _ _ (s.table.values.push v).toList
    rw [Array.toList_push]
    exact h.entries.concat hr hentry
  · intro v' hmem
    rcases Array.mem_push.mp hmem with hmem | rfl
    · exact h.closed v' hmem
    · exact hclosed
  · intro slot operands hget
    change (s.table.values.push v)[slot]? = _ at hget
    rw [Array.getElem?_push] at hget
    split at hget <;> rename_i hslot
    · rw [hslot]
      exact hself operands (Option.some.inj hget)
    · exact h.distinct slot operands hget
  · rw [waitingName_concat, hlist, Record.metadataName?_of_takesSlot hr, Option.none_or]
    exact h.pendingName

theorem step (h : s.Follows types values count done) (hstep : Step types values count s r s') :
    s'.Follows types values count (done ++ [r]) := by
  cases hstep with
  | slot takes entry closed distinct => exact h.push takes entry closed distinct
  | name name =>
    have hcode := Record.ofNat?_of_metadataName? name
    have hlist : r.isNamedNode = false := by simp [Record.isNamedNode, hcode]
    refine ⟨h.entries.skip (by simp [takesSlot, hcode]), h.closed, h.named, h.distinct,
      h.lists.skip hlist, ?_⟩
    rw [waitingName_concat, hlist, name]
    rfl
  | list list waiting bound =>
    refine ⟨h.entries.skip (Record.takesSlot_of_isNamedNode list), h.closed, ?_, h.distinct,
      h.lists.concat list ⟨?_, rfl⟩, ?_⟩
    · exact List.forall_mem_append.mpr ⟨h.named, List.forall_mem_singleton.mpr bound⟩
    · rw [← h.pendingName, waiting]
    · rw [waitingName_concat, list]
      rfl
  | kind takes name list =>
    refine ⟨h.entries.skip takes, h.closed, h.named, h.distinct, h.lists.skip list, ?_⟩
    rw [waitingName_concat, list, name, Option.none_or]
    exact h.pendingName

theorem size (h : s.Follows types values (done.countP takesSlot) done) :
    s.table.values.size = done.countP takesSlot :=
  h.entries.length

theorem definedBy (h : s.Follows types values (done.countP takesSlot) done)
    (hnodes : ∀ list ∈ s.table.named, ∀ slot ∈ list.operands,
      ∃ isDistinct operands, s.table.values[slot]? = some (.node isDistinct operands)) :
    s.table.DefinedBy types values done :=
  ⟨⟨h.size ▸ h.closed, h.size ▸ h.named⟩, h.entries, h.distinct, h.lists, hnodes⟩

end State.Follows

end Metadata

/-- A table that decoding gives has one entry for each record but names, lists and kinds, in order,
with what the record says. Nodes refer to slots of the table, and to their own only if they are
distinct; values are of the module, and so are their types. There is one list for each record of
one, under the last name that no list before it has taken, and all its members are nodes. -/
theorem MetadataTable.decode_definedBy {types : TypeTable} {values : Values} {block : Block}
    {p p' : Progress} {table : MetadataTable}
    (h : MetadataTable.decode types values block p = .ok table p') :
    table.DefinedBy types values block.records := by
  have hdefined : Gives (MetadataTable.decode types values block) fun table =>
      table.DefinedBy types values block.records := by
    refine .after fun _ => (Gives.foldRecords_done
      (Metadata.State.Follows types values (block.records.countP takesSlot))
      (fun done i r s hs => (Abides.metadataAdd (T := .any) trivial (fun _ => trivial) trivial
        fun _ _ _ _ _ _ => trivial).gives.mono fun s' hstep => hs.step hstep) .start
      block.records).bind fun s hs => (Gives.forM fun list => ?_).bind fun _ hnodes =>
      .pure (hs.definedBy hnodes)
    exact (Abides.metadataCheckNamed (T := .any) trivial fun _ _ _ => trivial).gives
  exact hdefined p table p' h

/-- A list of a node that comes later, under a name that replaces another, a node that refers to
itself, and a record of an unknown kind. -/
theorem MetadataTable.decode_definedBy_forward :
    let name (text : String) : Record := ⟨4, text.toList.map fun c => UInt64.ofNat c.toNat⟩
    let records : List Record := [name "a", name "b", ⟨10, [1]⟩, ⟨99, []⟩, ⟨3, [3, 0, 4]⟩, ⟨5, [3]⟩,
      ⟨6, [0]⟩, ⟨2, [0, 0]⟩, name "c", ⟨10, [1, 2]⟩]
    let block : Block :=
      .mk { id := BlockKind.metadata.id, width := 3, start := 0, length := 0, level := 1 }
        records []
    let types : TypeTable := { types := #[.int 32] }
    let values : Values := #[{ type := some 0, kind := .register .unknown }]
    let table : MetadataTable :=
      { values := #[.unhandled, .node false [some 2, none, some 3], .node true [some 2],
          .value 0 0]
        named := [{ name := "b", operands := [1] }, { name := "c", operands := [1, 2] }] }
    let start : Progress := { location := { source := "" } }
    (∃ p', MetadataTable.decode types values block start = .ok table p') ∧
      table.DefinedBy types values records := by
  intro name records block types values table start
  have hrun : (MetadataTable.decode types values block).run' start = some table := by
    decide +kernel
  cases hdecode : MetadataTable.decode types values block start with
  | error e p' =>
    rw [run'_of_error hdecode] at hrun
    cases hrun
  | ok table' p' =>
    rw [run'_of_ok hdecode] at hrun
    cases hrun
    exact ⟨⟨p', rfl⟩, MetadataTable.decode_definedBy hdecode⟩

/-! ## All tables -/

namespace Ensures

open Metadata

variable {E : GivesUp} {types : TypeTable} (hc : types.Closed)
include hc

/-- The slots of a list are bounded when it is read, so all are there when they are looked at. -/
theorem metadataDecode (values : Values) (block : Block) :
    Ensures E (MetadataTable.decode types values block) (MetadataTable.Closed types values) := by
  refine (setLine _).bind fun _ _ => (foldRecords_done
    (State.Follows types values (block.records.countP takesSlot)) (fun done i r s hs =>
      ((Abides.metadataAdd (T := .safe) ⟨rfl, trivial⟩ (fun hnot => hnot hc) trivial
        fun _ _ _ _ _ _ => trivial).ensures Terms.within_safe).mono fun s' hstep => hs.step hstep)
    .start block.records).bind fun s hs => (forM fun list hlist => ?_).bind fun _ _ =>
    .pure ⟨hs.size ▸ hs.closed, hs.size ▸ hs.named⟩
  refine ((Abides.metadataCheckNamed (T := .safe) ⟨rfl, trivial⟩ fun slot hslot hnot =>
    hnot ?_).ensures Terms.within_safe).mono fun _ _ => trivial
  rw [hs.size]
  exact hs.named list hlist slot hslot

theorem metadataDecodeAll (values : Values) (root : Block) :
    Ensures E (MetadataTable.decodeAll types values root) fun ts =>
      ∀ t ∈ ts, t.Closed types values :=
  mapM_all fun block _ => metadataDecode hc values block

end Ensures

end Dxil
