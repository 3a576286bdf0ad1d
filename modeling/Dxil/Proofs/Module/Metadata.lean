import Dxil.Module.Metadata
import Dxil.Proofs.Module.TypeTable

/-!
# Dxil.Proofs.Module.Metadata

Metadata tables are closed: nodes and named lists refer to slots of the table, and values to types
and values of the module.

* `MetadataTable.Closed`
* `Record.metadata?` : what a record puts into its slot.
* `Metadata.Step` : what a record can do to the table.
* `Abides.metadataAdd` : it does nothing else.
* `Ensures.metadataUint` and the like : reading the slots of a closed table.
-/

namespace Dxil

/-- What a slot refers to exists, in a table of `count` slots. -/
def MetadataValue.Closed (types : TypeTable) (values : Values) (count : Nat) :
    MetadataValue → Prop
  | .node _ operands => ∀ k, some k ∈ operands → k < count
  | .value type index => type < types.size ∧ index < values.size
  | .string _ | .unhandled => True

structure MetadataTable.Closed (types : TypeTable) (values : Values) (t : MetadataTable) :
    Prop where
  slots : ∀ v ∈ t.values, v.Closed types values t.values.size
  named : ∀ n ∈ t.named, ∀ i ∈ n.operands, i < t.values.size

/-! ## What records say -/

def slotReference (operand : UInt64) : Option Nat :=
  if operand = 0 then none else some (operand.toNat - 1)

def Record.metadata? (r : Record) : Option MetadataValue :=
  match MetadataCode.ofNat? r.code.toNat with
  | none => some .unhandled
  | some .string => some (.string (r.text 0))
  | some .value => do
    let type ← r.operands[0]?
    let index ← r.operands[1]?
    some (.value type.toNat index.toNat)
  | some .node => some (.node false (r.operands.map slotReference))
  | some .distinctNode => some (.node true (r.operands.map slotReference))
  | some .name | some .namedNode | some .kind => none

def Record.isNamedNode (r : Record) : Bool :=
  MetadataCode.ofNat? r.code.toNat = some .namedNode

/-- The name that a record gives to the list to come. -/
def Record.metadataName? (r : Record) : Option String :=
  if MetadataCode.ofNat? r.code.toNat = some .name then some (r.text 0) else none

/-- The number of operands that a record may have, where it warns of more. -/
def MetadataCode.most? : MetadataCode → Option Nat
  | value => some 2
  | _ => none

/-- What a record of a block with `count` slots can do. -/
inductive Metadata.Step (types : TypeTable) (values : Values) (count : Nat) (s : State)
    (r : Record) : State → Prop
  | slot {v : MetadataValue} (takes : takesSlot r = true) (entry : r.metadata? = some v)
      (closed : v.Closed types values count)
      (distinct : ∀ operands, v = .node false operands → some s.table.values.size ∉ operands) :
      Step types values count s r (s.push v)
  | name {text : String} (name : r.metadataName? = some text) :
      Step types values count s r { s with pendingName := some text }
  | list {name : String} (list : r.isNamedNode = true) (waiting : s.pendingName = some name)
      (bound : ∀ slot ∈ r.operands.map UInt64.toNat, slot < count) :
      Step types values count s r
        { table := { s.table with
            named := s.table.named ++ [{ name, operands := r.operands.map UInt64.toNat }] }
          pendingName := none }
  | kind (takes : takesSlot r = false) (name : r.metadataName? = none)
      (list : r.isNamedNode = false) : Step types values count s r s

namespace Abides

open Metadata

variable {T : Terms} {types : TypeTable} {values : Values} {count : Nat} {s : State} {r : Record}

section

variable (hno : T.leaves none)
include hno

theorem nodeOperand (count slot : Nat) (isDistinct : Bool) (operand : UInt64) :
    Abides T (Metadata.nodeOperand count slot isDistinct operand) fun o =>
      o = slotReference operand ∧
        ∀ k, o = some k → k < count ∧ (k = slot → isDistinct = true) := by
  unfold Metadata.nodeOperand slotReference
  split
  · exact .pure ⟨rfl, by simp⟩
  split
  · exact .reject rfl hno
  split
  · exact .reject rfl hno
  · rename_i hcount hself
    refine .pure ⟨rfl, ?_⟩
    rintro _ ⟨⟩
    refine ⟨Nat.lt_of_not_le hcount, fun hslot => ?_⟩
    simpa [hslot] using hself

theorem metadataNode (isDistinct : Bool) (htakes : takesSlot r = true)
    (hentry : r.metadata? = some (.node isDistinct (r.operands.map slotReference))) :
    Abides T (Metadata.node count isDistinct s r) (Step types values count s r) := by
  refine (mapM fun operand _ => nodeOperand hno count s.table.values.size isDistinct operand).bind
    fun operands hoperands => .pure ?_
  obtain ⟨hmap, hall⟩ := hoperands
  refine .slot htakes (hmap ▸ hentry) (fun k hk => (hall (some k) hk k rfl).1) ?_
  rintro _ ⟨⟩ hself
  have hdistinct := (hall _ hself _ rfl).2 rfl
  cases hdistinct

theorem metadataNamedNode (hlist : r.isNamedNode = true) :
    Abides T (Metadata.namedNode count s r) (Step types values count s r) := by
  unfold Metadata.namedNode
  split
  · exact .reject rfl hno
  · rename_i name hname
    refine (mapM (g := UInt64.toNat) (R := fun slot => slot < count) fun operand _ => ?_).bind
      fun operands hoperands => .pure ?_
    · split
      · exact .pure ⟨rfl, ‹_›⟩
      · exact .reject rfl hno
    · obtain ⟨rfl, hbound⟩ := hoperands
      exact .list hlist hname hbound

/-- A type that is not the value's own is only remarked on. -/
theorem metadataValue (hd : ¬ types.Closed → T.dangles) (hnotes : T.notes .metadataValueType)
    (hcounts : T.Counts r 2) (hcode : MetadataCode.ofNat? r.code.toNat = some .value) :
    Abides T (Metadata.value types values s r) (Step types values count s r) := by
  refine (checkOperands r 2 2 (fun _ => hno) hcounts).bind fun _ hlen => (operand (by omega)).bind
    fun id hid => (lookup hno).bind fun type htype => (operand (by omega)).bind
    fun index hindex => ?_
  split
  · exact .reject rfl hno
  · rename_i v hv
    refine (present fun hnone => hd fun hc => ?_).bind fun _ _ => (reportIf hnotes).bind fun _ _ =>
      .pure (.slot ?_ ?_ ⟨htype.2, ?_⟩ (by simp))
    · obtain ⟨_, hsome, -⟩ := hc.pointedFunction htype.2
      cases hsome.symm.trans hnone
    · simp [takesSlot, hcode]
    · simp [Record.metadata?, hcode, hid, hindex, htype.1]
    · exact (Array.getElem?_eq_some_iff.mp hv).1

theorem metadataAdd (hd : ¬ types.Closed → T.dangles) (hnotes : T.notes .metadataValueType)
    (hcounts : ∀ code most, MetadataCode.ofNat? r.code.toNat = some code →
      code.most? = some most → T.Counts r most) :
    Abides T (Metadata.add types values count s r) (Step types values count s r) := by
  unfold Metadata.add
  cases hcode : MetadataCode.ofNat? r.code.toNat with
  | none =>
    exact .pure (.slot (by simp [takesSlot, hcode]) (by simp [Record.metadata?, hcode]) trivial
      (by simp))
  | some code =>
    cases code with
    | string =>
      exact .pure (.slot (by simp [takesSlot, hcode]) (by simp [Record.metadata?, hcode]) trivial
        (by simp))
    | value => exact metadataValue hno hd hnotes (hcounts _ _ hcode rfl) hcode
    | node =>
      exact metadataNode hno false (by simp [takesSlot, hcode]) (by simp [Record.metadata?, hcode])
    | distinctNode =>
      exact metadataNode hno true (by simp [takesSlot, hcode]) (by simp [Record.metadata?, hcode])
    | name => exact .pure (.name (by simp [Record.metadataName?, hcode]))
    | namedNode => exact metadataNamedNode hno (by simp [Record.isNamedNode, hcode])
    | kind =>
      exact (requireOperands r 1 fun _ => hno).bind fun _ hlen => (skipOperand (by omega)).bind
        fun _ _ => .pure (.kind (by simp [takesSlot, hcode])
          (by simp [Record.metadataName?, hcode]) (by simp [Record.isNamedNode, hcode]))

theorem metadataCheckNamed {table : MetadataTable} {list : NamedMetadata}
    (hd : ∀ slot ∈ list.operands, ¬ slot < table.values.size → T.dangles) :
    Abides T (Metadata.checkNamed table list) fun _ => ∀ slot ∈ list.operands,
      ∃ isDistinct operands, table.values[slot]? = some (.node isDistinct operands) := by
  refine (mapM (g := fun slot => table.values[slot]?.getD .unhandled) (R := fun _ => True)
    fun slot hslot => ?_).bind fun targets htargets => ?_
  · refine (present fun hnone => hd slot hslot ?_).mono fun v hv => ⟨by rw [hv]; rfl, trivial⟩
    exact Nat.not_lt.mpr (Array.getElem?_eq_none_iff.mp hnone)
  · split <;> rename_i hall
    · refine .pure fun slot hslot => ?_
      rw [htargets.1, List.all_map, List.all_eq_true] at hall
      have hnode := hall slot hslot
      cases hget : table.values[slot]? with
      | none => simp [hget, MetadataValue.isNode] at hnode
      | some v =>
        cases v with
        | node isDistinct operands => exact ⟨isDistinct, operands, rfl⟩
        | _ => simp [hget, MetadataValue.isNode] at hnode
    · exact .reject rfl hno

end

end Abides

/-! ## Reading a table -/

theorem mem_of_findNamed? {tables : List MetadataTable} {name : String} {t : MetadataTable}
    {roots : List Nat} (h : findNamed? tables name = some (t, roots)) : t ∈ tables := by
  obtain ⟨t', ht', hfind⟩ := List.exists_of_findSome?_eq_some h
  obtain ⟨n, -, heq⟩ := Option.map_eq_some_iff.mp hfind
  cases heq
  exact ht'

namespace MetadataScope

def Closed (m : MetadataScope) : Prop := m.table.Closed m.types m.values

def integer? (m : MetadataScope) (slot : Option Nat) : Option Register :=
  match m.get? slot with
  | some (.value type index) =>
    match m.types.get? type with
    | some (.int _) => m.values[index]?.bind Value.register?
    | _ => none
  | _ => none

/-- The number in a slot, cut to 32 bits; `none` if no integer constant is there. -/
def uint? (m : MetadataScope) (slot : Option Nat) : Option UInt32 :=
  (m.integer? slot).bind Register.uintValue?

end MetadataScope

namespace Ensures

variable {E : GivesUp} {m : MetadataScope} (hm : m.Closed)
include hm

theorem metadataInteger (slot : Option Nat) :
    Ensures E (m.integer slot) fun register => register = m.integer? slot := by
  unfold MetadataScope.integer MetadataScope.integer?
  cases hget : m.get? slot with
  | none => exact .pure rfl
  | some entry =>
    cases entry with
    | value type index =>
      have hmem : MetadataValue.value type index ∈ m.table.values := by
        unfold MetadataScope.get? at hget
        split at hget
        · cases hget
        · exact Array.mem_of_getElem? hget
      refine (present (TypeTable.get?_of_lt (hm.slots _ hmem).1)).bind fun ty hty => ?_
      dsimp only
      rw [hty]
      cases ty with
      | int width => exact .pure rfl
      | _ => exact .pure rfl
    | _ => exact .pure rfl

theorem metadataUint (slot : Option Nat) :
    Ensures E (m.uint slot) fun n => n = m.uint? slot :=
  (metadataInteger hm slot).bind fun _ hregister => .pure (hregister ▸ rfl)

theorem metadataUint64 (slot : Option Nat) : Ensures E (m.uint64 slot) fun _ => True :=
  (metadataInteger hm slot).bind fun _ _ => .pure trivial

theorem requireUint (slot : Option Nat) {f : Finding} (hf : f.isError = true) :
    Ensures E (m.requireUint slot f) fun n => m.uint? slot = some n :=
  (metadataUint hm slot).bind fun _ hn => (orReject hf).mono fun _ hsome => hn ▸ hsome

end Ensures

end Dxil
