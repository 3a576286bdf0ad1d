import Dxil.Proofs.Module.Settles
import Dxil.Proofs.Module.TypeTable

/-!
# Dxil.Proofs.Module.TypeRecords

The type table of a module holds what the records of its type block say, and decoding gives up on
records that say nothing of the kind.

* `Record.type?` : the type that a record encodes.
* `pendingName` : the name that waits for its struct, after some records.
* `TypeTable.DefinedBy` : a table that holds the types of records.
* `Settles.typeBuilderAdd` : what one record does to the table.
* `TypeTable.WellFormed` : what every decoded table is.
* `TypeTable.decode_eq_some_iff` : decoding gives the table that the records define.
-/

namespace Dxil

/-! ## What records say -/

/-- The last of what the members of a list give that none after it takes. -/
def lastPending {α β : Type} (takes : α → Bool) (gives : α → Option β) (l : List α) : Option β :=
  (l.reverse.takeWhile fun a => !takes a).findSome? gives

theorem lastPending_concat {α β : Type} (takes : α → Bool) (gives : α → Option β) (l : List α)
    (a : α) :
    lastPending takes gives (l ++ [a]) =
      if takes a then none else (gives a).or (lastPending takes gives l) := by
  unfold lastPending
  rw [List.reverse_concat, List.takeWhile_cons]
  cases htakes : takes a with
  | true => simp
  | false =>
    rw [if_pos (by simp), if_neg (by simp), List.findSome?_cons]
    cases gives a <;> rfl

def Record.structName? (r : Record) : Option String :=
  if TypeCode.ofNat? r.code.toNat = some .structName then some (r.text 0) else none

def Record.isNamedStruct (r : Record) : Bool :=
  TypeCode.ofNat? r.code.toNat = some .structNamed

/-- The last name that no struct has taken, after some records. -/
def pendingName (records : List Record) : Option String :=
  lastPending Record.isNamedStruct Record.structName? records

/-- The type that a record encodes, where `name` is the name for a struct that takes one. -/
def Record.type? (name : Option String) (r : Record) : Option Ty :=
  match TypeCode.ofNat? r.code.toNat, r.operands with
  | some .void, _ => some .void
  | some .half, _ => some (.float 16)
  | some .float, _ => some (.float 32)
  | some .double, _ => some (.float 64)
  | some .label, _ => some .label
  | some .metadata, _ => some .metadata
  | some .integer, width :: _ => some (.int width.toNat)
  | some .pointer, [pointee] => some (.pointer pointee.toNat 0)
  | some .pointer, pointee :: space :: _ => some (.pointer pointee.toNat space)
  | some .array, count :: element :: _ =>
    some (.array element.toNat (TypeBuilder.elementCount count))
  | some .vector, count :: element :: _ =>
    some (.vector element.toNat (TypeBuilder.elementCount count))
  | some .function, _ :: result :: params =>
    some (.function result.toNat (params.map UInt64.toNat))
  | some .structAnon, _ :: members => some (.struct none (members.map UInt64.toNat))
  | some .structNamed, _ :: members =>
    name.map fun name => .struct (some name) (members.map UInt64.toNat)
  | _, _ => none

namespace Ty

/-- Integers have a known width, and what consists of others is not empty. -/
def isProper : Ty → Bool
  | int width => width ∈ [1, 8, 16, 32, 64]
  | struct _ members => !members.isEmpty
  | vector _ count | array _ count => 0 < count.toNat
  | _ => true

/-- A type that may stand in a table of `count` types. -/
def fits (count : Nat) (type : Ty) : Bool :=
  type.references.all (· < count) && type.isProper

theorem fits_iff {count : Nat} {type : Ty} :
    type.fits count = true ↔
      (∀ ref ∈ type.references, ref < count) ∧ type.isProper = true := by
  simp [fits]

theorem fits_of_isProper {type : Ty} (h : type.isProper = true) (count : Nat) :
    type.fits count = type.references.all (· < count) := by
  rw [fits, h, Bool.and_true]

def isNamed : Ty → Bool
  | struct (some _) _ => true
  | _ => false

theorem isBool_int (width : Nat) : (int width).isBool = decide (width = 1) := by
  unfold isBool
  split <;> simp_all

end Ty

def TypeTable.positions (t : TypeTable) (p : Ty → Bool) : List TypeId :=
  (List.range t.size).filter fun id => (t.get? id).any p

/-- The table holds the types of the records, in order, if references may lead to `count` types. -/
structure TypeTable.DefinedBy (t : TypeTable) (count : Nat) (records : List Record) : Prop where
  size : t.size = records.countP definesType
  types : ∀ before r, before ++ [r] <+: records → definesType r = true →
    ∃ type, r.type? (pendingName before) = some type ∧
      t.get? (before.countP definesType) = some type
  references : ∀ id type, t.get? id = some type → ∀ ref ∈ type.references, ref < count
  proper : ∀ id type, t.get? id = some type → type.isProper = true
  /-- The first type of one bit. -/
  boolType : t.boolType = (t.positions Ty.isBool).head?
  /-- The last struct with the handle name. -/
  handleType : t.handleType = (t.positions Ty.isHandle).getLast?

/-! ## One record -/

namespace TypeBuilder

/-- The table with one more type. A struct with a name takes the one that waits. -/
def define (b : TypeBuilder) (type : Ty) : TypeBuilder where
  table := {
    types := b.table.types.push type
    boolType := b.table.boolType.or (if type.isBool then some b.table.size else none)
    handleType := if type.isHandle then some b.table.size else b.table.handleType }
  structName := if type.isNamed then none else b.structName

def admit? (count : Nat) (b : TypeBuilder) (type : Ty) : Option TypeBuilder :=
  if type.fits count then some (b.define type) else none

/-- An array or vector has as many elements as it says, up to the most that there can be, and that
many if it says none. -/
theorem toNat_elementCount (n : UInt64) :
    (elementCount n).toNat = if n = 0 then 0xffffffff else min n.toNat 0xffffffff := by
  unfold elementCount
  by_cases hzero : n = 0
  · simp [hzero]
  · have hsize : UInt32.size = 0x100000000 := rfl
    by_cases hlarge : UInt32.size ≤ n.toNat
    · rw [if_pos (.inr hlarge), if_neg hzero, Nat.min_eq_right (by omega)]
      rfl
    · rw [if_neg (by simp [hzero, hlarge]), if_neg hzero, Nat.min_eq_left (by omega),
        UInt64.toNat_toUInt32]
      omega

theorem elementCount_pos (n : UInt64) : 0 < (elementCount n).toNat := by
  rw [toNat_elementCount]
  split
  · decide
  · have : n.toNat ≠ 0 := fun h => ‹¬ n = 0› (UInt64.toNat_inj.mp h)
    omega

theorem admit?_eq_push {b : TypeBuilder} {type : Ty} (hbool : type.isBool = false)
    (hhandle : type.isHandle = false) (hnamed : type.isNamed = false) (count : Nat) :
    b.admit? count type = if type.fits count then some (b.push type) else none := by
  simp [admit?, push, define, hbool, hhandle, hnamed]

def step? (count : Nat) (b : TypeBuilder) (r : Record) : Option TypeBuilder :=
  if definesType r then (r.type? b.structName).bind (b.admit? count)
  else some { b with structName := r.structName?.or b.structName }

end TypeBuilder

def TypeBuilder.references? (count : Nat) (ids : List UInt64) : Option (List TypeId) :=
  if (ids.map UInt64.toNat).all (· < count) then some (ids.map UInt64.toNat) else none

/-- The number of operands of a record that warns of more. -/
def TypeCode.most? : TypeCode → Option Nat
  | void | half | float | double => some 0
  | integer => some 1
  | pointer | array | vector => some 2
  | _ => none

@[simp]
theorem bind_ite_none {α β : Type} (c : Prop) [Decidable c] (a : α) (f : α → Option β) :
    (if c then some a else none).bind f = if c then f a else none := by
  split <;> rfl

namespace Settles

open TypeBuilder

variable {c : Prop} {count : Nat} {r : Record} {b : TypeBuilder}

theorem reference (count : Nat) (id : UInt64) :
    Settles c (TypeBuilder.reference count id)
      (if id.toNat < count then some id.toNat else none) :=
  ite (pure _) abandon

theorem references (count : Nat) (ids : List UInt64) :
    Settles c (ids.mapM (TypeBuilder.reference count)) (references? count ids) := by
  refine (mapM (reference count) ids).of_eq ?_
  unfold references?
  induction ids with
  | nil => rfl
  | cons id ids ih =>
    rw [List.mapM_cons, ih, List.map_cons, List.all_cons]
    cases (ids.map UInt64.toNat).all (· < count) <;> by_cases hid : id.toNat < count <;> simp [hid]

theorem sequence (count : Nat) (hc : 2 < r.operands.length → c) :
    Settles c (TypeBuilder.sequence count r) (r.operands[0]?.bind fun elements =>
      r.operands[1]?.bind fun id =>
        if id.toNat < count then some (id.toNat, elementCount elements) else none) := by
  refine (checkOperands_bind hc fun _ => (operand (by omega)).bind fun elements _ =>
    (operand (by omega)).bind fun id _ => (reference count id).bind fun element _ =>
    pure (element, elementCount elements)).of_eq ?_
  rcases r.operands with - | ⟨elements, - | ⟨id, rest⟩⟩
  · rfl
  · rfl
  · simp

theorem members (count : Nat) (h : 2 ≤ r.operands.length) :
    Settles c (TypeBuilder.members count r) (references? count r.operands.tail) := by
  rw [← List.drop_one]
  exact (skipOperand (by omega)).bind fun _ _ => (operandsFrom (by omega)).bind fun ids _ =>
    references count ids

section

variable {name : Option String}

theorem integer (hcode : TypeCode.ofNat? r.code.toNat = some .integer)
    (hc : 1 < r.operands.length → c) :
    Settles c (b.integer r) ((r.type? name).bind (b.admit? count)) := by
  refine (checkOperands_bind hc fun _ => (operand (by omega)).bind fun value _ =>
    .ite (.ite (.pure _) (.pure _)) .abandon).of_eq ?_
  simp only [Record.type?, hcode]
  rcases r.operands with - | ⟨value, rest⟩
  · rfl
  · -- Only the first type of one bit is noted.
    have hdefine : b.define (.int value.toNat) =
        if value.toNat = 1 ∧ b.table.boolType = none then
          { b with table := { b.table with
              types := b.table.types.push (.int value.toNat), boolType := some b.table.size } }
        else b.push (.int value.toNat) := by
      by_cases hone : value.toNat = 1 <;> cases hbool : b.table.boolType <;>
        simp [define, push, Ty.isBool_int, Ty.isHandle, Ty.isNamed, hone, hbool]
    simp [admit?, Ty.fits, Ty.references, Ty.isProper, hdefine, push, apply_ite some]

theorem pointer (hcode : TypeCode.ofNat? r.code.toNat = some .pointer)
    (hc : 2 < r.operands.length → c) :
    Settles c (b.pointer count r) ((r.type? name).bind (b.admit? count)) := by
  refine (checkOperands_bind hc fun _ => (operand (by omega)).bind fun id _ =>
    (reference count id).bind fun pointee _ => .pure _).of_eq ?_
  simp only [Record.type?, hcode]
  rcases r.operands with - | ⟨pointee, - | ⟨space, rest⟩⟩
  · rfl
  · rw [Option.bind_some, admit?_eq_push rfl rfl rfl]
    simp [Ty.fits, Ty.references, Ty.isProper]
  · rw [Option.bind_some, admit?_eq_push rfl rfl rfl]
    simp [Ty.fits, Ty.references, Ty.isProper]

theorem function (hcode : TypeCode.ofNat? r.code.toNat = some .function) :
    Settles c (b.function count r) ((r.type? name).bind (b.admit? count)) := by
  refine (requireOperands_bind fun _ => (skipOperand (by omega)).bind fun _ _ =>
    (operand (by omega)).bind fun id _ => (reference count id).bind fun result _ =>
    (operandsFrom (by omega)).bind fun ids _ => (references count ids).bind
    fun params _ => .pure _).of_eq ?_
  simp only [Record.type?, hcode]
  rcases r.operands with - | ⟨variadic, - | ⟨result, params⟩⟩
  · rfl
  · rfl
  · change ((if result.toNat < count then some result.toNat else none).bind fun result =>
      (references? count params).bind fun params => some (b.push (.function result params))) =
        b.admit? count (.function result.toNat (params.map UInt64.toNat))
    rw [admit?_eq_push rfl rfl rfl, Ty.fits_of_isProper rfl, Ty.references, List.all_cons,
      bind_ite_none, references?, bind_ite_none]
    by_cases hresult : result.toNat < count
    · rw [if_pos hresult, decide_eq_true hresult, Bool.true_and]
    · rw [if_neg hresult, decide_eq_false hresult, Bool.false_and]
      rfl

theorem anonymousStruct (hcode : TypeCode.ofNat? r.code.toNat = some .structAnon) :
    Settles c (b.anonymousStruct count r) ((r.type? name).bind (b.admit? count)) := by
  refine (requireOperands_bind fun hlen => (members count hlen).bind fun _ _ => .pure _).of_eq ?_
  simp only [Record.type?, hcode]
  rcases r.operands with - | ⟨packed, - | ⟨member, members⟩⟩
  · rfl
  · rfl
  · change ((references? count (member :: members)).bind fun members =>
      some (b.push (.struct none members))) =
        b.admit? count (.struct none ((member :: members).map UInt64.toNat))
    rw [admit?_eq_push rfl rfl rfl, Ty.fits_of_isProper rfl, Ty.references, references?,
      bind_ite_none]

theorem namedStruct (hcode : TypeCode.ofNat? r.code.toNat = some .structNamed) :
    Settles c (b.namedStruct count r) ((r.type? b.structName).bind (b.admit? count)) := by
  have hnamed : Settles c (b.namedStruct count r)
      (if 2 ≤ r.operands.length then b.structName.bind fun name =>
        (references? count r.operands.tail).bind fun members =>
          some (b.define (.struct (some name) members)) else none) := by
    refine requireOperands_bind fun hlen => ?_
    cases b.structName with
    | none => exact abandon
    | some name =>
      refine (members count hlen).bind fun members _ => ?_
      dsimp only
      split <;> refine (pure _).of_eq ?_ <;>
        simp [push, define, Ty.isNamed, Ty.isBool, Ty.isHandle, *]
  refine hnamed.of_eq ?_
  simp only [Record.type?, hcode]
  cases b.structName with
  | none => rcases r.operands with - | ⟨packed, - | ⟨member, members⟩⟩ <;> rfl
  | some name =>
    rcases r.operands with - | ⟨packed, - | ⟨member, members⟩⟩
    · rfl
    · rfl
    · change ((references? count (member :: members)).bind fun members =>
        some (b.define (.struct (some name) members))) =
          b.admit? count (.struct (some name) ((member :: members).map UInt64.toNat))
      rw [references?, bind_ite_none, admit?, Ty.fits_of_isProper rfl, Ty.references]

end

theorem typeBuilderAdd (count : Nat) (b : TypeBuilder) (r : Record)
    (hc : ∀ code most, TypeCode.ofNat? r.code.toNat = some code → code.most? = some most →
      most < r.operands.length → c) :
    Settles c (b.add count r) (b.step? count r) := by
  unfold TypeBuilder.add step?
  split <;> rename_i hcode
  case h_2 | h_3 =>
    rw [if_neg (by simp [definesType, hcode])]
    exact (pure _).of_eq (by simp [Record.structName?, hcode])
  all_goals rw [if_pos (by simp [definesType, hcode])]
  case h_1 =>
    simp only [Record.type?, hcode]
    exact abandon
  case h_4 | h_5 | h_6 | h_7 =>
    simp only [Record.type?, hcode, Option.bind_some]
    rw [admit?_eq_push rfl rfl rfl]
    exact ignoreBeyond_bind (hc _ 0 hcode rfl) (pure _)
  case h_8 | h_9 =>
    simp only [Record.type?, hcode, Option.bind_some]
    rw [admit?_eq_push rfl rfl rfl]
    exact pure _
  case h_10 => exact integer hcode (hc _ 1 hcode rfl)
  case h_11 => exact pointer hcode (hc _ 2 hcode rfl)
  case h_12 | h_13 =>
    refine ((sequence count (hc _ 2 hcode rfl)).bind fun e _ => pure _).of_eq ?_
    simp only [Record.type?, hcode]
    rcases r.operands with - | ⟨elements, - | ⟨element, rest⟩⟩
    · rfl
    · rfl
    · rw [Option.bind_some, admit?_eq_push rfl rfl rfl]
      simp [Ty.fits, Ty.references, Ty.isProper, elementCount_pos]
  case h_14 => exact function hcode
  case h_15 => exact anonymousStruct hcode
  case h_16 => exact namedStruct hcode

end Settles

/-! ## All records -/

section

variable {count : Nat} {done rs records : List Record} {r : Record} {b b' : TypeBuilder}
  {t t' : TypeTable} {type : Ty} {name : Option String}

theorem pendingName_concat (done : List Record) (r : Record) :
    pendingName (done ++ [r]) =
      if r.isNamedStruct then none else r.structName?.or (pendingName done) :=
  lastPending_concat Record.isNamedStruct Record.structName? done r

theorem Record.isNamed_of_type? (h : r.type? name = some type) :
    type.isNamed = r.isNamedStruct := by
  unfold Record.type? at h
  split at h
  case h_14 =>
    obtain ⟨_, -, rfl⟩ := Option.map_eq_some_iff.mp h
    simp [Record.isNamedStruct, Ty.isNamed, *]
  case h_15 => cases h
  all_goals
    cases h
    simp [Record.isNamedStruct, Ty.isNamed, *]

theorem Record.structName?_of_definesType (h : definesType r = true) : r.structName? = none := by
  unfold definesType at h
  unfold Record.structName?
  split at h <;> simp_all

theorem Record.isNamedStruct_of_definesType (h : definesType r = false) :
    r.isNamedStruct = false := by
  unfold definesType at h
  unfold Record.isNamedStruct
  split at h <;> simp_all

namespace TypeBuilder

theorem size_define (b : TypeBuilder) (type : Ty) :
    (b.define type).table.size = b.table.size + 1 :=
  Array.size_push type

theorem get?_define (b : TypeBuilder) (type : Ty) (id : TypeId) :
    (b.define type).table.get? id = if id = b.table.size then some type else b.table.get? id :=
  Array.getElem?_push

theorem positions_define (b : TypeBuilder) (type : Ty) (p : Ty → Bool) :
    (b.define type).table.positions p =
      b.table.positions p ++ if p type then [b.table.size] else [] := by
  unfold TypeTable.positions
  rw [size_define, List.range_succ, List.filter_append]
  congr 1
  · refine List.filter_congr fun id hid => ?_
    rw [get?_define, if_neg (Nat.ne_of_lt (List.mem_range.mp hid))]
  · rw [List.filter_cons, List.filter_nil, get?_define, if_pos rfl]
    rfl

end TypeBuilder

theorem countP_concat_of_pos {α : Type} {p : α → Bool} {a : α} (h : p a = true) (l : List α) :
    (l ++ [a]).countP p = l.countP p + 1 := by
  rw [List.countP_append, List.countP_singleton, if_pos h]

theorem countP_concat_of_neg {α : Type} {p : α → Bool} {a : α} (h : p a = false) (l : List α) :
    (l ++ [a]).countP p = l.countP p := by
  rw [List.countP_append, List.countP_singleton, if_neg (by simp [h]), Nat.add_zero]

theorem forall_concat_prefix {α : Type} {Q : List α → α → Prop} {l : List α} {a : α}
    (h : ∀ before x, before ++ [x] <+: l → Q before x) (ha : Q l a) :
    ∀ before x, before ++ [x] <+: l ++ [a] → Q before x := by
  intro before x hprefix
  obtain heq | hprefix := List.prefix_concat_iff.mp hprefix
  · obtain ⟨rfl, rfl⟩ := List.append_singleton_inj.mp heq
    exact ha
  · exact h before x hprefix

namespace TypeTable.DefinedBy

theorem fits (h : t.DefinedBy count records) {id : TypeId} (hget : t.get? id = some type) :
    type.fits count = true :=
  Ty.fits_iff.mpr ⟨h.references id type hget, h.proper id type hget⟩

theorem skip (h : t.DefinedBy count done) (hr : definesType r = false) :
    t.DefinedBy count (done ++ [r]) := by
  refine ⟨?_, ?_, h.references, h.proper, h.boolType, h.handleType⟩
  · rw [h.size, countP_concat_of_neg hr]
  · refine forall_concat_prefix h.types fun hr' => ?_
    rw [hr] at hr'
    cases hr'

theorem define (h : b.table.DefinedBy count done) (hr : definesType r = true)
    (htype : r.type? (pendingName done) = some type) (hfits : type.fits count = true) :
    (b.define type).table.DefinedBy count (done ++ [r]) := by
  have hall : ∀ id type', (b.define type).table.get? id = some type' → type'.fits count = true := by
    intro id type' hget
    rw [TypeBuilder.get?_define] at hget
    split at hget
    · cases hget
      exact hfits
    · exact h.fits hget
  refine ⟨?_, ?_, fun id type' hget => (Ty.fits_iff.mp (hall id type' hget)).1,
    fun id type' hget => (Ty.fits_iff.mp (hall id type' hget)).2, ?_, ?_⟩
  · rw [TypeBuilder.size_define, h.size, countP_concat_of_pos hr]
  · refine forall_concat_prefix (fun before r' hprefix hr' => ?_) fun _ => ?_
    · obtain ⟨type', htype', hget⟩ := h.types before r' hprefix hr'
      refine ⟨type', htype', ?_⟩
      rw [TypeBuilder.get?_define, if_neg (Nat.ne_of_lt (lt_of_get? hget)), hget]
    · exact ⟨type, htype, by rw [TypeBuilder.get?_define, if_pos h.size.symm]⟩
  · rw [TypeBuilder.positions_define, List.head?_append, ← h.boolType]
    simp only [TypeBuilder.define]
    split <;> rfl
  · rw [TypeBuilder.positions_define, List.getLast?_append, ← h.handleType]
    simp only [TypeBuilder.define]
    split <;> rfl

end TypeTable.DefinedBy

/-- The table of the records so far, and the name that waits after them. -/
structure TypeBuilder.Follows (b : TypeBuilder) (count : Nat) (done : List Record) : Prop where
  table : b.table.DefinedBy count done
  structName : b.structName = pendingName done

namespace TypeBuilder.Follows

theorem start (count : Nat) : Follows {} count [] := by
  refine ⟨⟨rfl, ?_, ?_, ?_, rfl, rfl⟩, rfl⟩
  · intro before r hprefix
    simp at hprefix
  · intro id type hget
    simp [TypeTable.get?] at hget
  · intro id type hget
    simp [TypeTable.get?] at hget

theorem step (h : b.Follows count done) (hstep : b.step? count r = some b') :
    b'.Follows count (done ++ [r]) := by
  unfold step? at hstep
  split at hstep
  case isTrue hr =>
    obtain ⟨type, htype, hadmit⟩ := Option.bind_eq_some_iff.mp hstep
    unfold admit? at hadmit
    split at hadmit <;> cases hadmit
    rename_i hfits
    refine ⟨h.table.define hr (h.structName ▸ htype) hfits, ?_⟩
    rw [pendingName_concat, Record.structName?_of_definesType hr, Option.none_or, ← h.structName,
      ← Record.isNamed_of_type? htype]
    rfl
  case isFalse hr =>
    rw [Bool.not_eq_true] at hr
    cases hstep
    refine ⟨h.table.skip hr, ?_⟩
    rw [pendingName_concat, Record.isNamedStruct_of_definesType hr, ← h.structName]
    rfl

theorem run (h : b.Follows count done) (hrun : rs.foldlM (step? count) b = some b') :
    b'.Follows count (done ++ rs) := by
  induction rs generalizing done b with
  | nil =>
    cases hrun
    rwa [List.append_nil]
  | cons r rs ih =>
    rw [List.foldlM_cons] at hrun
    obtain ⟨b₁, hstep, hrun⟩ := Option.bind_eq_some_iff.mp hrun
    have hdone := ih (h.step hstep) hrun
    rwa [List.append_assoc] at hdone

/-- Records that encode types which may stand in the table are never refused. -/
theorem succeeds (rs : List Record) (h : b.Follows count done)
    (hrecords : ∀ before r, before ++ [r] <+: done ++ rs → definesType r = true →
      ∃ type, r.type? (pendingName before) = some type ∧ type.fits count = true) :
    ∃ b', rs.foldlM (step? count) b = some b' := by
  induction rs generalizing done b with
  | nil => exact ⟨b, rfl⟩
  | cons r rs ih =>
    have hstep : ∃ b₁, b.step? count r = some b₁ := by
      unfold step?
      split
      case isTrue hr =>
        obtain ⟨type, htype, hfits⟩ := hrecords done r (by simp) hr
        rw [h.structName, htype, Option.bind_some, admit?, if_pos hfits]
        exact ⟨_, rfl⟩
      case isFalse => exact ⟨_, rfl⟩
    obtain ⟨b₁, hstep⟩ := hstep
    obtain ⟨b', hrun⟩ := ih (h.step hstep) (by simpa using hrecords)
    exact ⟨b', by rw [List.foldlM_cons, hstep]; exact hrun⟩

end TypeBuilder.Follows

theorem exists_concat_prefix_of_lt_countP {α : Type} {p : α → Bool} {l : List α} {k : Nat}
    (h : k < l.countP p) :
    ∃ before a, before ++ [a] <+: l ∧ p a = true ∧ before.countP p = k := by
  induction l generalizing k with
  | nil => simp at h
  | cons a l ih =>
    cases ha : p a with
    | false =>
      rw [List.countP_cons_of_neg (by simp [ha])] at h
      obtain ⟨before, a', hprefix, ha', hcount⟩ := ih h
      exact ⟨a :: before, a', by simpa using hprefix, ha', by simp [ha, hcount]⟩
    | true =>
      rw [List.countP_cons_of_pos ha] at h
      cases k with
      | zero => exact ⟨[], a, by simp, ha, rfl⟩
      | succ k =>
        obtain ⟨before, a', hprefix, ha', hcount⟩ := ih (Nat.lt_of_succ_lt_succ h)
        exact ⟨a :: before, a', by simpa using hprefix, ha', by simp [ha, hcount]⟩

namespace TypeTable.DefinedBy

theorem unique (h : t.DefinedBy count records) (h' : t'.DefinedBy count records) : t = t' := by
  have hsize : t.types.size = records.countP definesType := h.size
  have hsize' : t'.types.size = records.countP definesType := h'.size
  have htypes : t.types = t'.types := by
    refine Array.ext_getElem? fun id => ?_
    by_cases hid : id < records.countP definesType
    · obtain ⟨before, r, hprefix, hr, rfl⟩ := exists_concat_prefix_of_lt_countP hid
      obtain ⟨type, htype, hget⟩ := h.types before r hprefix hr
      obtain ⟨type', htype', hget'⟩ := h'.types before r hprefix hr
      rw [htype] at htype'
      cases htype'
      exact hget.trans hget'.symm
    · rw [Array.getElem?_eq_none (by omega), Array.getElem?_eq_none (by omega)]
  have hpositions : ∀ p, t.positions p = t'.positions p := by
    intro p
    simp only [positions, TypeTable.size, get?, htypes]
  have hbool : t.boolType = t'.boolType := by rw [h.boolType, h'.boolType, hpositions]
  have hhandle : t.handleType = t'.handleType := by rw [h.handleType, h'.handleType, hpositions]
  cases t
  cases t'
  exact TypeTable.mk.injEq .. ▸ ⟨htypes, hbool, hhandle⟩

theorem foldlM_eq_some (h : t.DefinedBy count records) :
    ∃ b, records.foldlM (TypeBuilder.step? count) {} = some b ∧ b.table = t := by
  obtain ⟨b, hrun⟩ := (TypeBuilder.Follows.start count).succeeds records
    fun before r hprefix hr => by
      obtain ⟨type, htype, hget⟩ := h.types before r hprefix hr
      exact ⟨type, htype, h.fits hget⟩
  exact ⟨b, hrun, ((TypeBuilder.Follows.start count).run hrun).table.unique h⟩

end TypeTable.DefinedBy

theorem Denotes.typeTableDecode {root block : Block} {rest : List Block}
    (hblock : root.children .type = block :: rest) :
    Denotes (TypeTable.decode root)
      ((block.records.foldlM (TypeBuilder.step? (block.records.countP definesType)) {}).bind
        fun b => some b.table) := by
  have hadd : ∀ b r, Denotes (TypeBuilder.add (block.records.countP definesType) b r)
      (b.step? (block.records.countP definesType) r) :=
    fun b r => (Settles.typeBuilderAdd (c := True) _ b r fun _ _ _ _ _ => trivial).denotes
  unfold TypeTable.decode
  rw [hblock]
  exact modify_bind _ <| modify_bind _ <| modify_bind _ <|
    (foldRecords (fun b _ r => hadd b r) 0 {} block.records).bind fun b => pure b.table

end

/-- The table is closed, and every type in it is proper. -/
structure TypeTable.WellFormed (t : TypeTable) : Prop extends t.Closed where
  proper : ∀ id type, t.get? id = some type → type.isProper = true

theorem TypeTable.DefinedBy.wellFormed {t : TypeTable} {records : List Record}
    (h : t.DefinedBy t.size records) : t.WellFormed := by
  refine ⟨⟨h.references, fun id hbool => ?_⟩, h.proper⟩
  have hmem : id ∈ t.positions Ty.isBool := List.mem_of_mem_head? (h.boolType ▸ hbool)
  exact List.mem_range.mp (List.mem_filter.mp hmem).1

theorem TypeTable.wellFormed_empty : ({} : TypeTable).WellFormed :=
  ⟨⟨by simp [TypeTable.get?], by simp⟩, by simp [TypeTable.get?]⟩

/-- Whatever decoding gives is well-formed, also the empty table of a module without types. -/
theorem TypeTable.wellFormed_of_decode {root : Block} {p : Progress} {t : TypeTable}
    (h : (TypeTable.decode root).run' p = some t) : t.WellFormed := by
  cases hblock : root.children .type with
  | nil =>
    have hempty : (TypeTable.decode root).run' p = some {} := by
      unfold TypeTable.decode
      rw [hblock]
      rfl
    rw [hempty] at h
    cases h
    exact wellFormed_empty
  | cons block rest =>
    rw [Denotes.typeTableDecode hblock p, Option.bind_eq_some_iff] at h
    obtain ⟨b, hrun, htable⟩ := h
    cases htable
    have hdefined := ((TypeBuilder.Follows.start _).run hrun).table
    rw [List.nil_append, ← hdefined.size] at hdefined
    exact hdefined.wellFormed

namespace Ensures

theorem typeTableOfRecords (records : List Record) :
    Ensures .anyhow (TypeTable.ofRecords records) fun t => t.DefinedBy t.size records := by
  refine (foldRecords_done (fun done b => b.Follows (records.countP definesType) done)
    (fun done i r b hb => ?_) (.start _) records).bind fun b hb => .pure ?_
  · exact (Settles.typeBuilderAdd (c := True) _ b r fun _ _ _ _ _ => trivial).ensures.mono
      fun b' hstep => hb.step hstep
  · exact hb.table.size ▸ hb.table

theorem typeTableDecode (root : Block) :
    Ensures .anyhow (TypeTable.decode root) TypeTable.Closed := by
  refine (setLine _).bind fun _ _ => (setColumn _).bind fun _ _ => ?_
  split
  · exact .pure TypeTable.wellFormed_empty.toClosed
  · exact (setLine _).bind fun _ _ => (typeTableOfRecords _).mono fun _ h => h.wellFormed.toClosed

end Ensures

/-- Decoding gives the one table that the records of the first type block define, whatever was
reported before, and gives up if they define none. -/
theorem TypeTable.decode_eq_some_iff {root block : Block} {rest : List Block}
    (hblock : root.children .type = block :: rest) (p : Progress) (table : TypeTable) :
    (TypeTable.decode root).run' p = some table ↔ table.DefinedBy table.size block.records := by
  rw [Denotes.typeTableDecode hblock p, Option.bind_eq_some_iff]
  constructor
  · rintro ⟨b, hrun, htable⟩
    cases htable
    have hdefined := ((TypeBuilder.Follows.start _).run hrun).table
    rwa [List.nil_append, ← hdefined.size] at hdefined
  · intro hdefined
    obtain ⟨b, hrun, rfl⟩ := (hdefined.size ▸ hdefined).foldlM_eq_some
    exact ⟨b, hrun, rfl⟩

/-- A pointer to a type that comes later, a name that is replaced before a struct takes it, two
structs with the handle name, and two types of one bit. -/
theorem TypeTable.decode_eq_some_iff_replaced :
    let name (text : String) : Record := ⟨19, text.toList.map fun c => UInt64.ofNat c.toNat⟩
    let records : List Record := [⟨1, [7]⟩, name "a", ⟨8, [3]⟩, name "dx.types.Handle", ⟨7, [1]⟩,
      ⟨20, [0, 0]⟩, name "dx.types.Handle", ⟨20, [1, 0, 1]⟩, ⟨7, [1]⟩, ⟨11, [0, 4]⟩, ⟨18, [0, 1]⟩]
    let header : BlockHeader :=
      { id := BlockKind.module.id, width := 3, start := 0, length := 0, level := 0 }
    let block : Block := .mk { header with id := BlockKind.type.id, level := 1 } records []
    let root : Block := .mk header [] [block]
    let table : TypeTable := {
      types := #[.pointer 3 0, .int 1, .struct (some "dx.types.Handle") [0],
        .struct (some "dx.types.Handle") [0, 1], .int 1, .array 4 0xffffffff, .struct none [1]]
      boolType := some 1
      handleType := some 3 }
    root.children .type = [block] ∧
    (TypeTable.decode root).run' { location := { source := "" } } = some table ∧
    table.DefinedBy 7 records := by
  intro name records header block root table
  have hrun : (TypeTable.decode root).run' { location := { source := "" } } = some table := by
    decide +kernel
  have hblock : root.children .type = [block] := rfl
  exact ⟨hblock, hrun, (TypeTable.decode_eq_some_iff hblock _ table).mp hrun⟩

end Dxil
