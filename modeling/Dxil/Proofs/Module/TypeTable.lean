import Dxil.Module.Constants
import Dxil.Proofs.Module.Abides

/-!
# Dxil.Proofs.Module.TypeTable

The type table of a module is closed: every reference in it leads to a type. The searches in a
closed table therefore stay inside it.

* `TypeTable.Closed`, `TypeTable.Defines` : references of a table, and of a value into one.
* `TypeTable.Closed.scalar`, `TypeTable.Closed.pointedFunction` and the like : the searches.
* `Abides.typeOf`, `Abides.lookup` and the like : what decoders ask of a table.
-/

namespace Dxil

namespace Ty

/-- The types that a type is made of. -/
def references : Ty → List TypeId
  | pointer pointee _ => [pointee]
  | struct _ members => members
  | function result params => result :: params
  | vector element _ | array element _ => [element]
  | _ => []

theorem mem_references_of_next? {type : Ty} {next : TypeId} (h : type.next? = some (some next)) :
    next ∈ type.references := by
  cases type <;> simp_all [next?, references, List.mem_of_mem_head?]

theorem mem_references_of_member? {type : Ty} {i : Nat} {member : TypeId}
    (h : type.member? i = some member) : member ∈ type.references := by
  cases type with
  | struct name members => exact List.mem_of_getElem? h
  | _ => simp_all [member?, references]

end Ty

namespace TypeTable

/-- Every reference in the table leads to a type of it. -/
structure Closed (t : TypeTable) : Prop where
  references : ∀ id type, t.get? id = some type → ∀ ref ∈ type.references, ref < t.size
  boolType : ∀ id, t.boolType = some id → id < t.size

/-- The type of a value, if it has one, is in the table. -/
def Defines (t : TypeTable) (type : Option TypeId) : Prop := ∀ id, type = some id → id < t.size

variable {t : TypeTable}

theorem defines_none : t.Defines none := fun _ h => nomatch h

theorem defines_some {id : TypeId} (h : id < t.size) : t.Defines (some id) := by
  intro id' h'
  cases h'
  exact h

theorem get?_of_lt {id : TypeId} (h : id < t.size) : ∃ type, t.get? id = some type :=
  ⟨_, Array.getElem?_eq_getElem h⟩

theorem lt_of_get? {id : TypeId} {type : Ty} (h : t.get? id = some type) : id < t.size :=
  (Array.getElem?_eq_some_iff.mp h).1

/-! ## Searches -/

theorem of_findM?_eq_some {α : Type} {p : α → Option Bool} {l : List α} {a : α}
    (h : l.findM? p = some (some a)) : a ∈ l ∧ p a = some true := by
  induction l with
  | nil => cases h
  | cons b l ih =>
    match hb : p b with
    | none => simp [List.findM?, hb] at h
    | some true =>
      obtain rfl : b = a := by simpa [List.findM?, hb] using h
      exact ⟨List.mem_cons_self, hb⟩
    | some false =>
      obtain ⟨hmem, htrue⟩ := ih (by simpa [List.findM?, hb] using h)
      exact ⟨List.mem_cons_of_mem _ hmem, htrue⟩

theorem exists_findM? {α : Type} {p : α → Option Bool} {l : List α}
    (h : ∀ a ∈ l, ∃ b, p a = some b) : ∃ r, l.findM? p = some r := by
  induction l with
  | nil => exact ⟨none, rfl⟩
  | cons a l ih =>
    obtain ⟨b, hb⟩ := h a List.mem_cons_self
    cases b with
    | true => exact ⟨some a, by simp [List.findM?, hb]⟩
    | false =>
      obtain ⟨r, hr⟩ := ih fun a ha => h a (List.mem_cons_of_mem _ ha)
      exact ⟨r, by simp [List.findM?, hb, hr]⟩

theorem exists_pointerTo {id : TypeId} (space : UInt64) (h : id < t.size) :
    ∃ r, t.pointerTo id space = some r := by
  refine exists_findM? fun k hk => ?_
  obtain ⟨offset, _, rfl⟩ := List.mem_map.mp hk
  obtain ⟨type, htype⟩ := get?_of_lt (t := t) (Nat.mod_lt (id + offset) (Nat.zero_lt_of_lt h))
  exact ⟨_, by rw [htype]; rfl⟩

theorem get?_of_pointerTo {id k : TypeId} {space : UInt64}
    (h : t.pointerTo id space = some (some k)) : t.get? k = some (.pointer id space) := by
  obtain ⟨-, htrue⟩ := of_findM?_eq_some h
  obtain ⟨type, htype, heq⟩ := Option.bind_eq_some_iff.mp htrue
  rw [htype]
  simpa using heq

theorem flatten_of_get? {id : TypeId} {type : Ty} (h : t.get? id = some type)
    (harray : type.isArray = false) (steps count : Nat) :
    t.flatten steps id count = some (id, count) := by
  cases steps with
  | zero => rfl
  | succ steps =>
    simp only [flatten, h, Option.bind_eq_bind, Option.bind_some]
    split
    · simp [Ty.isArray] at harray
    · rfl

namespace Closed

variable (hc : t.Closed)
include hc

theorem defines_boolType : t.Defines t.boolType := hc.boolType

theorem walk (steps : Nat) {id : TypeId} (h : id < t.size) :
    ∃ r, t.walk steps id = some r ∧ t.Defines r := by
  induction steps generalizing id with
  | zero => exact ⟨none, rfl, defines_none⟩
  | succ steps ih =>
    obtain ⟨type, htype⟩ := get?_of_lt h
    simp only [TypeTable.walk, htype, Option.bind_eq_bind, Option.bind_some]
    match hnext : type.next? with
    | none => exact ⟨some id, rfl, defines_some h⟩
    | some none => exact ⟨none, rfl, defines_none⟩
    | some (some next) =>
      exact ih (hc.references id type htype next (Ty.mem_references_of_next? hnext))

theorem scalarId {id : TypeId} (h : id < t.size) : ∃ r, t.scalarId id = some r ∧ t.Defines r := by
  obtain ⟨type, htype⟩ := get?_of_lt h
  simp only [TypeTable.scalarId, htype, Option.bind_eq_bind, Option.bind_some]
  split
  · match hfirst : type.member? 0 with
    | none => exact ⟨none, rfl, defines_none⟩
    | some first =>
      exact hc.walk _ (hc.references id type htype first (Ty.mem_references_of_member? hfirst))
  · exact hc.walk _ h

theorem scalar {type : Option TypeId} (h : t.Defines type) : ∃ r, t.scalar type = some r := by
  cases type with
  | none => exact ⟨none, rfl⟩
  | some id =>
    obtain ⟨r, hr, hdef⟩ := hc.scalarId (h id rfl)
    simp only [TypeTable.scalar, hr, Option.bind_eq_bind, Option.bind_some]
    cases r with
    | none => exact ⟨none, rfl⟩
    | some s =>
      obtain ⟨type, htype⟩ := get?_of_lt (hdef s rfl)
      exact ⟨some type, by simp [htype]⟩

theorem dataTypeOf {type : Option TypeId} (h : t.Defines type) :
    ∃ data, t.dataTypeOf type = some data := by
  obtain ⟨r, hr⟩ := hc.scalar h
  simp only [TypeTable.dataTypeOf, hr, Option.bind_eq_bind, Option.bind_some]
  cases r with
  | none => exact ⟨_, rfl⟩
  | some type => exact ⟨_, rfl⟩

theorem pointedFunction {id : TypeId} (h : id < t.size) :
    ∃ r, t.pointedFunction id = some r ∧
      ∀ result params, r = some (result, params) →
        result < t.size ∧ ∀ param ∈ params, param < t.size := by
  obtain ⟨type, htype⟩ := get?_of_lt h
  simp only [TypeTable.pointedFunction, htype, Option.bind_eq_bind, Option.bind_some]
  split
  · rename_i pointee space
    have hpointee := hc.references id _ htype pointee (by simp [Ty.references])
    obtain ⟨target, htarget⟩ := get?_of_lt hpointee
    simp only [htarget, Option.bind_some]
    split
    · rename_i result params
      refine ⟨_, rfl, fun result' params' heq => ?_⟩
      cases heq
      have href := hc.references pointee _ htarget
      exact ⟨href _ (by simp [Ty.references]), fun p hp => href p (by simp [Ty.references, hp])⟩
    · exact ⟨none, rfl, by simp⟩
  · exact ⟨none, rfl, by simp⟩

theorem flatten (steps : Nat) {id : TypeId} (count : Nat) (h : id < t.size) :
    ∃ r, t.flatten steps id count = some r ∧ r.1 < t.size := by
  induction steps generalizing id count with
  | zero => exact ⟨_, rfl, h⟩
  | succ steps ih =>
    obtain ⟨type, htype⟩ := get?_of_lt h
    simp only [TypeTable.flatten, htype, Option.bind_eq_bind, Option.bind_some]
    split
    · exact ih _ (hc.references id _ htype _ (by simp [Ty.references]))
    · exact ⟨_, rfl, h⟩

end Closed

end TypeTable

/-! ## Types of values -/

namespace Abides

variable {T : Terms} {t : TypeTable}

theorem typeOf {id : TypeId} (h : ¬ id < t.size → T.dangles) :
    Abides T (t.typeOf id) fun type => t.get? id = some type := by
  refine present fun hnone => h fun hlt => ?_
  obtain ⟨type, htype⟩ := TypeTable.get?_of_lt hlt
  rw [htype] at hnone
  cases hnone

theorem typeOf? {type : Option TypeId} (h : ¬ t.Defines type → T.dangles) :
    Abides T (t.typeOf? type) fun o => o = type.bind t.get? ∧ o.isSome = type.isSome := by
  cases type with
  | none => exact .pure ⟨rfl, rfl⟩
  | some id =>
    refine (typeOf fun hid => h fun hdefined => hid (hdefined id rfl)).map fun _ hget => ?_
    exact ⟨hget.symm, rfl⟩

theorem lookup {id : UInt64} (h : T.leaves none) :
    Abides T (t.lookup id) fun k => k = id.toNat ∧ k < t.size := by
  unfold TypeTable.lookup
  split
  · exact .pure ⟨rfl, ‹_›⟩
  · exact .reject rfl h

theorem lookupPointer {id : TypeId} {space : UInt64} {f : Finding} (hf : f.isError = true)
    (h : T.leaves none) (hid : ¬ id < t.size → T.dangles) :
    Abides T (t.lookupPointer id space f) fun k => t.get? k = some (.pointer id space) := by
  refine (present fun hnone => hid fun hlt => ?_).bind fun found hfound =>
    (orReject hf fun _ => h).mono fun k hk => ?_
  · obtain ⟨_, hsome⟩ := TypeTable.exists_pointerTo space hlt
    rw [hsome] at hnone
    cases hnone
  · rw [hk] at hfound
    exact TypeTable.get?_of_pointerTo hfound

end Abides

end Dxil
