import Dxil.Proofs.Module.TypeRecords
import Mathlib.Data.Fintype.Card

/-!
# Dxil.Proofs.Module.TypeWalk

Walks through a type table, from a pointer to what it points to, from an array or vector to its
element and from a struct to its first member. A walk may lead round in a circle and then never
ends. One that ends passes no type twice, so that it is shorter than the table is long.

* `TypeTable.Leads`, `TypeTable.Walks` : one step of a walk, and some of them.
* `TypeTable.StopsAt`, `TypeTable.Endless` : the two ways that a walk can go.
* `TypeTable.Walks.lt_size` : the bound on the length of a walk that ends.
* `TypeTable.scalarId_walks` : the scalar of a type is where the walk from it ends.
-/

namespace Dxil

/-- Only pointers and aggregates lead anywhere. -/
theorem Ty.next?_eq_none_iff {type : Ty} :
    type.next? = none ↔ type.isPointer = false ∧ type.isAggregate = false := by
  cases type <;> simp [next?, isPointer, isAggregate]

namespace TypeTable

/-- A step of a walk. -/
inductive Leads (t : TypeTable) (id next : TypeId) : Prop
  | pointee (space : UInt64) (h : t.get? id = some (.pointer next space))
  | arrayElement (count : UInt32) (h : t.get? id = some (.array next count))
  | vectorElement (count : UInt32) (h : t.get? id = some (.vector next count))
  | firstMember (name : Option String) (rest : List TypeId)
      (h : t.get? id = some (.struct name (next :: rest)))

/-- So many steps lead from a type to another. -/
inductive Walks (t : TypeTable) : (steps : Nat) → TypeId → TypeId → Prop
  | done (id : TypeId) : t.Walks 0 id id
  | step {steps : Nat} {id next last : TypeId} (head : t.Leads id next)
      (tail : t.Walks steps next last) : t.Walks (steps + 1) id last

/-- The walk from a type comes to another, and no step leads on from there. -/
def StopsAt (t : TypeTable) (id last : TypeId) : Prop :=
  (∃ steps, t.Walks steps id last) ∧ ∀ next, ¬ t.Leads last next

def Endless (t : TypeTable) (id : TypeId) : Prop :=
  ∃ path : Nat → TypeId, path 0 = id ∧ ∀ n, t.Leads (path n) (path (n + 1))

variable {t : TypeTable} {id id' next last last' : TypeId} {m n : Nat}

/-! ## Steps -/

theorem leads_iff :
    t.Leads id next ↔ ∃ type, t.get? id = some type ∧ type.next? = some (some next) := by
  constructor
  · rintro (⟨_, h⟩ | ⟨_, h⟩ | ⟨_, h⟩ | ⟨_, _, h⟩) <;> exact ⟨_, h, rfl⟩
  · rintro ⟨type, h, hnext⟩
    cases type with
    | pointer pointee space =>
      cases hnext
      exact .pointee space h
    | array element count =>
      cases hnext
      exact .arrayElement count h
    | vector element count =>
      cases hnext
      exact .vectorElement count h
    | struct name members =>
      obtain ⟨rest, rfl⟩ := List.head?_eq_some_iff.mp (Option.some.inj hnext)
      exact .firstMember name rest h
    | _ => cases hnext

theorem Leads.unique (h : t.Leads id next) (h' : t.Leads id id') : next = id' := by
  obtain ⟨type, hget, hnext⟩ := leads_iff.mp h
  obtain ⟨type', hget', hnext'⟩ := leads_iff.mp h'
  rw [hget] at hget'
  cases hget'
  rw [hnext] at hnext'
  cases hnext'
  rfl

theorem Leads.lt_size (h : t.Leads id next) : id < t.size := by
  obtain ⟨type, hget, -⟩ := leads_iff.mp h
  exact lt_of_get? hget

/-- In a well-formed table a walk stops only at what leads nowhere by its kind: every struct has a
first member. -/
theorem WellFormed.not_leads_iff {type : Ty} (ht : t.WellFormed) (hget : t.get? id = some type) :
    (∀ next, ¬ t.Leads id next) ↔ type.next? = none := by
  constructor
  · intro hstop
    have hnext : ∀ next, type.next? ≠ some (some next) := fun next h =>
      hstop next (leads_iff.mpr ⟨type, hget, h⟩)
    have hproper := ht.proper id type hget
    cases type with
    | struct name members =>
      cases members with
      | nil => cases hproper
      | cons member rest => exact absurd rfl (hnext member)
    | pointer pointee space => exact absurd rfl (hnext pointee)
    | array element count => exact absurd rfl (hnext element)
    | vector element count => exact absurd rfl (hnext element)
    | _ => rfl
  · intro hnone next hleads
    obtain ⟨type', hget', hnext⟩ := leads_iff.mp hleads
    rw [hget] at hget'
    cases hget'
    rw [hnone] at hnext
    cases hnext

/-! ## The length of a walk -/

theorem Walks.unique (h : t.Walks m id last) (hstop : ∀ next, ¬ t.Leads last next)
    (h' : t.Walks n id last') (hstop' : ∀ next, ¬ t.Leads last' next) : m = n ∧ last = last' := by
  induction h generalizing n with
  | done id =>
    cases h' with
    | done => exact ⟨rfl, rfl⟩
    | step head _ => exact absurd head (hstop _)
  | step head _ ih =>
    cases h' with
    | done => exact absurd head (hstop' _)
    | step head' tail' =>
      obtain rfl := head.unique head'
      obtain ⟨rfl, rfl⟩ := ih hstop tail'
      exact ⟨rfl, rfl⟩

theorem Walks.rest (h : t.Walks n id last) (hm : m ≤ n) : ∃ mid, t.Walks m mid last := by
  induction h with
  | done id =>
    obtain rfl := Nat.le_zero.mp hm
    exact ⟨id, .done id⟩
  | @step n id next last head tail ih =>
    rcases Nat.le_succ_iff.mp hm with hm | rfl
    · exact ih hm
    · exact ⟨id, .step head tail⟩

theorem Walks.start_lt (h : t.Walks n id last) (hlast : last < t.size) : id < t.size := by
  cases h with
  | done => exact hlast
  | step head _ => exact head.lt_size

/-- A walk that stops is shorter than the table is long. What is left of it is of a different length
at each of its types, so that it does not pass a type twice. -/
theorem Walks.lt_size (h : t.Walks n id last) (hstop : ∀ next, ¬ t.Leads last next)
    (hlast : last < t.size) : n < t.size := by
  have hrest : ∀ m : Fin (n + 1), ∃ mid : Fin t.size, t.Walks m mid last := by
    intro m
    obtain ⟨mid, hmid⟩ := h.rest (Nat.le_of_lt_succ m.isLt)
    exact ⟨⟨mid, hmid.start_lt hlast⟩, hmid⟩
  choose mid hmid using hrest
  have hinjective : Function.Injective mid := by
    intro i j hij
    have hj := hmid j
    rw [← hij] at hj
    exact Fin.ext ((hmid i).unique hstop hj hstop).1
  have hcard := Fintype.card_le_of_injective mid hinjective
  rwa [Fintype.card_fin, Fintype.card_fin] at hcard

/-! ## Where a walk ends -/

theorem StopsAt.unique (h : t.StopsAt id last) (h' : t.StopsAt id last') : last = last' := by
  obtain ⟨⟨_, hwalks⟩, hstop⟩ := h
  obtain ⟨⟨_, hwalks'⟩, hstop'⟩ := h'
  exact (hwalks.unique hstop hwalks' hstop').2

theorem Leads.stopsAt_iff (h : t.Leads id next) : t.StopsAt id last ↔ t.StopsAt next last := by
  constructor
  · rintro ⟨⟨_, hwalks⟩, hstop⟩
    cases hwalks with
    | done => exact absurd h (hstop _)
    | step head tail =>
      obtain rfl := h.unique head
      exact ⟨⟨_, tail⟩, hstop⟩
  · rintro ⟨⟨_, hwalks⟩, hstop⟩
    exact ⟨⟨_, .step h hwalks⟩, hstop⟩

theorem Endless.not_stopsAt (h : t.Endless id) (last : TypeId) : ¬ t.StopsAt id last := by
  obtain ⟨path, rfl, hpath⟩ := h
  rintro ⟨⟨n, hwalks⟩, hstop⟩
  have hend : ∀ k i, t.Walks k (path i) last → False := by
    intro k
    induction k with
    | zero =>
      intro i hwalks
      cases hwalks
      exact hstop _ (hpath i)
    | succ k ih =>
      intro i hwalks
      cases hwalks with
      | step head tail =>
        obtain rfl := (hpath i).unique head
        exact ih (i + 1) tail
  exact hend n 0 hwalks

/-- What does not stop is endless: each step leads to another type whose walk does not stop. -/
theorem endless_of_not_stopsAt (h : ∀ last, ¬ t.StopsAt id last) : t.Endless id := by
  have hstep : ∀ a : {id // ∀ last, ¬ t.StopsAt id last},
      ∃ b : {id // ∀ last, ¬ t.StopsAt id last}, t.Leads a b := by
    intro ⟨a, ha⟩
    by_contra hnone
    refine ha a ⟨⟨0, .done a⟩, fun next hleads => hnone ⟨⟨next, fun last hlast => ?_⟩, hleads⟩⟩
    exact ha last (hleads.stopsAt_iff.mpr hlast)
  choose follow hfollow using hstep
  refine ⟨fun n => (follow^[n] ⟨id, h⟩).1, rfl, fun n => ?_⟩
  simp only [Function.iterate_succ_apply']
  exact hfollow _

/-! ## The bounded walk -/

theorem WellFormed.stopsAt_of_walk (ht : t.WellFormed) {bound : Nat}
    (h : t.walk bound id = some (some last)) : t.StopsAt id last := by
  induction bound generalizing id with
  | zero => cases h
  | succ bound ih =>
    obtain ⟨type, hget, h⟩ := Option.bind_eq_some_iff.mp h
    cases hnext : type.next? with
    | none =>
      rw [hnext] at h
      cases h
      exact ⟨⟨0, .done _⟩, (ht.not_leads_iff hget).mpr hnext⟩
    | some following =>
      rw [hnext] at h
      cases following with
      | none => cases h
      | some next => exact (leads_iff.mpr ⟨type, hget, hnext⟩).stopsAt_iff.mpr (ih h)

theorem Walks.walk_eq (ht : t.WellFormed) (h : t.Walks n id last)
    (hstop : ∀ next, ¬ t.Leads last next) (hlast : last < t.size) {bound : Nat} (hn : n < bound) :
    t.walk bound id = some (some last) := by
  induction h generalizing bound with
  | done id =>
    obtain ⟨bound, rfl⟩ := Nat.exists_eq_succ_of_ne_zero (Nat.ne_zero_of_lt hn)
    obtain ⟨type, hget⟩ := get?_of_lt hlast
    have hnext := (ht.not_leads_iff hget).mp hstop
    simp [walk, hget, hnext]
  | step head tail ih =>
    obtain ⟨bound, rfl⟩ := Nat.exists_eq_succ_of_ne_zero (Nat.ne_zero_of_lt hn)
    obtain ⟨type, hget, hnext⟩ := leads_iff.mp head
    simp only [walk, hget, Option.bind_eq_bind, Option.bind_some, hnext]
    exact ih hstop hlast (Nat.lt_of_succ_lt_succ hn)

namespace WellFormed

variable (ht : t.WellFormed)
include ht

theorem lt_of_leads (h : t.Leads id next) : next < t.size := by
  obtain ⟨type, hget, hnext⟩ := leads_iff.mp h
  exact ht.references id type hget next (Ty.mem_references_of_next? hnext)

theorem lt_of_walks (h : t.Walks n id last) (hid : id < t.size) : last < t.size := by
  induction h with
  | done id => exact hid
  | step head _ ih => exact ih (ht.lt_of_leads head)

/-- The bound of as many steps as there are types, and one, is never too low. -/
theorem walk_eq_some_iff (hid : id < t.size) :
    t.walk (t.size + 1) id = some (some last) ↔ t.StopsAt id last := by
  refine ⟨ht.stopsAt_of_walk, ?_⟩
  rintro ⟨⟨n, hwalks⟩, hstop⟩
  have hlast := ht.lt_of_walks hwalks hid
  have hn := hwalks.lt_size hstop hlast
  exact hwalks.walk_eq ht hstop hlast (Nat.lt_succ_of_lt hn)

/-- The search for a scalar is a bounded walk. From an aggregate it takes the first step by
another way. -/
theorem exists_scalarId_eq_walk (hid : id < t.size) :
    ∃ start, t.scalarId id = t.walk (t.size + 1) start ∧ (start = id ∨ t.Leads id start) := by
  obtain ⟨type, hget⟩ := get?_of_lt hid
  cases haggregate : type.isAggregate with
  | false => exact ⟨id, by simp [scalarId, hget, haggregate], .inl rfl⟩
  | true =>
    -- Neither kind of aggregate is empty.
    have hfirst : ∃ first, type.member? 0 = some first ∧ type.next? = some (some first) := by
      have hproper := ht.proper id type hget
      cases type with
      | struct name members =>
        cases members with
        | nil => cases hproper
        | cons member rest => exact ⟨member, rfl, rfl⟩
      | vector element count => exact ⟨element, if_pos (of_decide_eq_true hproper), rfl⟩
      | array element count => exact ⟨element, if_pos (of_decide_eq_true hproper), rfl⟩
      | _ => cases haggregate
    obtain ⟨first, hmember, hnext⟩ := hfirst
    exact ⟨first, by simp [scalarId, hget, haggregate, hmember],
      .inr (leads_iff.mpr ⟨type, hget, hnext⟩)⟩

theorem scalarId_eq_some_iff (hid : id < t.size) :
    t.scalarId id = some (some last) ↔ t.StopsAt id last := by
  obtain ⟨start, heq, rfl | hleads⟩ := ht.exists_scalarId_eq_walk hid
  · rw [heq, ht.walk_eq_some_iff hid]
  · rw [heq, ht.walk_eq_some_iff (ht.lt_of_leads hleads), hleads.stopsAt_iff]

theorem scalarId_eq_none_iff (hid : id < t.size) :
    t.scalarId id = some none ↔ t.Endless id := by
  constructor
  · intro hnone
    refine endless_of_not_stopsAt fun last hstops => ?_
    rw [(ht.scalarId_eq_some_iff hid).mpr hstops] at hnone
    cases hnone
  · intro hendless
    obtain ⟨found, hfound, -⟩ := ht.scalarId hid
    cases found with
    | none => exact hfound
    | some last =>
      exact absurd ((ht.scalarId_eq_some_iff hid).mp hfound) (hendless.not_stopsAt last)

end WellFormed

end TypeTable

/-- In every table that decoding gives, there is no scalar of a type exactly if the walk from it
never ends. Otherwise it is the one type where the walk stops, which is neither a pointer nor an
aggregate. However long a walk that stops, its end is found. -/
theorem TypeTable.scalarId_walks {root : Block} {p : Progress} {t : TypeTable}
    (ht : (TypeTable.decode root).run' p = some t) {id : TypeId} (hid : id < t.size) :
    (t.scalarId id = some none ↔ t.Endless id) ∧
      (¬ t.Endless id → ∃ last type, t.scalarId id = some (some last) ∧
        (∀ last', t.StopsAt id last' ↔ last' = last) ∧
        t.get? last = some type ∧ type.isPointer = false ∧ type.isAggregate = false) ∧
      ∀ n last, t.Walks n id last → (∀ next, ¬ t.Leads last next) →
        t.scalarId id = some (some last) := by
  replace ht := TypeTable.wellFormed_of_decode ht
  refine ⟨ht.scalarId_eq_none_iff hid, fun hends => ?_, fun n last hwalks hstop =>
    (ht.scalarId_eq_some_iff hid).mpr ⟨⟨n, hwalks⟩, hstop⟩⟩
  obtain ⟨last, hlast⟩ : ∃ last, t.StopsAt id last := by
    by_contra hnone
    exact hends (endless_of_not_stopsAt fun last hlast => hnone ⟨last, hlast⟩)
  obtain ⟨⟨n, hwalks⟩, hstop⟩ := hlast
  obtain ⟨type, hget⟩ := get?_of_lt (ht.lt_of_walks hwalks hid)
  have hkind := Ty.next?_eq_none_iff.mp ((ht.not_leads_iff hget).mp hstop)
  have hlast : t.StopsAt id last := ⟨⟨n, hwalks⟩, hstop⟩
  refine ⟨last, type, (ht.scalarId_eq_some_iff hid).mpr hlast, fun last' => ?_, hget, hkind⟩
  exact ⟨fun h => h.unique hlast, fun h => h ▸ hlast⟩

/-- A walk through all types of a table, in which the second member of a struct leads back to the
start, and a pointer to a struct that holds it. -/
theorem TypeTable.scalarId_walks_longest :
    let header : BlockHeader :=
      { id := BlockKind.module.id, width := 3, start := 0, length := 0, level := 0 }
    let root (records : List Record) : Block :=
      .mk header [] [.mk { header with id := BlockKind.type.id, level := 1 } records []]
    let start : Progress := { location := { source := "" } }
    let long : TypeTable :=
      { types := #[.pointer 3 0, .array 4 0xffffffff, .float 32, .struct none [1, 0], .vector 2 4] }
    let round : TypeTable := { types := #[.pointer 1 0, .struct none [0]] }
    (TypeTable.decode (root [⟨8, [3]⟩, ⟨11, [0, 4]⟩, ⟨3, []⟩, ⟨18, [0, 1, 0]⟩, ⟨12, [4, 2]⟩])).run'
        start = some long ∧
      (TypeTable.decode (root [⟨8, [1]⟩, ⟨18, [0, 0]⟩])).run' start = some round ∧
      0 < long.size ∧ 0 < round.size ∧
      long.scalarId 0 = some (some 2) ∧ (∀ last, long.StopsAt 0 last ↔ last = 2) ∧
      round.scalarId 0 = some none ∧ round.Endless 0 := by
  intro header root start long round
  have hlong : (TypeTable.decode (root [⟨8, [3]⟩, ⟨11, [0, 4]⟩, ⟨3, []⟩, ⟨18, [0, 1, 0]⟩,
      ⟨12, [4, 2]⟩])).run' start = some long := by
    decide +kernel
  have hround : (TypeTable.decode (root [⟨8, [1]⟩, ⟨18, [0, 0]⟩])).run' start = some round := by
    decide +kernel
  have hscalar : long.scalarId 0 = some (some 2) := by decide +kernel
  have hnone : round.scalarId 0 = some none := by decide +kernel
  obtain ⟨hendless, hends, -⟩ := TypeTable.scalarId_walks hlong (by decide : 0 < long.size)
  obtain ⟨last, -, hfound, hstops, -⟩ := hends fun h => by
    rw [hendless.mpr h] at hscalar
    cases hscalar
  rw [hscalar] at hfound
  cases hfound
  exact ⟨hlong, hround, by decide, by decide, hscalar, hstops, hnone,
    (TypeTable.scalarId_walks hround (by decide)).1.mp hnone⟩

end Dxil
