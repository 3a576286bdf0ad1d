import Dxil.Proofs.Function.Body

/-!
# Dxil.Proofs.Function.Numbering

Records refer to values by their position, so positions must not depend on which records could be
lowered.

* `DefinesValue` : whether a record defines a value. It is told from the record and the values
  before it.
* `BodyState.gives_step` : a record adds its value, if it defines one, and changes no other.
* `Functions.gives_decode` : the values of a body go out of scope with it.
* `values_numbered` : both together, and that a record which cannot be lowered is passed as well.
-/

namespace Dxil

/-! ## Which records define a value -/

def DefinesValue (scope : FunctionScope) (values : Values) (r : Record) : Prop :=
  match FunctionCode.ofNat? r.code.toNat with
  | some .binary | some .cast | some .compare | some .extract | some .gep | some .load
  | some .select => True
  | some .call => ∃ result, CallReturns scope values r result
  | _ => False

/-- After a record, the values are those before it and, if it defines one, its own. -/
structure Numbers (scope : FunctionScope) (values : Values) (r : Record) (values' : Values) :
    Prop where
  defined : DefinesValue scope values r → ∃ v, values' = values.push v
  otherwise : ¬ DefinesValue scope values r → values' = values

inductive NumbersAll (scope : FunctionScope) : Values → List Record → Values → Prop where
  | nil {values : Values} : NumbersAll scope values [] values
  | cons {values values' values'' : Values} {r : Record} {rs : List Record}
      (h : Numbers scope values r values') (hs : NumbersAll scope values' rs values'') :
      NumbersAll scope values (r :: rs) values''

/-! ## Bodies -/

namespace BodyState

variable {scope : FunctionScope} {s : BodyState} {r : Record} {isCall : Bool}

theorem values_define (v : Value) :
    (s.define isCall v).values =
      if isCall && v.type.isNone then s.values else s.values.push v := by
  unfold define
  split <;> rfl

theorem gives_lower {code : FunctionCode} {x : Decoder Lowered}
    (hx : lowering? scope s.values r code = some x) :
    Gives (s.lower scope.types isCall x) fun s' =>
      ∃ v : Value, (code = .call → CallType scope s.values r v.type) ∧
        s'.values = (s.define isCall v).values := by
  intro p s' p' hrun
  obtain ⟨result, emitted, hattempt, hemitted⟩ := emitted_of_lower hrun
  obtain ⟨v, hv, hs'⟩ := hemitted.values
  refine ⟨v, fun hcall => ?_, hs'⟩
  rw [hv]
  rcases of_attempt_ok hattempt with ⟨l, hxp, rfl⟩ | ⟨type, hxp, rfl⟩
  · subst hcall
    exact ((Abides.lowering hx).gives p l p' hxp).callType
  · obtain ⟨_, -, hgave, -⟩ := (Abides.lowering hx).of_invalid hxp
    exact hgave.call hcall

theorem definesValue_call {values : Values}
    (hcode : FunctionCode.ofNat? r.code.toNat = some .call) :
    DefinesValue scope values r ↔ ∃ result, CallReturns scope values r result := by
  rw [DefinesValue, hcode]

theorem definesValue_of_lowering {values : Values} {code : FunctionCode} {x : Decoder Lowered}
    (hcode : FunctionCode.ofNat? r.code.toNat = some code)
    (hx : lowering? scope values r code = some x) (hother : code ≠ .call) :
    DefinesValue scope values r := by
  rw [DefinesValue, hcode]
  cases code with
  | call => exact absurd rfl hother
  | binary | cast | load | extract | compare | select | gep => trivial
  | _ => cases hx

/-- A call defines a value exactly if its callee returns one. All other records that are lowered
do. -/
theorem gives_lower_numbers {code : FunctionCode} {x : Decoder Lowered}
    (hcode : FunctionCode.ofNat? r.code.toNat = some code)
    (hx : lowering? scope s.values r code = some x) :
    Gives (s.lower scope.types (code = .call) x) fun s' =>
      Numbers scope s.values r s'.values := by
  refine (gives_lower hx).mono ?_
  rintro s' ⟨v, hv, hs'⟩
  rw [values_define] at hs'
  by_cases hcall : code = .call
  · subst hcall
    have htype := hv rfl
    match hnone : v.type with
    | none =>
      rw [hnone] at htype hs'
      refine ⟨fun hdefines => ?_, fun _ => hs'⟩
      obtain ⟨result, hreturns⟩ := (definesValue_call hcode).mp hdefines
      exact absurd hreturns (htype result)
    | some result =>
      rw [hnone] at htype hs'
      exact ⟨fun _ => ⟨v, hs'⟩, fun hnot => absurd ((definesValue_call hcode).mpr ⟨_, htype⟩) hnot⟩
  · rw [decide_eq_false hcall] at hs'
    exact ⟨fun _ => ⟨v, hs'⟩, fun hnot => absurd (definesValue_of_lowering hcode hx hcall) hnot⟩

theorem gives_step (blockCount : Nat) :
    Gives (s.step scope blockCount r) fun s' => Numbers scope s.values r s'.values := by
  refine step_cases (P := fun x => Gives x fun s' => Numbers scope s.values r s'.values) scope
    blockCount s r (fun _ _ _ => .reject) (fun hret => ?_) fun _ _ => gives_lower_numbers
  refine .after fun _ => .after fun _ => .pure ⟨fun h => ?_, fun _ => rfl⟩
  rw [DefinesValue, hret] at h
  exact h.elim

theorem gives_steps (blockCount i : Nat) (s : BodyState) (records : List Record) :
    Gives (foldRecords (fun s _ r => BodyState.step scope blockCount s r) i s records) fun s' =>
      NumbersAll scope s.values records s'.values := by
  induction records generalizing i s with
  | nil => exact .pure .nil
  | cons r rs ih =>
    exact .after fun _ => (gives_step blockCount).bind fun s' h =>
      (ih (i + 1) s').mono fun s'' hs => .cons h hs

theorem exists_step (hs : scope.Sound) (hu : s.values.Usable scope.types)
    (hreturned : s.returned = false) {code : FunctionCode}
    (hcode : FunctionCode.ofNat? r.code.toNat = some code) (hsupported : code ∈ supported)
    (blockCount : Nat) (p : Progress) : ∃ s' p', s.step scope blockCount r p = .ok s' p' := by
  have hstep : Abides (.strict (fun _ => True) False False) (s.step scope blockCount r)
      (s.Steps scope r) :=
    .bodyStep hs hu blockCount r (fun _ => trivial) fun hnot =>
      absurd hcode (hnot hreturned code hsupported)
  exact hstep.exists_ok (fun _ h => h.2) id p

end BodyState

/-! ## Scopes -/

/-- Values were only added. -/
def Values.Extends (values values' : Values) : Prop := ∃ new, values' = values ++ new

namespace Values.Extends

variable {values values' values'' : Values}

theorem refl : values.Extends values := ⟨#[], Array.append_empty.symm⟩

theorem trans (h : values.Extends values') (h' : values'.Extends values'') :
    values.Extends values'' := by
  obtain ⟨new, rfl⟩ := h
  obtain ⟨new', rfl⟩ := h'
  exact ⟨new ++ new', Array.append_assoc⟩

theorem push (v : Value) : values.Extends (values.push v) := ⟨#[v], Array.push_eq_append⟩

theorem take_size (h : values.Extends values') : values'.take values.size = values := by
  obtain ⟨new, rfl⟩ := h
  simp

end Values.Extends

namespace Constants

theorem Step.extends {types : TypeTable} {s s' : State} {r : Record} (h : Step types s r s') :
    s.pool.values.Extends s'.pool.values := by
  cases h with
  | setType => exact .refl
  | define hcode hcurrent hadds =>
    obtain ⟨v, hv⟩ := hadds.push
    exact hv ▸ .push v

theorem gives_decode (types : TypeTable) (pool : ConstantPool) (block : Block) :
    Gives (decode types pool block) fun pool' => pool.values.Extends pool'.values := by
  refine .after fun _ => Gives.bind (Gives.foldRecords
    (fun _ s => pool.values.Extends s.pool.values) (fun i r _ s h => ?_) .refl) fun s h => .pure h
  exact (Gives.constantsAdd types s i r).mono fun _ hstep => h.trans hstep.extends

end Constants

namespace Functions

variable {scope : FunctionScope}

mutual

/-- Blocks only add values. What a body and the constants before it add is taken back. -/
theorem gives_decode (level : Nat) (s : State) :
    (block : Block) → Gives (decode scope level s block) fun s' =>
      s.pool.values.Extends s'.pool.values ∧
      (block.id = BlockKind.function.id → s'.pool.values = s.pool.values)
  | .mk header records blocks => by
    rw [decode]
    refine (gives_decodeAll (level + 1) s blocks).bind fun inner hinner => .after fun _ =>
      .after fun _ => ?_
    split <;> rename_i hkind
    · have hother : header.id ≠ BlockKind.function.id := by
        intro h
        rw [h] at hkind
        cases hkind
      split
      · exact (Constants.gives_decode scope.types inner.pool _).bind fun pool hpool =>
          .pure ⟨hinner.trans hpool, fun h => absurd h hother⟩
      · exact .pure ⟨hinner, fun h => absurd h hother⟩
    · refine .after fun body => .pure ⟨?_, fun _ => hinner.take_size⟩
      rw [hinner.take_size]
      exact .refl
    · refine .pure ⟨hinner, fun h => absurd ?_ hkind⟩
      change header.id = _ at h
      rw [h]
      rfl

theorem gives_decodeAll (level : Nat) (s : State) :
    (blocks : List Block) → Gives (decodeAll scope level s blocks) fun s' =>
      s.pool.values.Extends s'.pool.values
  | [] => by
    rw [decodeAll]
    exact .pure .refl
  | block :: blocks => by
    rw [decodeAll]
    exact (gives_decode level s block).bind fun s' h =>
      (gives_decodeAll level s' blocks).mono fun s'' h' => h.1.trans h'

end

end Functions

/-- Values are numbered by the records alone, and belong to the body that defines them.

A record that a body passes leaves the values before it as they are, and adds one exactly if it
defines one: all but returns and calls do, and of calls those whose callee is a function that
returns a value. This holds of one record in any state and of records in turn, and a record that
cannot be lowered is passed like any other. After a function block, the values are those before
it. -/
theorem values_numbered (scope : FunctionScope) :
    (∀ blockCount s r p s' p', BodyState.step scope blockCount s r p = .ok s' p' →
      Numbers scope s.values r s'.values) ∧
    (∀ blockCount i s records p s' p',
      foldRecords (fun s _ r => BodyState.step scope blockCount s r) i s records p = .ok s' p' →
      NumbersAll scope s.values records s'.values) ∧
    (∀ blockCount s r p code, scope.Sound → s.values.Usable scope.types → p.Consistent →
      s.returned = false → FunctionCode.ofNat? r.code.toNat = some code →
      code ∈ BodyState.supported →
      ∃ s' p', BodyState.step scope blockCount s r p = .ok s' p') ∧
    (∀ level s block p s' p', block.id = BlockKind.function.id →
      Functions.decode scope level s block p = .ok s' p' → s'.pool.values = s.pool.values) := by
  refine ⟨?_, ?_, ?_, ?_⟩
  · intro blockCount s r
    exact BodyState.gives_step blockCount
  · intro blockCount i s records
    exact BodyState.gives_steps blockCount i s records
  · intro blockCount s r p code hs hu hp hreturned hcode hsupported
    exact BodyState.exists_step hs hu hreturned hcode hsupported blockCount p
  · intro level s block p s' p' hfunction hrun
    exact (Functions.gives_decode level s block p s' p' hrun).2 hfunction

/-- A module with one function, which takes and returns nothing. -/
def mainScope : FunctionScope :=
  { types := { types := #[.void, .function 0 [], .pointer 1 0, .int 32] }
    descriptors := [], inputs := [], outputs := [], inputParams := [], outputParams := []
    bound := 4 }

def mainValues : Values := #[{ type := some 2, kind := .function ⟨"main", false⟩ }]

/-- A body with a constant of its own and a sum without operands, which cannot be lowered. -/
def mainBlock : Block :=
  .mk ⟨BlockKind.function.id, 4, 20, 10, 1⟩ [⟨1, [1]⟩, ⟨2, []⟩, ⟨10, []⟩]
    [.mk ⟨BlockKind.constants.id, 4, 22, 2, 2⟩ [⟨1, [3]⟩, ⟨4, [14]⟩] []]

def mainProgress : Progress := { location := { source := defaultSourceName } }

theorem sound_mainScope : mainScope.Sound := by
  refine ⟨⟨fun id type htype ref href => ?_, ?_⟩, ⟨.input, rfl, rfl⟩, ⟨.input, rfl, rfl⟩⟩
  · match id with
    | 0 | 1 | 2 | 3 =>
      cases htype
      revert ref
      decide
    | _ + 4 => cases htype
  · exact TypeTable.defines_none

theorem usable_mainValues : mainValues.Usable mainScope.types := by
  intro v hv
  obtain rfl : v = _ := by simpa [mainValues] using hv
  exact ⟨TypeTable.defines_some (by decide), by simp⟩

theorem values_numbered_main :
    (∃ s' p' v, BodyState.step mainScope 1 { values := mainValues } ⟨2, []⟩ mainProgress =
      .ok s' p' ∧ s'.values = mainValues.push v) ∧
    ∃ s' p', Functions.decode mainScope 1 { pool := { values := mainValues } } mainBlock
      mainProgress = .ok s' p' ∧ s'.pool.values = mainValues := by
  obtain ⟨hstep, -, hpass, hdecode⟩ := values_numbered mainScope
  constructor
  · obtain ⟨s', p', hrun⟩ := hpass 1 { values := mainValues } ⟨2, []⟩ mainProgress .binary
      sound_mainScope usable_mainValues (by simp [Progress.Consistent, mainProgress]) rfl rfl
      (by decide)
    obtain ⟨v, hv⟩ := (hstep 1 _ _ _ s' p' hrun).defined trivial
    exact ⟨s', p', v, hrun, hv⟩
  · obtain ⟨s', p', hrun⟩ : ∃ s' p', Functions.decode mainScope 1
        { pool := { values := mainValues } } mainBlock mainProgress = .ok s' p' := ⟨_, _, rfl⟩
    exact ⟨s', p', hrun, hdecode 1 _ mainBlock _ s' p' rfl hrun⟩

end Dxil
