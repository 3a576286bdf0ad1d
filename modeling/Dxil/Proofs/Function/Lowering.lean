import Dxil.Proofs.Function.Lowers

/-!
# Dxil.Proofs.Function.Lowering

How the records of a function body are lowered.

* `GivenUp`, `Terms.lowering` : what is left of a record that is not lowered, and what may be found
  in one.
* `Abides.lowerBinary` and the like : each kind of record is lowered on these terms, as `Lowers`
  says.
* `Abides.lowering` : all of them. What else is said of lowering follows from this.
-/

namespace Dxil

/-! ## Terms -/

/-- The records that warn of operands beyond the last one that has a meaning. -/
def FunctionCode.countsOperands : FunctionCode → Bool
  | binary | cast | compare | select | load => true
  | _ => false

/-- What is left of a record of kind `code` that is not lowered: the type of its value. Of
calculations and comparisons there are no others than those that `Lowers` says nothing of. -/
structure GivenUp (scope : FunctionScope) (values : Values) (r : Record) (code : FunctionCode)
    (type : Option TypeId) : Prop where
  defined : scope.Sound → values.Usable scope.types → scope.types.Defines type
  call : code = .call → CallType scope values r type
  math : code.isMath = true → ∀ l, ¬ Lowers scope values r code l

/-- What may be found in a record of kind `code`. It is given up for an error, or for an operation
that is not known. -/
def Terms.lowering (scope : FunctionScope) (values : Values) (r : Record) (code : FunctionCode) :
    Terms where
  notes f := f.isUnhandled = false ∧ (f.isIgnoredOperands = false ∨ code.countsOperands = true)
  blames f := f.isError = true ∨ code = .call ∧ f.isUnhandled = true
  silent := ¬ values.Complete scope.types
  leaves := GivenUp scope values r code
  dangles := ¬ (scope.Sound ∧ values.Usable scope.types) ∧
    (code.isMath = true → ∀ l, ¬ Lowers scope values r code l)
  error _ := .inl

section

variable {scope : FunctionScope} {values : Values} {r : Record} {code : FunctionCode}
  {type : Option TypeId}

theorem Terms.dangles_lowering (hmath : code.isMath = false)
    (h : scope.Sound → values.Usable scope.types → False) :
    (Terms.lowering scope values r code).dangles :=
  ⟨fun hsound => h hsound.1 hsound.2, by simp [hmath]⟩

theorem GivenUp.of_defines (hmath : code.isMath = false) (hcall : code ≠ .call)
    (h : scope.Sound → values.Usable scope.types → scope.types.Defines type) :
    GivenUp scope values r code type :=
  ⟨h, fun heq => absurd heq hcall, by simp [hmath]⟩

theorem GivenUp.none (hmath : code.isMath = false) (hcall : code ≠ .call) :
    GivenUp scope values r code none :=
  .of_defines hmath hcall fun _ _ => TypeTable.defines_none

theorem GivenUp.of_call (h : CallType scope values r type) : GivenUp scope values r .call type :=
  ⟨fun _ _ => h.defines, fun _ => h, by simp [FunctionCode.isMath]⟩

end

/-! ## References -/

/-- Operand `i` of a record leads back from `count` values to position `index`, which is one of them
and below the bound. -/
def Resolves (scope : FunctionScope) (count : Nat) (r : Record) (i index : Nat) : Prop :=
  ∃ distance, r.operands[i]? = some distance ∧
    index = (UInt32.ofNat count - distance.toUInt32).toNat ∧ index < scope.bound ∧ index < count

theorem Refers.resolves {scope : FunctionScope} {values : Values} {r : Record} {i : Nat} {v : Value}
    (h : Refers scope values r i v) :
    ∃ index, Resolves scope values.size r i index ∧ values[index]? = some v := by
  obtain ⟨distance, hdistance, hbound, hget⟩ := h
  have hlt := (Array.getElem?_eq_some_iff.mp hget).1
  exact ⟨_, ⟨distance, hdistance, rfl, hbound, hlt⟩, hget⟩

theorem Resolves.refers {scope : FunctionScope} {values : Values} {r : Record} {i index : Nat}
    {v : Value} (h : Resolves scope values.size r i index) (hv : values[index]? = some v) :
    Refers scope values r i v := by
  obtain ⟨distance, hdistance, rfl, hbound, -⟩ := h
  exact ⟨distance, hdistance, hbound, hv⟩

namespace Abides

variable {T : Terms} {scope : FunctionScope} {values : Values} {r : Record} {types : TypeTable}

theorem checkForwardType (hno : T.leaves none) (types : TypeTable) (r : Record)
    (known : Option TypeId) (i : Nat) :
    Abides T (Dxil.checkForwardType types r known i) fun _ => True := by
  cases known with
  | some _ => exact .pure trivial
  | none =>
    exact (requireOperands r (i + 1) fun _ => hno).bind fun _ hlen => (operand (by omega)).bind
      fun id _ => (lookup hno).bind fun _ _ => .pure trivial

theorem resolve {count i : Nat} {known : Option TypeId}
    (hno : (∀ index, ¬ Resolves scope count r i index) → T.leaves none) :
    Abides T (Dxil.resolve scope count r known i) fun e =>
      Resolves scope count r i e.1 ∧ e.2 = i + 1 := by
  refine (requireOperands r (i + 1) fun hlt => hno ?_).bind fun _ hlen =>
    (operand (by omega)).bind fun distance hdistance => ?_
  · rintro index ⟨_, hget, -⟩
    have := (List.getElem?_eq_some_iff.mp hget).1
    omega
  dsimp only
  generalize hindex : (UInt32.ofNat count - distance.toUInt32).toNat = index
  -- Where the only candidate is none, there is none.
  have hreject : ¬ (index < scope.bound ∧ index < count) → T.leaves none := by
    refine fun hnot => hno fun index' hresolves => hnot ?_
    obtain ⟨distance', hdistance', rfl, h⟩ := hresolves
    rw [hdistance] at hdistance'
    cases hdistance'
    rwa [hindex] at h
  split
  · exact .reject rfl (hreject (by omega))
  split
  · exact .reject rfl (hreject (by omega))
  split
  · exact .pure ⟨⟨distance, hdistance, hindex.symm, by omega, ‹_›⟩, rfl⟩
  · have hforward := hreject (by omega)
    exact (checkForwardType hforward _ _ _ _).bind fun _ _ => .reject rfl hforward

theorem valueAt {i : Nat} {known : Option TypeId}
    (hno : (∀ v, ¬ Refers scope values r i v) → T.leaves none) :
    Abides T (Dxil.valueAt scope values r known i) fun e =>
      Refers scope values r i e.1 ∧ e.2 = i + 1 := by
  refine (resolve fun hnone => hno fun v hv => ?_).bind ?_
  · obtain ⟨index, hresolves, -⟩ := hv.resolves
    exact hnone index hresolves
  rintro ⟨index, _⟩ ⟨hresolves, rfl⟩
  have hlt : index < values.size := by
    obtain ⟨_, _, _, _, hlt⟩ := hresolves
    exact hlt
  refine (present fun hnone => ?_).bind fun v hv => .pure ⟨hresolves.refers hv, rfl⟩
  rw [Array.getElem?_eq_getElem hlt] at hnone
  cases hnone

theorem valueAt_bind {β : Type} {known : Option TypeId} {i : Nat} {f : Value × Nat → Decoder β}
    {R : β → Prop} (hno : (∀ v, ¬ Refers scope values r i v) → T.leaves none)
    (h : ∀ v, Refers scope values r i v → Abides T (f (v, i + 1)) R) :
    Abides T (Dxil.valueAt scope values r known i >>= f) R := by
  refine (valueAt hno).bind ?_
  rintro ⟨v, _⟩ ⟨hv, rfl⟩
  exact h v hv

theorem requireRegister (hno : T.leaves none) (v : Value) :
    Abides T (Dxil.requireRegister v) fun register => v.kind = .register register :=
  (orReject rfl fun _ => hno).mono fun _ h => Value.kind_of_register? h

theorem requirePointer (hno : T.leaves none) {v : Value} (hv : ¬ types.Defines v.type → T.dangles) :
    Abides T (Dxil.requirePointer types v) fun e =>
      v.type.bind types.get? = some (.pointer e.1 e.2) := by
  refine (typeOf? hv).bind fun type htype => ?_
  rw [← htype.1]
  split
  · exact .pure rfl
  · exact .reject rfl hno

theorem requireBool (hno : T.leaves none) {v : Value} (hv : ¬ types.Defines v.type → T.dangles) :
    Abides T (Dxil.requireBool types v) fun _ => v.type.bind types.get? = some (.int 1) := by
  refine (typeOf? hv).bind fun type htype => ?_
  rw [← htype.1]
  split
  · exact .pure rfl
  · exact .reject rfl hno

end Abides

section

variable {scope : FunctionScope} {values : Values} {r : Record} {known : Option TypeId} {i : Nat}
  {p p' : Progress}

theorem valueAt_of_refers {v : Value} (h : Refers scope values r i v) (known : Option TypeId)
    (p : Progress) : valueAt scope values r known i p = .ok (v, i + 1) p := by
  refine Abides.eq_ok (.mono (.valueAt fun hno => absurd h (hno v)) ?_) p
  rintro ⟨v', _⟩ ⟨hv', rfl⟩
  rw [h.unique hv']

theorem refers_of_valueAt {e : Value × Nat} (h : valueAt scope values r known i p = .ok e p') :
    p' = p ∧ Refers scope values r i e.1 ∧ e.2 = i + 1 :=
  (Abides.valueAt (T := .strict (fun _ => False) True False) fun _ => ⟨rfl, trivial⟩).unreported
    (fun _ h => h) h

end

/-! ## Calculations and comparisons -/

namespace Abides

variable {T : Terms} {scope : FunctionScope} {values : Values} {r : Record} {types : TypeTable}
  {a b : Value} {code flags : UInt64}

theorem calculate (hnotes : T.Remarks)
    (hno : (∀ l, ¬ Calculates types a b code flags l) → T.leaves none)
    (hd : ¬ types.Defines a.type → T.dangles) :
    Abides T (Dxil.calculate types a b code flags) (Calculates types a b code flags) := by
  refine (typeOf? hd).bind fun type htype => (orReject rfl fun hnone => hno ?_).bind
    fun operands hclass => (reportIf (hnotes _ rfl rfl)).bind fun _ _ => ?_
  · rintro _ ⟨-, hclass, -⟩
    rw [← htype.1, hnone] at hclass
    cases hclass
  rw [htype.1] at hclass
  cases hop : BinaryOp.ofNat? code.toNat with
  | none =>
    refine .reject rfl (hno ?_)
    rintro _ ⟨hop', -, -⟩
    cases hop.symm.trans hop'
  | some op =>
    refine (orReject rfl fun hnone => hno ?_).bind fun opcode hopcode =>
      (reportIf (hnotes _ rfl rfl)).bind fun _ _ => .pure (.operation hop hclass hopcode)
    rintro _ ⟨hop', hclass', hopcode⟩
    cases hop.symm.trans hop'
    cases hclass.symm.trans hclass'
    cases hnone.symm.trans hopcode

theorem compareNumbers {type : Ty} {p : Predicate} (hp : Predicate.ofNat? code.toNat = some p)
    (htype : a.type.bind types.get? = some type)
    (hnotes : T.Remarks)
    (hno : (∀ l, ¬ Compares types a b code flags l) → T.leaves none) :
    Abides T (Dxil.compareNumbers types type a b p code flags) (Compares types a b code flags) := by
  -- The predicate and the type are those of any comparison with this code.
  have hreject : (∀ opcode swapped,
      (type.isArithmeticInteger = true ∨ type.isFloat = true) →
      type.isArithmeticInteger = (!p.isFloat) →
      p.opcode? (type = .float 64) = some (opcode, swapped) → types.boolType.isSome → False) →
      T.leaves none := by
    refine fun h => hno ?_
    rintro _ ⟨hp', htype', hnumber, hkind, hopcode, hbool⟩
    cases hp.symm.trans hp'
    cases htype.symm.trans htype'
    exact h _ _ hnumber hkind hopcode hbool
  refine (rejectIf rfl fun hneither => hreject fun _ _ hnumber => ?_).bind fun _ hnumber =>
    (rejectIf rfl fun hmixed => hreject fun _ _ _ hkind => ?_).bind fun _ hkind =>
    (reportIf (hnotes _ rfl rfl)).bind fun _ _ =>
    (orReject rfl fun hnone => hreject fun _ _ _ _ hopcode => ?_).bind
      fun ⟨opcode, swapped⟩ hopcode =>
    (reportIf (hnotes _ rfl rfl)).bind fun _ _ =>
    (rejectIf rfl fun hmissing => hreject fun _ _ _ _ _ hbool => ?_).bind fun _ hbool =>
    .pure (.operation hp htype ?_ ?_ hopcode ?_)
  · rcases hnumber with h | h <;> simp [h] at hneither
  · simp [hkind] at hmixed
  · cases hnone.symm.trans hopcode
  · rw [Option.isNone_iff_eq_none.mp hmissing] at hbool
    cases hbool
  · cases hinteger : type.isArithmeticInteger <;> simp_all
  · cases hinteger : type.isArithmeticInteger <;> cases hfloat : p.isFloat <;> simp_all
  · simpa [Option.isSome_iff_ne_none] using hbool

theorem compareValues (hnotes : T.Remarks)
    (hno : (∀ l, ¬ Compares types a b code flags l) → T.leaves none)
    (hsilent : a.type = none → T.silent) (hd : ¬ types.Defines a.type → T.dangles) :
    Abides T (Dxil.compareValues types a b code flags) (Compares types a b code flags) := by
  refine (orReject rfl fun hnone => hno ?_).bind fun p hp => (typeOf? hd).bind fun type htype => ?_
  · rintro _ ⟨hp, -⟩
    cases hnone.symm.trans hp
  cases type with
  | none =>
    have hnone : a.type = none := by simpa using htype.2
    refine .abandon (hsilent hnone) (hno ?_)
    rintro _ ⟨-, htype, -⟩
    rw [hnone] at htype
    cases htype
  | some type => exact compareNumbers hp htype.1.symm hnotes hno

theorem lowerBinary (scope : FunctionScope) (values : Values) (r : Record) :
    Abides (.lowering scope values r .binary) (Dxil.lowerBinary scope values r)
      (Lowers scope values r .binary) := by
  refine valueAt_bind (fun hnone => ⟨fun _ _ => TypeTable.defines_none, nofun, fun _ l hl => ?_⟩)
    fun a ha => typed ?_
  · obtain ⟨a, _, _, ha, -⟩ := Lowers.binary_iff.mp hl
    exact hnone a ha
  have hnone : (∀ b code l, Refers scope values r 1 b → r.operands[2]? = some code →
      ¬ Calculates scope.types a b code (r.operands.getD 3 0) l) →
      ∀ l, ¬ Lowers scope values r .binary l := by
    intro h l hl
    obtain ⟨a', b, code, ha', hb, hcode, hl⟩ := Lowers.binary_iff.mp hl
    obtain rfl := ha.unique ha'
    exact h b code l hb hcode hl
  have hup : (∀ b code l, Refers scope values r 1 b → r.operands[2]? = some code →
      ¬ Calculates scope.types a b code (r.operands.getD 3 0) l) →
      GivenUp scope values r .binary a.type :=
    fun h => ⟨fun _ hu => (hu a ha.mem).type, nofun, fun _ => hnone h⟩
  refine valueAt_bind (fun hno => hup fun b _ _ hb => absurd hb (hno b)) fun b hb =>
    .bind (checkOperands r _ _ (fun hshort => hup fun _ _ _ _ hcode => ?_)
      fun _ _ => ⟨rfl, .inr rfl⟩) fun _ hlen => .bind (operand (by omega)) fun code hcode =>
    .mono (calculate (fun _ h h' => ⟨h, .inl h'⟩) (fun hno => hup fun b' code' l hb' hcode' => ?_)
      fun hdefines => ⟨?_, fun _ => ?_⟩)
      fun l hl => Lowers.binary_iff.mpr ⟨a, b, code, ha, hb, hcode, hl⟩
  · have := (List.getElem?_eq_some_iff.mp hcode).1
    omega
  · obtain rfl := hb.unique hb'
    cases hcode.symm.trans hcode'
    exact hno l
  · exact fun h => hdefines (h.2 a ha.mem).type
  · exact hnone fun _ _ _ _ _ hl => hdefines hl.defines

theorem lowerComparison (scope : FunctionScope) (values : Values) (r : Record) :
    Abides (.lowering scope values r .compare) (Dxil.lowerComparison scope values r)
      (Lowers scope values r .compare) := by
  refine typed ?_
  have hnone : (∀ a b code l, Refers scope values r 0 a → Refers scope values r 1 b →
      r.operands[2]? = some code → ¬ Compares scope.types a b code (r.operands.getD 3 0) l) →
      ∀ l, ¬ Lowers scope values r .compare l := by
    intro h l hl
    obtain ⟨a, b, code, ha, hb, hcode, hl⟩ := Lowers.compare_iff.mp hl
    exact h a b code l ha hb hcode hl
  have hup : (∀ a b code l, Refers scope values r 0 a → Refers scope values r 1 b →
      r.operands[2]? = some code → ¬ Compares scope.types a b code (r.operands.getD 3 0) l) →
      GivenUp scope values r .compare scope.types.boolType :=
    fun h => ⟨fun hs _ => hs.types.defines_boolType, nofun, fun _ => hnone h⟩
  refine valueAt_bind (fun hno => hup fun a _ _ _ ha => absurd ha (hno a)) fun a ha =>
    valueAt_bind (fun hno => hup fun _ b _ _ _ hb => absurd hb (hno b)) fun b hb =>
    .bind (checkOperands r _ _ (fun hshort => hup fun _ _ _ _ _ _ hcode => ?_)
      fun _ _ => ⟨rfl, .inr rfl⟩) fun _ hlen => .bind (operand (by omega)) fun code hcode =>
    .mono (compareValues (fun _ h h' => ⟨h, .inl h'⟩)
      (fun hno => hup fun a' b' code' l ha' hb' hcode' => ?_) (fun htype hc => ?_)
      fun hdefines => ⟨?_, fun _ => hnone fun a' _ _ _ ha' _ _ hl => ?_⟩)
      fun l hl => Lowers.compare_iff.mpr ⟨a, b, code, ha, hb, hcode, hl⟩
  · have := (List.getElem?_eq_some_iff.mp hcode).1
    omega
  · obtain rfl := ha.unique ha'
    obtain rfl := hb.unique hb'
    cases hcode.symm.trans hcode'
    exact hno l
  · have htyped := (hc a ha.mem).type
    rw [htype] at htyped
    cases htyped
  · exact fun h => hdefines (h.2 a ha.mem).type
  · obtain rfl := ha.unique ha'
    exact hdefines hl.defines

/-! ## Selection -/

theorem lowerExtract (scope : FunctionScope) (values : Values) (r : Record) :
    Abides (.lowering scope values r .extract) (Dxil.lowerExtract scope values r)
      (Lowers scope values r .extract) := by
  have hno : GivenUp scope values r .extract none := .none rfl (by decide)
  refine valueAt_bind (fun _ => hno) fun aggregate hv => .bind (requireOperands r _ fun _ => hno)
    fun _ hlen => .bind (requireRegister hno aggregate) fun register hregister =>
    .bind (rejectIf rfl fun _ => hno) fun _ _ => .bind (typeOf? fun hnot =>
      Terms.dangles_lowering rfl fun _ hu => hnot (hu aggregate hv.mem).type) fun type htype => ?_
  rw [htype.1]
  split
  · exact .reject rfl hno
  · rename_i type hfilter
    obtain ⟨htype, haggregate⟩ := Option.filter_eq_some_iff.mp hfilter
    refine .bind (operand (by omega)) fun index hindex => .bind (orReject rfl fun _ => hno)
      fun member hmember => .bind (typeOf fun hnot => Terms.dangles_lowering rfl fun hs _ =>
        hnot ?_) fun memberType hget => .bind (rejectIf rfl fun _ => hno) fun _ hflat =>
      .pure (.extract hv hregister htype haggregate hindex hmember hget (by simpa using hflat))
    obtain ⟨id, -, hid⟩ := Option.bind_eq_some_iff.mp htype
    exact hs.types.references id type hid member (Ty.mem_references_of_member? hmember)

theorem selectValue (hnotes : T.Remarks) (hno : T.leaves none) {ifTrue ifFalse condition : Value}
    (hd : ¬ types.Defines condition.type → T.dangles) :
    Abides T (Dxil.selectValue types ifTrue ifFalse condition) fun l =>
      ∃ a b c, ifTrue.kind = .register a ∧ ifFalse.kind = .register b ∧
        condition.kind = .register c ∧ condition.type.bind types.get? = some (.int 1) ∧
        l = .operation
          { opcode := .movc, src := [.ofRegister c, .ofRegister a, .ofRegister b]
            type := ifTrue.type } :=
  (requireRegister hno ifTrue).bind fun a ha => (requireRegister hno ifFalse).bind fun b hb =>
    (requireRegister hno condition).bind fun c hc => (requireBool hno hd).bind fun _ hbool =>
    (reportIf (hnotes _ rfl rfl)).bind fun _ _ => .pure ⟨a, b, c, ha, hb, hc, hbool, rfl⟩

theorem lowerSelect (scope : FunctionScope) (values : Values) (r : Record) :
    Abides (.lowering scope values r .select) (Dxil.lowerSelect scope values r)
      (Lowers scope values r .select) := by
  refine valueAt_bind (fun _ => .none rfl (by decide)) fun ifTrue htrue => typed ?_
  have hno : GivenUp scope values r .select ifTrue.type :=
    .of_defines rfl (by decide) fun _ hu => (hu ifTrue htrue.mem).type
  refine valueAt_bind (fun _ => hno) fun ifFalse hfalse => valueAt_bind (fun _ => hno)
    fun condition hcondition => .bind (ignoreBeyond r _ fun _ _ => ⟨rfl, .inr rfl⟩) fun _ _ =>
    .mono (selectValue ?_ hno fun hnot => ?_) ?_
  · exact fun _ h h' => ⟨h, .inl h'⟩
  · exact Terms.dangles_lowering rfl fun _ hu => hnot (hu condition hcondition.mem).type
  · rintro _ ⟨a, b, c, ha, hb, hc, hbool, rfl⟩
    exact .select htrue hfalse hcondition ha hb hc hbool

/-! ## Casts and addresses -/

theorem castScalar (hno : T.leaves none) {v : Value} {register : Register} {source target : Ty}
    {id : TypeId} {code : UInt64} (h : Casts scope values r v register source id target code) :
    Abides T (Dxil.castScalar register source target id code) (Lowers scope values r .cast) := by
  unfold Dxil.castScalar
  cases hop : CastOp.ofNat? code.toNat with
  | none => exact .reject rfl hno
  | some op =>
    dsimp only
    split
    · exact .pure (.keep h hop ‹_›)
    · exact .pure (.convert h hop ‹_›)
    · exact .reject rfl hno
    · exact .reject rfl hno

theorem castTo (hno : T.leaves none) {v : Value} {operand code : UInt64} {id : TypeId}
    (hv : Refers scope values r 0 v) (hoperand : r.operands[1]? = some operand)
    (hid : id = operand.toNat ∧ id < scope.types.size) (hcode : r.operands[2]? = some code)
    (hsilent : v.type = none → T.silent) (hd : ¬ scope.types.Defines v.type → T.dangles) :
    Abides T (Dxil.castTo scope.types v id code) (Lowers scope values r .cast) := by
  refine (requireRegister hno v).bind fun register hregister => (typeOf? hd).bind
    fun type htype => ?_
  cases type with
  | none => exact .abandon (hsilent (by simpa using htype.2)) hno
  | some source =>
    refine (typeOf fun hnot => absurd hid.2 hnot).bind fun target htarget => ?_
    have h : Casts scope values r v register source id target code :=
      ⟨hv, hregister, htype.1.symm, ⟨operand, hoperand, hid.1⟩, htarget, hcode⟩
    split
    · rename_i hpointers
      simp only [Bool.and_eq_true] at hpointers
      exact .pure (.pointerCast h hpointers.1 hpointers.2)
    split
    · exact .reject rfl hno
    · exact castScalar hno h

theorem lowerCast (scope : FunctionScope) (values : Values) (r : Record) :
    Abides (.lowering scope values r .cast) (Dxil.lowerCast scope values r)
      (Lowers scope values r .cast) := by
  have hno : GivenUp scope values r .cast none := .none rfl (by decide)
  refine valueAt_bind (fun _ => hno) fun v hv => .bind (checkOperands r _ _ (fun _ => hno)
    fun _ _ => ⟨rfl, .inr rfl⟩) fun _ hlen => .bind (operand (by omega)) fun operand hoperand =>
    .bind (lookup hno) fun id hid => .bind (Abides.operand (by omega)) fun code hcode =>
    typed (castTo ?_ hv hoperand hid hcode (fun htype hc => ?_) fun hnot =>
      Terms.dangles_lowering rfl fun _ hu => hnot (hu v hv.mem).type)
  · exact GivenUp.of_defines rfl (by decide) fun _ _ => TypeTable.defines_some hid.2
  · have htyped := (hc v hv.mem).type
    rw [htype] at htyped
    cases htyped

theorem checkElement (hno : T.leaves none) (count : UInt32) (index : Value) :
    Abides T (Dxil.checkElement count index) fun _ =>
      ∀ n, index.constantUint? = some n → n < count := by
  unfold Dxil.checkElement
  split
  · rename_i n hn
    split
    · exact .reject rfl hno
    · refine .pure fun n' hn' => ?_
      rw [hn] at hn'
      cases hn'
      exact UInt32.not_le.mp ‹_›
  · rename_i hnone
    exact .pure fun n hn => by simp [hnone] at hn

theorem element (register : Register) (inBounds : Bool) (index : Value) :
    Abides T (register.element inBounds index) fun register' =>
      register' = register.withElement { RegisterIndex.ofAddress index with inBounds } := by
  have hset := register.setIndex?_setIndexCount { RegisterIndex.ofAddress index with inBounds }
  refine (present fun hnone => ?_).mono fun register' hregister' => ?_
  · cases hset.symm.trans hnone
  · exact Option.some.inj (hregister'.symm.trans hset)

theorem lowerGep (scope : FunctionScope) (values : Values) (r : Record) :
    Abides (.lowering scope values r .gep) (Dxil.lowerGep scope values r)
      (Lowers scope values r .gep) := by
  have hno : GivenUp scope values r .gep none := .none rfl (by decide)
  refine .bind (requireOperands r 5 fun _ => hno) fun _ hlen => .bind (operand (by omega))
    fun inBounds hflag => .bind (operand (by omega)) fun type _ => .bind (lookup hno) fun _ _ =>
    valueAt_bind (fun _ => hno) fun base hbase => .bind (requireRegister hno base)
    fun register hregister => .bind (requirePointer hno fun hnot =>
      Terms.dangles_lowering rfl fun _ hu => hnot (hu base hbase.mem).type)
    fun ⟨pointee, space⟩ hpointer => .bind (rejectIf rfl fun _ => hno) fun _ hwhole =>
    .bind (reportIf ⟨rfl, .inl rfl⟩) fun _ _ => valueAt_bind (fun _ => hno) fun zero hzero =>
    .bind (rejectIf rfl fun _ => hno) fun _ hzeroValue => .bind (typeOf fun hnot =>
      Terms.dangles_lowering rfl fun hs _ => hnot ?_) fun array harray => ?_
  · obtain ⟨id, -, hid⟩ := Option.bind_eq_some_iff.mp hpointer
    exact hs.types.references id _ hid pointee (by simp [Ty.references])
  cases array with
  | array element count =>
    refine .bind (rejectIf rfl fun _ => hno) fun _ _ => valueAt_bind (fun _ => hno)
      fun index hindex => .bind (checkElement hno count index) fun _ hin =>
      .bind (rejectIf rfl fun _ => hno) fun _ _ => .bind (lookupPointer rfl hno fun hnot =>
        Terms.dangles_lowering rfl fun hs _ => hnot ?_) fun pointer hresult =>
      .bind (Abides.element register _ index) fun register' hregister' => .pure ?_
    · exact hs.types.references pointee _ harray element (by simp [Ty.references])
    · subst hregister'
      exact .gep hflag hbase hregister hpointer (Nat.le_of_not_lt hwhole) hzero
        (Decidable.not_not.mp hzeroValue) harray hindex hin hresult
  | _ => exact .reject rfl hno

theorem skipLoadType (hnotes : T.Remarks) (hno : T.leaves none) (types : TypeTable)
    (pointee : TypeId) {i : Nat} (hlen : i + 2 ≤ r.operands.length) :
    Abides T (Dxil.skipLoadType types pointee r i) fun i' =>
      i' = (if r.operands.length = i + 3 then i + 1 else i) ∧ i' + 2 ≤ r.operands.length := by
  unfold Dxil.skipLoadType
  split
  · exact (operand (by omega)).bind fun id _ => (lookup hno).bind fun _ _ =>
      (reportIf (hnotes _ rfl rfl)).bind fun _ _ => .pure ⟨rfl, by omega⟩
  · exact .pure ⟨rfl, hlen⟩

theorem loadNumber (hnotes : T.Remarks) (hno : T.leaves none) {register : Register}
    {pointee : TypeId} {i : Nat} (hlen : i + 2 ≤ r.operands.length)
    (hd : ¬ pointee < types.size → T.dangles) :
    Abides T (Dxil.loadNumber types register pointee r i) fun l =>
      ∃ type alignment, types.get? pointee = some type ∧ type.isNumeric = true ∧
        r.operands[if r.operands.length = i + 3 then i + 1 else i]? = some alignment ∧
        l = .operation
          { opcode := .mov
            src :=
              [{ SrcParam.ofRegister register with
                 register := { register with alignment := alignmentOf alignment } }]
            type := some pointee } := by
  refine (skipLoadType hnotes hno types pointee hlen).bind fun i' hi' => (typeOf hd).bind
    fun type htype => (rejectIf rfl fun _ => hno).bind fun _ hnumeric => (operand (by omega)).bind
    fun alignment halignment => (skipOperand (by omega)).bind fun _ _ =>
    .pure ⟨type, alignment, htype, by simpa using hnumeric, ?_, rfl⟩
  rw [← halignment, hi'.1]

theorem lowerLoad (scope : FunctionScope) (values : Values) (r : Record) :
    Abides (.lowering scope values r .load) (Dxil.lowerLoad scope values r)
      (Lowers scope values r .load) := by
  have hno : GivenUp scope values r .load none := .none rfl (by decide)
  refine valueAt_bind (fun _ => hno) fun pointer hv => .bind (requireRegister hno pointer)
    fun register hregister => .bind (requirePointer hno fun hnot =>
      Terms.dangles_lowering rfl fun _ hu => hnot (hu pointer hv.mem).type)
    fun ⟨pointee, space⟩ hpointer => ?_
  have hpointee : scope.Sound → pointee < scope.types.size := fun hs => by
    obtain ⟨id, -, hid⟩ := Option.bind_eq_some_iff.mp hpointer
    exact hs.types.references id _ hid pointee (by simp [Ty.references])
  have hup : GivenUp scope values r .load (some pointee) :=
    .of_defines rfl (by decide) fun hs _ => TypeTable.defines_some (hpointee hs)
  refine .bind (checkOperands r _ _ (fun _ => hno) fun _ _ => ⟨rfl, .inr rfl⟩) fun _ hlen =>
    typed (.mono (loadNumber ?_ hup hlen fun hnot => ?_) ?_)
  · exact fun _ h h' => ⟨h, .inl h'⟩
  · exact Terms.dangles_lowering rfl fun hs _ => hnot (hpointee hs)
  · rintro _ ⟨type, alignment, htype, hnumeric, halignment, rfl⟩
    exact .load hv hregister hpointer htype hnumeric halignment

/-! ## Calls -/

section

variable (hno : T.leaves none) (hd : ¬ (scope.Sound ∧ values.Usable scope.types) → T.dangles)
include hno hd

theorem checkArguments (name : String) (i : Nat) (kinds : List ArgumentKind) (args : List Value)
    (hargs : ∀ v ∈ args, v ∈ values) :
    Abides T (Dxil.checkArguments scope.types name i kinds args) fun _ =>
      ArgumentKind.Accept scope.types kinds args := by
  fun_induction Dxil.checkArguments scope.types name i kinds args with
  | case1 => exact .pure ⟨rfl, by simp⟩
  | case2 => exact .reject rfl hno
  | case3 => exact .reject rfl hno
  | case4 i kind kinds v vs ih =>
    refine (typeOf? fun hnot => hd fun h => hnot (h.2 v (hargs v List.mem_cons_self)).type).bind
      fun type htype => ?_
    rw [htype.1]
    split
    · rename_i hkind
      simp only [Bool.and_eq_true] at hkind
      refine (ih fun v hv => hargs v (List.mem_cons_of_mem _ hv)).mono
        fun _ h => ⟨by simp [h.1], ?_⟩
      intro e he
      rw [List.zip_cons_cons] at he
      rcases List.mem_cons.mp he with rfl | he
      · exact hkind
      · exact h.2 e he
    · exact .reject rfl hno

omit hd in
theorem lowerCreateHandle {type : Option TypeId} {resource id index nonUniform : Value}
    (h : Calls scope values r .createHandle type [resource, id, index, nonUniform]) :
    Abides T (Dxil.lowerCreateHandle scope type resource id index nonUniform)
      (Lowers scope values r .call) := by
  refine (orReject rfl fun _ => hno).bind fun kind hkind => ?_
  dsimp only
  split
  · rename_i hany
    obtain ⟨d, hdescriptor, hmatches⟩ := List.any_eq_true.mp hany
    exact .pure (.createHandle h hkind hdescriptor hmatches)
  · exact .reject rfl hno

theorem lowerLoadConstantBuffer {type : Option TypeId} {handle row : Value}
    (h : Calls scope values r .loadConstantBuffer type [handle, row]) :
    Abides T (Dxil.lowerLoadConstantBuffer scope type handle row)
      (Lowers scope values r .call) := by
  unfold Dxil.lowerLoadConstantBuffer
  split
  · rename_i register hregister
    refine (present fun hnone => hd fun hsound => ?_).bind fun register' hregister' =>
      (present fun hnone => hd fun hsound => ?_).bind fun scalar hscalar => .pure ?_
    · have hthree := (hsound.2 handle (h.defined _ (by simp))).handle register hregister
      have hset := Register.setIndex?_of_lt (RegisterIndex.ofAddress row)
        (show 2 < register.indices.length by omega)
      cases hset.symm.trans hnone
    · obtain ⟨_, hscalar⟩ := hsound.1.types.scalar h.type.defines
      cases hscalar.symm.trans hnone
    · obtain ⟨-, hset⟩ := Option.ite_none_right_eq_some.mp hregister'
      cases hset
      have := Lowers.loadConstantBuffer h hregister hscalar
      cases scalar with
      | none => exact this
      | some scalar => exact this
  · exact .reject rfl hno

omit hno in
theorem rowRegister_bind {β : Type} {s : Signature} {params : List DstParam}
    (hparams : scope.Sound →
      ∃ type : RegisterType, type.isSignature = true ∧ params = s.params type) {i : Nat}
    {e : SignatureElement} (he : s[i]? = some e) {row : RegisterIndex}
    {f : Register → Decoder β} {R : β → Prop}
    (h : ∀ param register, params[i]? = some param →
      e.atRow? param.register row = some register → Abides T (f register) R) :
    Abides T (do
      let param ← Dxil.present params[i]?
      let register ← Dxil.present (e.atRow? param.register row)
      f register) R := by
  refine (present fun hnone => hd fun hsound => ?_).bind fun param hparam =>
    (present fun hnone => hd fun hsound => ?_).bind fun register hregister =>
    h param register hparam hregister
  · obtain ⟨type, -, rfl⟩ := hparams hsound.1
    cases (Signature.getElem?_params he type).symm.trans hnone
  · obtain ⟨type, -, rfl⟩ := hparams hsound.1
    cases (Signature.getElem?_params he type).symm.trans hparam
    cases (e.atRow?_param type i row).symm.trans hnone

theorem lowerLoadInput {type : Option TypeId} {element row column last : Value}
    (h : Calls scope values r .loadInput type [element, row, column, last]) :
    Abides T (Dxil.lowerLoadInput scope type element row column) (Lowers scope values r .call) :=
  (orReject rfl fun _ => hno).bind fun _ he => (rejectIf rfl fun _ => hno).bind fun _ hcolumn =>
    rowRegister_bind hd (fun hs => hs.inputParams) he fun _ _ hparam hregister =>
    .pure (.loadInput h rfl he hparam (Nat.lt_of_not_le hcolumn) hregister)

theorem lowerStoreOutput {type : Option TypeId} {element row column value : Value}
    (h : Calls scope values r .storeOutput type [element, row, column, value]) :
    Abides T (Dxil.lowerStoreOutput scope type element row column value)
      (Lowers scope values r .call) :=
  (orReject rfl fun _ => hno).bind fun _ he => (rejectIf rfl fun _ => hno).bind fun _ hcolumn =>
    (orReject rfl fun _ => hno).bind fun _ hsource =>
    rowRegister_bind hd (fun hs => hs.outputParams) he fun _ _ hparam hregister =>
    .pure (.storeOutput h rfl he hparam (Nat.lt_of_not_le hcolumn)
      (Value.kind_of_register? hsource) hregister)

theorem lowerIntrinsic (hunhandled : ∀ name, T.blames (.intrinsicUnhandled name))
    {number : UInt32} {type : Option TypeId} {args : List Value} (name : String)
    (h : ∀ op, Intrinsic.ofNat? number.toNat = some op →
      ArgumentKind.Accept scope.types op.arguments args → Calls scope values r op type args)
    (hargs : ∀ v ∈ args, v ∈ values) :
    Abides T (Dxil.lowerIntrinsic scope number name type args) (Lowers scope values r .call) := by
  unfold Dxil.lowerIntrinsic
  cases hop : Intrinsic.ofNat? number.toNat with
  | none => exact .rejectAs (hunhandled name) hno
  | some op =>
    refine (checkArguments hno hd name 1 op.arguments args hargs).bind fun _ haccept => ?_
    have hcalls := h op hop haccept
    have hlen := haccept.1
    split
    · exact lowerLoadInput hno hd hcalls
    · exact lowerStoreOutput hno hd hcalls
    · exact lowerCreateHandle hno hcalls
    · exact lowerLoadConstantBuffer hno hd hcalls
    · -- As many arguments as the operation takes would have matched one of the cases before.
      rename_i hinput houtput hcreate hload
      exfalso
      match op, args, hlen with
      | .loadInput, [_, _, _, _], _ => exact hinput _ _ _ _ rfl rfl
      | .storeOutput, [_, _, _, _], _ => exact houtput _ _ _ _ rfl rfl
      | .createHandle, [_, _, _, _], _ => exact hcreate _ _ _ _ rfl rfl
      | .loadConstantBuffer, [_, _], _ => exact hload _ _ rfl rfl

omit hd in
theorem callArguments (params : List TypeId) (i : Nat) :
    Abides T (Dxil.callArguments scope values r params i) fun e =>
      (∀ v ∈ e.1, v ∈ values) ∧ ∀ v, e.1.head? = some v → Refers scope values r i v := by
  induction params generalizing i with
  | nil => exact .pure (by simp)
  | cons param params ih =>
    refine valueAt_bind (fun _ => hno) fun v hv => (ih _).bind fun ⟨vs, _⟩ hvs =>
      .pure ⟨List.forall_mem_cons.mpr ⟨hv.mem, hvs.1⟩, ?_⟩
    rintro _ ⟨⟩
    exact hv

theorem intrinsicNumber {v : Value} (hv : v ∈ values) :
    Abides T (Dxil.intrinsicNumber scope.types v) fun n => v.constantUint? = some n := by
  refine (typeOf? fun hnot => hd fun h => hnot (h.2 v hv).type).bind fun type _ => ?_
  split
  · exact .pure ‹_›
  · exact .reject rfl hno

theorem callFunction (hunhandled : ∀ name, T.blames (.intrinsicUnhandled name)) {callee : Value}
    {decl : FunctionDecl} {type : Option TypeId} {args : List Value}
    (hcallee : Refers scope values r r.calleeOperand callee)
    (hdecl : callee.function? = some decl) (htype : CallType scope values r type)
    (hargs : ∀ v ∈ args, v ∈ values)
    (hfirst : ∀ v, args.head? = some v → Refers scope values r (r.calleeOperand + 1) v) :
    Abides T (Dxil.callFunction scope decl type args) (Lowers scope values r .call) := by
  refine (rejectIf rfl fun _ => hno).bind fun _ hprototype => ?_
  cases args with
  | nil => exact .reject rfl hno
  | cons id args =>
    have hrest : ∀ v ∈ args, v ∈ values := fun v hv => hargs v (List.mem_cons_of_mem _ hv)
    refine (intrinsicNumber hno hd (hargs id List.mem_cons_self)).bind fun number hnumber =>
      lowerIntrinsic hno hd hunhandled decl.name (fun op hop haccept => ?_) hrest
    exact ⟨⟨callee, decl, hcallee, hdecl, by simpa using hprototype⟩,
      ⟨id, number, hfirst id rfl, hnumber, hop⟩, hrest, haccept, htype⟩

end

theorem skipCalleeType (hnotes : T.Remarks) (types : TypeTable) (hlen : 2 ≤ r.operands.length)
    (hno : r.operands.length ≤ r.calleeOperand → T.leaves none) :
    Abides T (Dxil.skipCalleeType types r) fun i => i = r.calleeOperand := by
  refine (operand (by omega)).bind fun convention hconvention => ?_
  have hgetD : r.operands.getD 1 0 = convention := by
    rw [List.getD_eq_getElem?_getD, hconvention, Option.getD_some]
  unfold Record.calleeOperand at hno ⊢
  rw [hgetD] at hno ⊢
  by_cases hflag : convention &&& explicitCalleeType = 0
  · rw [if_neg (not_not_intro hflag), if_pos hflag]
    exact .pure rfl
  · rw [if_neg hflag] at hno ⊢
    rw [if_pos hflag]
    refine (requireOperands r 3 fun hshort => hno (by omega)).bind fun _ _ =>
      (operand (by omega)).bind fun id _ => .bind (attempt
        (lookup (T := .strict (fun _ => False) True False) ⟨rfl, trivial⟩) nofun (fun f hf => ?_)
        nofun) fun _ _ => .pure rfl
    exact hnotes f (Finding.not_isUnhandled_of_isError hf)
      (Finding.not_isIgnoredOperands_of_isError hf)

theorem lowerCall (scope : FunctionScope) (values : Values) (r : Record) :
    Abides (.lowering scope values r .call) (Dxil.lowerCall scope values r)
      (Lowers scope values r .call) := by
  refine .bind (requireOperands r 2 fun hshort => .of_call (callType_none_of_length ?_))
    fun _ hlen => .bind (skipCalleeType ?_ _ hlen fun hshort =>
      .of_call (callType_none_of_length hshort)) fun _ hi => ?_
  · have := r.two_le_calleeOperand
    omega
  · exact fun _ h h' => ⟨h, .inl h'⟩
  subst hi
  refine valueAt_bind (fun hno => .of_call (callType_none hno)) fun callee hcallee =>
    .bind (orReject rfl fun hno => .of_call (callType_none_of_refers hcallee ?_))
    fun decl hdecl => .bind (present fun hnone => Terms.dangles_lowering rfl fun hs hu => ?_)
    fun signature hsignature => ?_
  · intro _ _ _ hdecl
    cases hno.symm.trans hdecl
  · obtain ⟨_, hsome, -⟩ := (hu callee hcallee.mem).signature hs.types
    cases hsome.symm.trans hnone
  cases signature with
  | none =>
    refine .abandon (fun hc => (hc callee hcallee.mem).function decl hdecl hsignature)
      (.of_call (callType_none_of_refers hcallee fun _ _ _ _ hsome => ?_))
    cases hsignature.symm.trans hsome
  | some signature =>
    obtain ⟨result, params⟩ := signature
    refine .bind (typeOf fun hnot => Terms.dangles_lowering rfl fun hs hu => hnot ?_)
      fun kind hkind => ?_
    · obtain ⟨_, hsome, htypes⟩ := (hu callee hcallee.mem).signature hs.types
      cases hsignature.symm.trans hsome
      exact htypes result params rfl
    have htype := callType_of_signature hcallee hdecl hsignature hkind
    have hno := GivenUp.of_call htype
    refine typed (.bind (callArguments hno params _) fun ⟨args, _⟩ hargs =>
      .bind (reportIf ⟨rfl, .inl rfl⟩) fun _ _ =>
        callFunction hno ?_ (fun name => ?_) hcallee hdecl htype hargs.1 hargs.2)
    · exact fun hnot => Terms.dangles_lowering rfl fun hs hu => hnot ⟨hs, hu⟩
    · exact .inr ⟨rfl, rfl⟩

theorem lowering {x : Decoder Lowered} {code : FunctionCode}
    (h : lowering? scope values r code = some x) :
    Abides (.lowering scope values r code) x (Lowers scope values r code) := by
  cases code with
  | binary =>
    cases h
    exact lowerBinary scope values r
  | cast =>
    cases h
    exact lowerCast scope values r
  | load =>
    cases h
    exact lowerLoad scope values r
  | extract =>
    cases h
    exact lowerExtract scope values r
  | compare =>
    cases h
    exact lowerComparison scope values r
  | select =>
    cases h
    exact lowerSelect scope values r
  | call =>
    cases h
    exact lowerCall scope values r
  | gep =>
    cases h
    exact lowerGep scope values r
  | _ => cases h

end Abides

end Dxil
