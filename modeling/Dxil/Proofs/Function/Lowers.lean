import Dxil.Function.Body
import Dxil.Proofs.Module.Interface

/-!
# Dxil.Proofs.Function.Lowers

What the records of a function body may be lowered to, said once for all records.

* `Refers` : the value that an operand of a record refers to.
* `CallType` : the type of the value that a call defines.
* `Lowers scope values r code l` : as a record of kind `code`, `r` may be lowered to `l`. There is
  one case for each kind of result, with what was checked of the record before.
* `Lowers.unique` : calculations and comparisons are lowered in one way.
-/

namespace Dxil

/-- What the rest of a module promises to a function body. -/
structure FunctionScope.Sound (scope : FunctionScope) : Prop where
  types : scope.types.Closed
  inputParams : ∃ type : RegisterType, type.isSignature = true ∧
    scope.inputParams = scope.inputs.params type
  outputParams : ∃ type : RegisterType, type.isSignature = true ∧
    scope.outputParams = scope.outputs.params type

/-- What is known of every value that a record can refer to: its type exists, and a handle has
three indices, the last of which is for the row. -/
structure Value.Usable (types : TypeTable) (v : Value) : Prop where
  type : types.Defines v.type
  handle : ∀ register, v.kind = .handle register → register.indices.length = 3

def Values.Usable (types : TypeTable) (values : Values) : Prop := ∀ v ∈ values, v.Usable types

/-- Operand `i` of a record refers to `v`, which is defined already. -/
def Refers (scope : FunctionScope) (values : Values) (r : Record) (i : Nat) (v : Value) : Prop :=
  ∃ distance, r.operands[i]? = some distance ∧
    (UInt32.ofNat values.size - distance.toUInt32).toNat < scope.bound ∧
    values[(UInt32.ofNat values.size - distance.toUInt32).toNat]? = some v

theorem Refers.mem {scope : FunctionScope} {values : Values} {r : Record} {i : Nat} {v : Value}
    (h : Refers scope values r i v) : v ∈ values := by
  obtain ⟨_, _, _, hget⟩ := h
  exact Array.mem_of_getElem? hget

theorem Refers.lt_length {scope : FunctionScope} {values : Values} {r : Record} {i : Nat}
    {v : Value} (h : Refers scope values r i v) : i < r.operands.length := by
  obtain ⟨_, hget, _⟩ := h
  exact (List.getElem?_eq_some_iff.mp hget).1

theorem Refers.unique {scope : FunctionScope} {values : Values} {r : Record} {i : Nat}
    {v v' : Value} (h : Refers scope values r i v) (h' : Refers scope values r i v') : v = v' := by
  obtain ⟨distance, hdistance, -, hget⟩ := h
  obtain ⟨distance', hdistance', -, hget'⟩ := h'
  rw [hdistance] at hdistance'
  cases hdistance'
  exact Option.some.inj (hget.symm.trans hget')

theorem Value.kind_of_register? {v : Value} {register : Register}
    (h : v.register? = some register) : v.kind = .register register := by
  unfold Value.register? at h
  split at h
  · cases h
    assumption
  · cases h

theorem Value.Usable.signature {types : TypeTable} {v : Value} (h : v.Usable types)
    (hc : types.Closed) :
    ∃ s, v.signature types = some s ∧
      ∀ result params, s = some (result, params) → result < types.size := by
  unfold Value.signature
  match hv : v.type with
  | none => exact ⟨none, rfl, by simp⟩
  | some id =>
    obtain ⟨s, hs, hsize⟩ := hc.pointedFunction (h.type id hv)
    exact ⟨s, hs, fun result params heq => (hsize result params heq).1⟩

/-! ## Callees -/

def Record.calleeOperand (r : Record) : Nat :=
  if r.operands.getD 1 0 &&& explicitCalleeType = 0 then 2 else 3

theorem Record.two_le_calleeOperand (r : Record) : 2 ≤ r.calleeOperand := by
  unfold calleeOperand
  split <;> omega

/-- A call is of a function, and its first argument is the number of an operation. -/
structure Selects (scope : FunctionScope) (values : Values) (r : Record) (op : Intrinsic) :
    Prop where
  callee : ∃ callee decl, Refers scope values r r.calleeOperand callee ∧
    callee.function? = some decl
  number : ∃ id n, Refers scope values r (r.calleeOperand + 1) id ∧ id.constantUint? = some n ∧
    Intrinsic.ofNat? n.toNat = some op

theorem Selects.unique {scope : FunctionScope} {values : Values} {r : Record} {op op' : Intrinsic}
    (h : Selects scope values r op) (h' : Selects scope values r op') : op = op' := by
  obtain ⟨id, n, hid, hn, hop⟩ := h.number
  obtain ⟨id', n', hid', hn', hop'⟩ := h'.number
  obtain rfl := hid.unique hid'
  rw [hn] at hn'
  cases hn'
  exact Option.some.inj (hop.symm.trans hop')

def CallReturns (scope : FunctionScope) (values : Values) (r : Record) (result : TypeId) : Prop :=
  ∃ callee decl params type, Refers scope values r r.calleeOperand callee ∧
    callee.function? = some decl ∧ callee.signature scope.types = some (some (result, params)) ∧
    scope.types.get? result = some type ∧ type.isVoid = false

/-- The type of what a call defines: the one that its callee returns. -/
def CallType (scope : FunctionScope) (values : Values) (r : Record) : Option TypeId → Prop
  | none => ∀ result, ¬ CallReturns scope values r result
  | some result => CallReturns scope values r result

section

variable {scope : FunctionScope} {values : Values} {r : Record}

theorem CallType.defines {type : Option TypeId} (h : CallType scope values r type) :
    scope.types.Defines type := by
  cases type with
  | none => exact TypeTable.defines_none
  | some result =>
    obtain ⟨_, _, _, _, _, _, _, hget, _⟩ := h
    exact TypeTable.defines_some (TypeTable.lt_of_get? hget)

theorem callType_none (h : ∀ callee, ¬ Refers scope values r r.calleeOperand callee) :
    CallType scope values r none := by
  rintro result ⟨callee, _, _, _, hrefers, _⟩
  exact h callee hrefers

theorem callType_none_of_length (h : r.operands.length ≤ r.calleeOperand) :
    CallType scope values r none :=
  callType_none fun _ hrefers => Nat.not_lt_of_le h hrefers.lt_length

theorem callType_none_of_refers {callee : Value}
    (h : Refers scope values r r.calleeOperand callee)
    (hnot : ∀ decl result params, callee.function? = some decl →
      callee.signature scope.types ≠ some (some (result, params))) :
    CallType scope values r none := by
  rintro result ⟨callee', decl, params, _, hrefers, hdecl, hsignature, _⟩
  obtain rfl := h.unique hrefers
  exact hnot decl result params hdecl hsignature

theorem callType_of_signature {callee : Value} {decl : FunctionDecl} {result : TypeId}
    {params : List TypeId} {type : Ty} (h : Refers scope values r r.calleeOperand callee)
    (hdecl : callee.function? = some decl)
    (hsignature : callee.signature scope.types = some (some (result, params)))
    (htype : scope.types.get? result = some type) :
    CallType scope values r (if type.isVoid then none else some result) := by
  cases hvoid : type.isVoid with
  | false => exact ⟨callee, decl, params, type, h, hdecl, hsignature, htype, hvoid⟩
  | true =>
    rintro result' ⟨callee', _, params', type', hrefers, _, hsignature', htype', hvoid'⟩
    obtain rfl := h.unique hrefers
    rw [hsignature] at hsignature'
    cases hsignature'
    rw [htype] at htype'
    cases htype'
    rw [hvoid] at hvoid'
    cases hvoid'

end

/-! ## The relation -/

structure Casts (scope : FunctionScope) (values : Values) (r : Record) (v : Value)
    (register : Register) (source : Ty) (id : TypeId) (target : Ty) (code : UInt64) : Prop where
  value : Refers scope values r 0 v
  register : v.kind = .register register
  source : v.type.bind scope.types.get? = some source
  result : ∃ operand, r.operands[1]? = some operand ∧ id = operand.toNat
  target : scope.types.get? id = some target
  code : r.operands[2]? = some code

def ArgumentKind.Accept (types : TypeTable) (kinds : List ArgumentKind) (args : List Value) :
    Prop :=
  kinds.length = args.length ∧
    ∀ e ∈ kinds.zip args, (e.2.isRegister || e.2.isHandle) = true ∧
      e.1.accepts (e.2.type.bind types.get?) e.2 = true

structure Calls (scope : FunctionScope) (values : Values) (r : Record) (op : Intrinsic)
    (type : Option TypeId) (args : List Value) : Prop where
  callee : ∃ callee decl, Refers scope values r r.calleeOperand callee ∧
    callee.function? = some decl ∧ decl.isPrototype = true
  number : ∃ id n, Refers scope values r (r.calleeOperand + 1) id ∧ id.constantUint? = some n ∧
    Intrinsic.ofNat? n.toNat = some op
  defined : ∀ v ∈ args, v ∈ values
  kinds : ArgumentKind.Accept scope.types op.arguments args
  type : CallType scope values r type

theorem Calls.selects {scope : FunctionScope} {values : Values} {r : Record} {op : Intrinsic}
    {type : Option TypeId} {args : List Value} (h : Calls scope values r op type args) :
    Selects scope values r op := by
  obtain ⟨callee, decl, hcallee, hdecl, -⟩ := h.callee
  exact ⟨⟨callee, decl, hcallee, hdecl⟩, h.number⟩

/-- What a record of a kind may be lowered to. -/
inductive Lowers (scope : FunctionScope) (values : Values) (r : Record) :
    FunctionCode → Lowered → Prop where
  | binary {a b : Value} {code : UInt64} {operands : OperandClass} {op : BinaryOp}
      {opcode : Opcode} (ha : Refers scope values r 0 a) (hb : Refers scope values r 1 b)
      (hcode : r.operands[2]? = some code) (hop : BinaryOp.ofNat? code.toNat = some op)
      (hclass : (a.type.bind scope.types.get?).bind Ty.operandClass? = some operands)
      (hopcode : op.opcode? operands = some opcode) :
      Lowers scope values r .binary (.operation (op.operation opcode (r.operands.getD 3 0) a b))
  | pointerCast {v : Value} {register : Register} {source target : Ty} {id : TypeId}
      {code : UInt64} (h : Casts scope values r v register source id target code)
      (hsource : source.isPointer = true) (htarget : target.isPointer = true) :
      Lowers scope values r .cast (.value { type := some id, kind := v.kind })
  | keep {v : Value} {register : Register} {source target : Ty} {id : TypeId} {code : UInt64}
      {op : CastOp} (h : Casts scope values r v register source id target code)
      (hop : CastOp.ofNat? code.toNat = some op)
      (hplan : op.plan source.shape target.shape = .keep) :
      Lowers scope values r .cast
        (.value { type := some id, kind := .register (register.reinterpret target) })
  | convert {v : Value} {register : Register} {source target : Ty} {id : TypeId} {code : UInt64}
      {op : CastOp} {opcode : Opcode} (h : Casts scope values r v register source id target code)
      (hop : CastOp.ofNat? code.toNat = some op)
      (hplan : op.plan source.shape target.shape = .convert opcode) :
      Lowers scope values r .cast
        (.operation { opcode, src := [castSource register source opcode], type := some id })
  | comparison {a b : Value} {code : UInt64} {p : Predicate} {type : Ty} {opcode : Opcode}
      {swapped : Bool} (ha : Refers scope values r 0 a) (hb : Refers scope values r 1 b)
      (hcode : r.operands[2]? = some code) (hp : Predicate.ofNat? code.toNat = some p)
      (htype : a.type.bind scope.types.get? = some type)
      (hnumber : type.isArithmeticInteger = true ∨ type.isFloat = true)
      (hkind : type.isArithmeticInteger = !p.isFloat)
      (hopcode : p.opcode? (type = .float 64) = some (opcode, swapped))
      (hbool : scope.types.boolType.isSome) :
      Lowers scope values r .compare (.operation
        (p.operation opcode swapped (r.operands.getD 3 0) scope.types.boolType a b))
  | extract {aggregate : Value} {register : Register} {type memberType : Ty} {index : UInt64}
      {member : TypeId} (hv : Refers scope values r 0 aggregate)
      (hregister : aggregate.kind = .register register)
      (htype : aggregate.type.bind scope.types.get? = some type)
      (haggregate : type.isAggregate = true) (hindex : r.operands[1]? = some index)
      (hmember : type.member? index.toNat = some member)
      (hmemberType : scope.types.get? member = some memberType)
      (hflat : memberType.isAggregate = false) :
      Lowers scope values r .extract (.operation
        { opcode := .mov, src := [{ register, swizzle := .broadcast index.toUInt32 }]
          type := some member })
  | select {ifTrue ifFalse condition : Value} {a b c : Register}
      (htrue : Refers scope values r 0 ifTrue) (hfalse : Refers scope values r 1 ifFalse)
      (hcondition : Refers scope values r 2 condition) (ha : ifTrue.kind = .register a)
      (hb : ifFalse.kind = .register b) (hc : condition.kind = .register c)
      (hbool : condition.type.bind scope.types.get? = some (.int 1)) :
      Lowers scope values r .select (.operation
        { opcode := .movc, src := [.ofRegister c, .ofRegister a, .ofRegister b]
          type := ifTrue.type })
  | gep {inBounds : UInt64} {base zero index : Value} {register : Register} {pointee : TypeId}
      {space : UInt64} {element pointer : TypeId} {count : UInt32}
      (hflag : r.operands[0]? = some inBounds) (hbase : Refers scope values r 2 base)
      (hregister : base.kind = .register register)
      (hpointer : base.type.bind scope.types.get? = some (.pointer pointee space))
      (hwhole : register.indices.length ≤ 1) (hzero : Refers scope values r 3 zero)
      (hzeroValue : zero.constantUint? = some 0)
      (hpointee : scope.types.get? pointee = some (.array element count))
      (hindex : Refers scope values r 4 index)
      (hin : ∀ n, index.constantUint? = some n → n < count)
      (hresult : scope.types.get? pointer = some (.pointer element space)) :
      Lowers scope values r .gep (.value
        { type := some pointer
          kind := .register
            (register.withElement { RegisterIndex.ofAddress index with
              inBounds := decide (inBounds ≠ 0) }) })
  | load {pointer : Value} {register : Register} {pointee : TypeId} {space alignment : UInt64}
      {type : Ty} (hv : Refers scope values r 0 pointer)
      (hregister : pointer.kind = .register register)
      (hpointer : pointer.type.bind scope.types.get? = some (.pointer pointee space))
      (htype : scope.types.get? pointee = some type) (hnumeric : type.isNumeric = true)
      (halignment : r.operands[if r.operands.length = 4 then 2 else 1]? = some alignment) :
      Lowers scope values r .load (.operation
        { opcode := .mov
          src :=
            [{ SrcParam.ofRegister register with
               register := { register with alignment := alignmentOf alignment } }]
          type := some pointee })
  | createHandle {type : Option TypeId} {resource id index nonUniform : Value}
      {kind : DescriptorType} {d : Descriptor}
      (h : Calls scope values r .createHandle type [resource, id, index, nonUniform])
      (hkind : DescriptorType.ofNat? (resource.constantUint?.getD noConstant).toNat = some kind)
      (hd : d ∈ scope.descriptors)
      (hmatches : d.matches kind (id.constantUint?.getD noConstant) index = true) :
      Lowers scope values r .call (.value
        { type
          kind := .handle (.constantBuffer (id.constantUint?.getD noConstant) (.ofAddress index)
            (nonUniform.constantUint?.any (· ≠ 0))) })
  | loadConstantBuffer {type : Option TypeId} {handle row : Value} {register : Register}
      {scalar : Option Ty} (h : Calls scope values r .loadConstantBuffer type [handle, row])
      (hregister : handle.kind = .handle register)
      (hscalar : scope.types.scalar type = some scalar) :
      Lowers scope values r .call (.operation
        { opcode := .mov
          src :=
            [{ register :=
                 { register with
                   indices := register.indices.set 2 (RegisterIndex.ofAddress row)
                   data := scalar.elim register.data Ty.dataType }
               swizzle :=
                 if (scalar.elim register.data Ty.dataType).is64Bit then .ofComponents 0 1 0 0
                 else .identity }]
          type
          components := scalar.elim vec4Size Ty.vectorSize })
  | loadInput {type : Option TypeId} {element row column last : Value} {i : Nat}
      {e : SignatureElement} {param : DstParam} {register : Register}
      (h : Calls scope values r .loadInput type [element, row, column, last])
      (hi : i = (element.constantUint?.getD noConstant).toNat)
      (he : scope.inputs[i]? = some e) (hparam : scope.inputParams[i]? = some param)
      (hcolumn : (column.constantUint?.getD noConstant).toNat < vec4Size)
      (hregister : e.atRow? param.register (.ofAddress row) = some register) :
      Lowers scope values r .call (.operation
        { opcode := .mov
          src := [{ register, swizzle := .broadcast (column.constantUint?.getD noConstant) }]
          type })
  | storeOutput {type : Option TypeId} {element row column value : Value} {i : Nat}
      {e : SignatureElement} {param : DstParam} {register source : Register}
      (h : Calls scope values r .storeOutput type [element, row, column, value])
      (hi : i = (element.constantUint?.getD noConstant).toNat)
      (he : scope.outputs[i]? = some e) (hparam : scope.outputParams[i]? = some param)
      (hcolumn : (column.constantUint?.getD noConstant).toNat < vec4Size)
      (hsource : value.kind = .register source)
      (hregister : e.atRow? param.register (.ofAddress row) = some register) :
      Lowers scope values r .call (.store
        { register, mask := .ofComponent (column.constantUint?.getD noConstant).toNat }
        (.ofRegister source) type)

def Lowered.type : Lowered → Option TypeId
  | .value v => v.type
  | .operation op => op.type
  | .store _ _ type => type

namespace Lowers

variable {scope : FunctionScope} {values : Values} {r : Record} {code : FunctionCode} {l : Lowered}

theorem selects (h : Lowers scope values r .call l) :
    ∃ op, Selects scope values r op ∧ (op = .createHandle ↔ ∃ v, l = .value v) := by
  cases h with
  | createHandle h | loadConstantBuffer h | loadInput h | storeOutput h =>
    exact ⟨_, h.selects, by simp⟩

theorem callType (h : Lowers scope values r .call l) : CallType scope values r l.type := by
  cases h with
  | createHandle h | loadConstantBuffer h | loadInput h | storeOutput h => exact h.type

theorem isSome_type (h : Lowers scope values r code l) (hother : code ≠ .call)
    (hc : values.Complete scope.types) : l.type.isSome = true := by
  cases h with
  | binary ha => exact (hc _ ha.mem).type
  | select htrue => exact (hc _ htrue.mem).type
  | comparison _ _ _ _ _ _ _ _ hbool => exact hbool
  | pointerCast | keep | convert | extract | gep | load => rfl
  | createHandle | loadConstantBuffer | loadInput | storeOutput => exact absurd rfl hother

end Lowers

/-! ## Calculations and comparisons -/

def FunctionCode.isMath : FunctionCode → Bool
  | binary | compare => true
  | _ => false

/-- The operation with a code on two values, by the type of the first. -/
inductive Calculates (types : TypeTable) (a b : Value) (code flags : UInt64) : Lowered → Prop where
  | operation {operands : OperandClass} {op : BinaryOp} {opcode : Opcode}
      (hop : BinaryOp.ofNat? code.toNat = some op)
      (hclass : (a.type.bind types.get?).bind Ty.operandClass? = some operands)
      (hopcode : op.opcode? operands = some opcode) :
      Calculates types a b code flags (.operation (op.operation opcode flags a b))

inductive Compares (types : TypeTable) (a b : Value) (code flags : UInt64) : Lowered → Prop where
  | operation {p : Predicate} {type : Ty} {opcode : Opcode} {swapped : Bool}
      (hp : Predicate.ofNat? code.toNat = some p)
      (htype : a.type.bind types.get? = some type)
      (hnumber : type.isArithmeticInteger = true ∨ type.isFloat = true)
      (hkind : type.isArithmeticInteger = !p.isFloat)
      (hopcode : p.opcode? (type = .float 64) = some (opcode, swapped))
      (hbool : types.boolType.isSome) :
      Compares types a b code flags
        (.operation (p.operation opcode swapped flags types.boolType a b))

section

variable {types : TypeTable} {a b : Value} {code flags : UInt64} {l l' : Lowered}

theorem defines_of_bind_get? {type : Option TypeId} {ty : Ty}
    (h : type.bind types.get? = some ty) : types.Defines type := by
  obtain ⟨id, rfl, hget⟩ := Option.bind_eq_some_iff.mp h
  exact TypeTable.defines_some (TypeTable.lt_of_get? hget)

theorem Calculates.defines (h : Calculates types a b code flags l) : types.Defines a.type := by
  obtain ⟨-, hclass, -⟩ := h
  obtain ⟨_, htype, -⟩ := Option.bind_eq_some_iff.mp hclass
  exact defines_of_bind_get? htype

theorem Compares.defines (h : Compares types a b code flags l) : types.Defines a.type := by
  obtain ⟨-, htype, -, -, -, -⟩ := h
  exact defines_of_bind_get? htype

theorem Calculates.unique (h : Calculates types a b code flags l)
    (h' : Calculates types a b code flags l') : l = l' := by
  obtain ⟨hop, hclass, hopcode⟩ := h
  obtain ⟨hop', hclass', hopcode'⟩ := h'
  cases hop.symm.trans hop'
  cases hclass.symm.trans hclass'
  cases hopcode.symm.trans hopcode'
  rfl

theorem Compares.unique (h : Compares types a b code flags l)
    (h' : Compares types a b code flags l') : l = l' := by
  obtain ⟨hp, htype, -, -, hopcode, -⟩ := h
  obtain ⟨hp', htype', -, -, hopcode', -⟩ := h'
  cases hp.symm.trans hp'
  cases htype.symm.trans htype'
  cases hopcode.symm.trans hopcode'
  rfl

end

namespace Lowers

variable {scope : FunctionScope} {values : Values} {r : Record} {l l' : Lowered}

theorem binary_iff :
    Lowers scope values r .binary l ↔ ∃ a b code, Refers scope values r 0 a ∧
      Refers scope values r 1 b ∧ r.operands[2]? = some code ∧
      Calculates scope.types a b code (r.operands.getD 3 0) l := by
  constructor
  · intro h
    cases h with
    | binary ha hb hcode hop hclass hopcode =>
      exact ⟨_, _, _, ha, hb, hcode, hop, hclass, hopcode⟩
  · rintro ⟨a, b, code, ha, hb, hcode, hop, hclass, hopcode⟩
    exact .binary ha hb hcode hop hclass hopcode

theorem compare_iff :
    Lowers scope values r .compare l ↔ ∃ a b code, Refers scope values r 0 a ∧
      Refers scope values r 1 b ∧ r.operands[2]? = some code ∧
      Compares scope.types a b code (r.operands.getD 3 0) l := by
  constructor
  · intro h
    cases h with
    | comparison ha hb hcode hp htype hnumber hkind hopcode hbool =>
      exact ⟨_, _, _, ha, hb, hcode, hp, htype, hnumber, hkind, hopcode, hbool⟩
  · rintro ⟨a, b, code, ha, hb, hcode, hp, htype, hnumber, hkind, hopcode, hbool⟩
    exact .comparison ha hb hcode hp htype hnumber hkind hopcode hbool

theorem unique {code : FunctionCode} (hmath : code.isMath = true)
    (h : Lowers scope values r code l) (h' : Lowers scope values r code l') : l = l' := by
  cases code with
  | binary =>
    obtain ⟨a, b, code, ha, hb, hcode, h⟩ := binary_iff.mp h
    obtain ⟨a', b', code', ha', hb', hcode', h'⟩ := binary_iff.mp h'
    obtain rfl := ha.unique ha'
    obtain rfl := hb.unique hb'
    cases hcode.symm.trans hcode'
    exact h.unique h'
  | compare =>
    obtain ⟨a, b, code, ha, hb, hcode, h⟩ := compare_iff.mp h
    obtain ⟨a', b', code', ha', hb', hcode', h'⟩ := compare_iff.mp h'
    obtain rfl := ha.unique ha'
    obtain rfl := hb.unique hb'
    cases hcode.symm.trans hcode'
    exact h.unique h'
  | _ => cases hmath

end Lowers

end Dxil
