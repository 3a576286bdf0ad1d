import Dxil.Proofs.Function.Emission
import Dxil.Proofs.SignatureAccess

/-!
# Dxil.Proofs.Swizzles

Which components the operands of a program read.

* `Swizzle.InRange` : the four numbers of a swizzle are numbers of components.
* `Swizzle.broadcast_inRange_iff` : when the same number in every place is in range.
* `TakesMember` : a record takes a member out of a value, by its number.
* `Lowers.swizzles` : all other records read components that a vector has.
* `parse_swizzles` : a swizzle is out of range exactly if it is that of a member with a number that
  no component has.
-/

namespace Dxil

/-! ## Packed components -/

/-- Each of the four components is one that a vector has. -/
def Swizzle.InRange (s : Swizzle) : Prop := ∀ i < vec4Size, (s.component i).toNat < vec4Size

instance (s : Swizzle) : Decidable s.InRange :=
  inferInstanceAs (Decidable (∀ i < vec4Size, (s.component i).toNat < vec4Size))

namespace Swizzle

variable {s : Swizzle} {c : UInt32}

theorem testBit_component {i : Nat} (hi : i < vec4Size) (j : Nat) :
    (s.component i).toNat.testBit j = (s.packed.toNat.testBit (8 * i + j) && decide (j < 8)) := by
  have hmask : (0xff : UInt32).toNat = 2 ^ 8 - 1 := rfl
  have hshift : 8 * i % 4294967296 % 32 = 8 * i := by
    unfold vec4Size at hi
    omega
  simp only [component, UInt32.toNat_and, UInt32.toNat_shiftRight, UInt32.toNat_ofNat',
    Nat.testBit_and, Nat.testBit_shiftRight, hmask, Nat.testBit_two_pow_sub_one, hshift]

theorem inRange_iff_testBit : s.InRange ↔
    ∀ i < vec4Size, ∀ j, 2 ≤ j → j < 8 → s.packed.toNat.testBit (8 * i + j) = false := by
  constructor
  · intro h i hi j hj hlt
    have hbit := Nat.testBit_lt_two_pow (Nat.lt_of_lt_of_le (h i hi)
      (Nat.pow_le_pow_right (by decide) hj : 2 ^ 2 ≤ 2 ^ j))
    rw [testBit_component hi, decide_eq_true hlt, Bool.and_true] at hbit
    exact hbit
  · intro h i hi
    refine Nat.lt_pow_two_of_testBit (n := 2) _ fun j hj => ?_
    rw [testBit_component hi]
    by_cases hlt : j < 8
    · rw [h i hi j hj hlt, Bool.false_and]
    · rw [decide_eq_false hlt, Bool.and_false]

theorem testBit_broadcast {j : Nat} (hj : j < 32) :
    (broadcast c).packed.toNat.testBit j =
      (c.toNat.testBit j || (decide (8 ≤ j) && c.toNat.testBit (j - 8)) ||
        (decide (16 ≤ j) && c.toNat.testBit (j - 16)) ||
        (decide (24 ≤ j) && c.toNat.testBit (j - 24))) := by
  have hword (n : Nat) : (n % 4294967296).testBit j = n.testBit j := by
    have hmod := Nat.testBit_mod_two_pow n 32 j
    rwa [decide_eq_true hj, Bool.true_and] at hmod
  simp [broadcast, ofComponents, Nat.testBit_or, Nat.testBit_shiftLeft, hword]

/-- The bytes of the number are put on top of each other, so each of them has to be in range. -/
theorem broadcast_inRange_iff : (broadcast c).InRange ↔ InRange ⟨c⟩ := by
  rw [inRange_iff_testBit, inRange_iff_testBit]
  have hplace {i j : Nat} (hi : i < vec4Size) (hlt : j < 8) : 8 * i + j < 32 := by
    unfold vec4Size at hi
    omega
  constructor
  · intro h i hi j hj hlt
    have hbit := h i hi j hj hlt
    rw [testBit_broadcast (hplace hi hlt)] at hbit
    simp only [Bool.or_eq_false_iff] at hbit
    exact hbit.1.1.1
  · intro h i hi j hj hlt
    -- The byte that comes to stand `k` bytes higher.
    have hbyte (k : Nat) :
        (decide (8 * k ≤ 8 * i + j) && c.toNat.testBit (8 * i + j - 8 * k)) = false := by
      by_cases hle : k ≤ i
      · have hsub : 8 * i + j - 8 * k = 8 * (i - k) + j := by omega
        rw [hsub, h (i - k) (by omega) j hj hlt, Bool.and_false]
      · rw [decide_eq_false (by omega), Bool.false_and]
    rw [testBit_broadcast (hplace hi hlt), h i hi j hj hlt, hbyte 1, hbyte 2, hbyte 3]
    rfl

theorem broadcast_inRange_of_lt (hc : c.toNat < vec4Size) : (broadcast c).InRange := by
  intro i hi
  rw [component_broadcast hc hi]
  exact hc

end Swizzle

theorem SrcParam.inRange_ofRegister (r : Register) : (ofRegister r).swizzle.InRange := by
  unfold ofRegister
  cases r.dimension with
  | vec4 => exact (by decide : Swizzle.identity.InRange)
  | _ => exact (by decide : Swizzle.xxxx.InRange)

theorem Value.inRange_source (v : Value) : v.source.swizzle.InRange := by
  unfold source
  cases v.kind <;> exact SrcParam.inRange_ofRegister _

/-! ## Addresses -/

/-- The sources that the indices of the register are relative to read components in range. -/
def Register.AddressesInRange (m : Register) : Prop :=
  ∀ index ∈ m.indices, ∀ src, index.relative = some src → src.swizzle.InRange

theorem Index.IsAddress.inRange {index : RegisterIndex} (h : index.IsAddress) {src : SrcParam}
    (hsrc : index.relative = some src) : src.swizzle.InRange := by
  obtain ⟨v, hv⟩ := h
  rw [hv] at hsrc
  unfold RegisterIndex.ofAddress at hsrc
  cases hconstant : v.constantUint? with
  | some offset => simp [hconstant] at hsrc
  | none =>
    simp only [hconstant] at hsrc
    by_cases hregister : (v.isRegister && !v.isUndef) = true
    · simp only [hregister, if_true, Option.some.injEq] at hsrc
      rw [← hsrc]
      exact v.inRange_source
    · simp [hregister] at hsrc

theorem Register.addressesInRange_of_fixed {m : Register}
    (h : ∀ index ∈ m.indices, index.relative = none) : m.AddressesInRange := by
  intro index hindex src hsrc
  rw [h index hindex] at hsrc
  cases hsrc

theorem Lasting.addressesInRange : Lasting Register.AddressesInRange := by
  refine ⟨fun {a b} h _ hindices => ?_, fun {a index} h haddress _ => ?_,
    fun {a index} h haddress => ?_⟩
  · unfold Register.AddressesInRange
    rw [hindices]
    exact h
  · intro i hi src hsrc
    rcases List.mem_cons.mp hi with rfl | hi
    · cases hindices : a.indices with
      | nil => simp [hindices, RegisterIndex.zero] at hsrc
      | cons first rest => exact h first (by simp [hindices]) src (by simpa [hindices] using hsrc)
    · obtain rfl := List.mem_singleton.mp hi
      exact haddress.inRange hsrc
  · intro i hi src hsrc
    rcases List.mem_or_eq_of_mem_set hi with hi | rfl
    · exact h i hi src hsrc
    · exact haddress.inRange hsrc

theorem Register.Static.addressesInRange {temps : Nat} {m : Register} (h : m.Static temps) :
    m.All AddressesInRange := by
  have hfixed : ∀ index ∈ m.indices, index.relative = none := by
    cases h with
    | constant constant => simp [constant.indices]
    | temp _ _ _ _ _ _ fixed => exact fixed
  exact all_of_fixed (addressesInRange_of_fixed hfixed) hfixed

theorem FunctionBody.Keeps.addressesInRange {scope : FunctionScope} {values : Values}
    {records : List Record} {temps arrays : Nat}
    (hv : ∀ v ∈ values, v.Static scope.types temps arrays) :
    Keeps scope values records Register.AddressesInRange := by
  refine ⟨.addressesInRange, fun v hmem => ?_,
    fun m _ hfixed => Register.addressesInRange_of_fixed hfixed,
    fun r s id index nonUniform _ _ => ?_⟩
  · exact ⟨fun r hr => ((hv v hmem).register r hr).addressesInRange,
      fun r hr => absurd hr ((hv v hmem).handle r)⟩
  · intro i hi src hsrc
    simp only [Register.constantBuffer, List.mem_cons, List.not_mem_nil, or_false] at hi
    rcases hi with rfl | rfl | rfl
    · cases hsrc
    · exact (Index.isAddress_ofAddress index).inRange hsrc
    · cases hsrc

theorem Register.forall_addresses_inRange {m : Register}
    (h : ∀ index ∈ m.indices, index.All AddressesInRange) (hself : m.AddressesInRange) :
    ∀ src ∈ m.addresses, src.swizzle.InRange := by
  intro src hsrc
  obtain ⟨m', hm', index, hindex, hrelative⟩ := m.exists_of_mem_addresses src hsrc
  exact Register.all_iff.mpr ⟨hself, h⟩ m' hm' index hindex src hrelative

/-! ## Sources -/

/-- A record takes the member with number `index` out of a value, and the source reads the component
with this number of the register that holds the value. -/
structure TakesMember (scope : FunctionScope) (values : Values) (r : Record) (index : UInt64)
    (src : SrcParam) : Prop where
  code : FunctionCode.ofNat? r.code.toNat = some .extract
  operand : r.operands[1]? = some index
  aggregate : ∃ v type, Refers scope values r 0 v ∧ v.kind = .register src.register ∧
    v.type.bind scope.types.get? = some type ∧ (type.member? index.toNat).isSome
  swizzle : src.swizzle = .broadcast index.toUInt32

def Lowered.Reads (φ : SrcParam → Prop) : Lowered → Prop
  | .value _ => True
  | .operation op => ∀ src ∈ op.src, φ src
  | .store _ src _ => φ src

variable {scope : FunctionScope} {values : Values} {r : Record}

/-- Members apart, a result reads registers as they are, in an order of components that is fixed, or
in the column of an input. -/
theorem Lowers.swizzles {code : FunctionCode} {l : Lowered} (h : Lowers scope values r code l)
    (hcode : FunctionCode.ofNat? r.code.toNat = some code) :
    l.Reads fun src => src.swizzle.InRange ∨ ∃ index, TakesMember scope values r index src := by
  cases h with
  | pointerCast | keep | gep | createHandle => trivial
  | @binary a b _ _ op =>
    simp only [Lowered.Reads, BinaryOp.operation, List.mem_cons, List.not_mem_nil, or_false]
    rintro src (rfl | rfl)
    · exact .inl a.inRange_source
    · by_cases hsub : op = .sub
      · rw [if_pos hsub]
        exact .inl b.inRange_source
      · rw [if_neg hsub]
        exact .inl b.inRange_source
  | @convert _ register _ _ _ _ _ opcode =>
    intro src hsrc
    obtain rfl := List.mem_singleton.mp hsrc
    unfold castSource
    by_cases hmov : opcode = .mov
    · rw [if_pos hmov]
      exact .inl (SrcParam.inRange_ofRegister register)
    · rw [if_neg hmov]
      exact .inl (SrcParam.inRange_ofRegister register)
  | @comparison a b _ _ _ _ swapped =>
    intro src hsrc
    have hmem : src = a.source ∨ src = b.source := by
      cases swapped <;> simpa [Predicate.operation, or_comm] using hsrc
    rcases hmem with rfl | rfl
    · exact .inl a.inRange_source
    · exact .inl b.inRange_source
  | extract hv hregister htype _ hindex hmember =>
    intro src hsrc
    obtain rfl := List.mem_singleton.mp hsrc
    exact .inr ⟨_, hcode, hindex, ⟨_, _, hv, hregister, htype, by simp [hmember]⟩, rfl⟩
  | select =>
    simp only [Lowered.Reads, List.mem_cons, List.not_mem_nil, or_false]
    rintro src (rfl | rfl | rfl) <;> exact .inl (SrcParam.inRange_ofRegister _)
  | @load _ register =>
    intro src hsrc
    obtain rfl := List.mem_singleton.mp hsrc
    exact .inl (SrcParam.inRange_ofRegister register)
  | @loadConstantBuffer _ _ _ register scalar =>
    intro src hsrc
    obtain rfl := List.mem_singleton.mp hsrc
    by_cases hwide : (scalar.elim register.data Ty.dataType).is64Bit = true
    · simp only [hwide, if_true]
      exact .inl (by decide)
    · simp only [hwide]
      exact .inl (by decide)
  | loadInput _ _ _ _ hcolumn =>
    intro src hsrc
    obtain rfl := List.mem_singleton.mp hsrc
    exact .inl (Swizzle.broadcast_inRange_of_lt hcolumn)
  | storeOutput => exact .inl (SrcParam.inRange_ofRegister _)

theorem BodyState.Steps.swizzles {s s' : BodyState} {i : Instruction} (h : s.Steps scope r s')
    (hi : s'.instructions = s.instructions.push i) :
    ∀ src ∈ i.src, src.swizzle.InRange ∨ ∃ index, TakesMember scope s.values r index src := by
  have hsize : s'.instructions.size = s.instructions.size + 1 := by
    rw [hi, Array.size_push]
  cases h with
  | ret => simp at hsize
  | value | undefined => simp [instructions_define] at hsize
  | operation hcode hl =>
    obtain ⟨rfl, -⟩ := Array.push_eq_push.mp hi
    exact hl.swizzles hcode
  | store hcode hl =>
    obtain ⟨rfl, -⟩ := Array.push_eq_push.mp hi
    intro src hsrc
    obtain rfl := List.mem_singleton.mp hsrc
    exact hl.swizzles hcode

theorem Accesses.addressesInRange {sig : Signature} {params : List DstParam}
    {element row column : Value} {e : SignatureElement} {m : Register}
    (h : Accesses sig params element row column e m) {type : RegisterType}
    (hparams : params = sig.params type) : m.AddressesInRange := by
  intro index hindex src hsrc
  rw [(h.register_eq hparams).2, List.mem_append] at hindex
  rcases hindex with hindex | hindex
  · by_cases harray : e.isArray = true
    · rw [if_pos harray, List.mem_singleton] at hindex
      rw [hindex] at hsrc
      exact (Index.isAddress_ofAddress row).inRange hsrc
    · rw [if_neg harray] at hindex
      cases hindex
  · rw [List.mem_singleton.mp hindex] at hsrc
    cases hsrc

theorem BodyState.Emits.inRange_addresses {s : BodyState} {i : Instruction}
    (h : s.Emits scope r i) (hs : scope.Sound) {temps arrays : Nat}
    (hv : ∀ v ∈ values, v.Static scope.types temps arrays) {records : List Record}
    (hcomes : FunctionBody.ComesTo scope values records r s) :
    ∀ m ∈ i.src.map Source.register ++ i.dst.map DstParam.register,
      ∀ src ∈ m.addresses, src.swizzle.InRange := by
  obtain ⟨_, -, hinputs⟩ := hs.inputParams
  obtain ⟨_, -, houtputs⟩ := hs.outputParams
  have hkeeps : FunctionBody.Keeps scope values records Register.AddressesInRange :=
    .addressesInRange hv
  intro m hm
  refine Register.forall_addresses_inRange (h.all_index hs hv hcomes hkeeps m hm) ?_
  rcases List.mem_append.mp hm with hm | hm
  · obtain ⟨src, hsrc, rfl⟩ := List.mem_map.mp hm
    rcases h.all_src hs hv hcomes hkeeps src hsrc with hsource | ⟨_, _, _, _, hreads⟩
    · exact (Register.all_iff.mp hsource).1
    · exact hreads.access.addressesInRange hinputs
  · obtain ⟨dst, hdst, rfl⟩ := List.mem_map.mp hm
    rcases h.dst dst hdst with ⟨-, hfixed⟩ | ⟨_, _, _, _, hwrites⟩
    · exact Register.addressesInRange_of_fixed hfixed
    · exact hwrites.access.addressesInRange houtputs

/-! ## Programs -/

/-- The source in the declaration of a buffer. -/
def Declaration.sources : Declaration → List SrcParam
  | constantBuffer src _ _ => [src]
  | register _ _ | registerSemantic _ _ _ | globalFlags _ | threadGroupSize _ _ _
  | indexableTemp _ => []

/-- What an instruction reads besides its sources: what it declares, and what the indices of its
registers are relative to. -/
def Instruction.furtherSources (i : Instruction) : List SrcParam :=
  i.declaration.elim [] Declaration.sources ++
    (i.src.map Source.register ++ i.dst.map DstParam.register ++
      i.declaration.elim [] Declaration.registers).flatMap Register.addresses

def Bitcode.TakesMember (bitcode : Bitcode) (scope : FunctionScope) (pool : ConstantPool)
    (index : UInt64) (src : SrcParam) : Prop :=
  ∃ values b r s, Functions.MeetsBody scope 0 { pool } bitcode.root values b ∧
    FunctionBody.ComesTo scope values b.records.tail r s ∧
    Dxil.TakesMember scope s.values r index src

theorem Layout.Describes.inRange {l : Layout} {p : Program} (h : l.Describes p)
    {location : Location} {ds : List Descriptor}
    (hbuffers : l.buffers = ds.map (Descriptor.declare location)) :
    ∀ i ∈ l.declarations, ∀ src ∈ i.furtherSources, src.swizzle.InRange := by
  have hnone {i : Instruction} {d : Declaration} (hd : i.declaration = some d)
      (hsources : d.sources = []) :
      ∀ src ∈ i.declaration.elim [] Declaration.sources, src.swizzle.InRange := by
    simp [hd, hsources]
  have hparam {type : RegisterType} {opcode : Bool → Opcode} {k : Nat} {e : SignatureElement}
      {i : Instruction} (he : i.DeclaresElement type opcode k e) :
      ∀ src ∈ i.declaration.elim [] Declaration.sources, src.swizzle.InRange := by
    obtain ⟨d, dst, hd, hdst, -⟩ := he.declares
    refine hnone hd ?_
    cases d with
    | constantBuffer => cases hdst
    | _ => rfl
  intro i hi src hsrc
  have hdeclaration := h.isDeclaration i hi
  rcases List.mem_append.mp hsrc with hsrc | hsrc
  · simp only [declarations, List.mem_append] at hi
    rcases hi with (((hi | hi) | hi) | hi) | hi
    · obtain ⟨k, hk⟩ := List.mem_iff_getElem?.mp hi
      obtain ⟨temp, htemp, -⟩ := (h.temps k i hk).declares
      exact hnone htemp rfl src hsrc
    · rcases (h.properties i hi).declares with ⟨-, flags, hd⟩ | ⟨-, x, y, z, hd⟩
      · exact hnone hd rfl src hsrc
      · exact hnone hd rfl src hsrc
    · rw [hbuffers] at hi
      obtain ⟨d, -, rfl⟩ := List.mem_map.mp hi
      obtain rfl := List.mem_singleton.mp hsrc
      exact SrcParam.inRange_ofRegister d.register
    · obtain ⟨_, e, he⟩ := h.outputs.exists_of_mem hi
      exact hparam he src hsrc
    · obtain ⟨_, e, he⟩ := h.inputs.exists_of_mem hi
      exact hparam he src hsrc
  · -- The registers of a declaration have no addresses.
    obtain ⟨d, hd, hregisters⟩ := hdeclaration.declares
    rw [hdeclaration.src, hdeclaration.dst, hd] at hsrc
    obtain ⟨m, hm, hsrc⟩ := List.mem_flatMap.mp hsrc
    have hfixed := (hregisters m hm).indices
    exact Register.forall_addresses_inRange
      (fun index hindex => Index.all_of_fixed (hfixed index hindex))
      (Register.addressesInRange_of_fixed hfixed) src hsrc

theorem Program.Assembled.swizzles {bitcode : Bitcode} {pool : ConstantPool}
    {body : FunctionBody} {program : Program}
    (h : program.Assembled program.version bitcode scope pool body) :
    ∀ i ∈ program.instructions, (∀ src ∈ i.furtherSources, src.swizzle.InRange) ∧
      ∀ src ∈ i.src, src.swizzle.InRange ∨ ∃ index, bitcode.TakesMember scope pool index src := by
  obtain ⟨l, hdescribes, hbody, -, ⟨declared, hbuffers⟩, hsource⟩ := h.layout
  obtain ⟨location, hinstructions⟩ := hdescribes.instructions
  intro i hi
  rw [hinstructions, hbody, List.mem_append, List.mem_append, List.mem_singleton] at hi
  rcases hi with (hi | hi) | rfl
  · refine ⟨hdescribes.inRange hbuffers i hi, ?_⟩
    simp [(hdescribes.isDeclaration i hi).src]
  · rcases hsource with rfl | ⟨values, b, hmeets, hdecoded⟩
    · cases hi
    obtain ⟨arrays, hstatic⟩ := hdecoded.static
    obtain ⟨r, s, s', hcomes, hstep, hpush⟩ := hdecoded.pushed h.sound hi
    have hemits := hstep.emits hpush
    refine ⟨fun src hsrc => ?_, fun src hsrc => ?_⟩
    · simp only [Instruction.furtherSources, hemits.declaration, Option.elim_none, List.nil_append,
        List.append_nil] at hsrc
      obtain ⟨m, hm, hsrc⟩ := List.mem_flatMap.mp hsrc
      exact hemits.inRange_addresses h.sound hstatic hcomes m hm src hsrc
    · refine (hstep.swizzles hpush src hsrc).imp_right fun ⟨index, htakes⟩ => ?_
      exact ⟨index, values, b, r, s, hmeets, hcomes, htakes⟩
  · simp [Instruction.furtherSources]

/-- Addresses and declarations read components that a vector has. So does every source, unless a
record takes a member out of a value, and the number of the member has a byte that is no number of a
component. -/
theorem parse_swizzles {kind : SourceKind} {name : String} {bytes : List UInt8}
    {program : Program} (h : (parse kind name bytes).program = .ok program) :
    ∃ bitcode scope pool, kind.bitcode? bytes = some bitcode ∧
      Program.Prepares program.version bitcode scope pool ∧
      ∀ i ∈ program.instructions, (∀ src ∈ i.furtherSources, src.swizzle.InRange) ∧
        ∀ src ∈ i.src, ¬ src.swizzle.InRange ↔
          ∃ index, bitcode.TakesMember scope pool index src ∧
            ¬ Swizzle.InRange ⟨index.toUInt32⟩ := by
  obtain ⟨bitcode, scope, pool, body, hbitcode, hassembled⟩ := parse_assembled h
  refine ⟨bitcode, scope, pool, hbitcode, hassembled.prepared, fun i hi => ?_⟩
  obtain ⟨hfurther, hsources⟩ := hassembled.swizzles i hi
  refine ⟨hfurther, fun src hsrc => ⟨fun hout => ?_, ?_⟩⟩
  · obtain ⟨index, htakes⟩ := (hsources src hsrc).resolve_left hout
    refine ⟨index, htakes, fun hindex => hout ?_⟩
    obtain ⟨_, _, _, _, -, -, htakes⟩ := htakes
    rw [htakes.swizzle]
    exact Swizzle.broadcast_inRange_iff.mpr hindex
  · rintro ⟨index, ⟨_, _, _, _, -, -, htakes⟩, hindex⟩ hin
    rw [htakes.swizzle] at hin
    exact hindex (Swizzle.broadcast_inRange_iff.mp hin)

/-! ## A swizzle out of range -/

/-- A shader that loads a row of eight halves from a constant buffer, and takes the sixth. -/
def halvesShader : List UInt8 :=
  [0x60, 0x00, 0x00, 0x00, 0x5a, 0x00, 0x00, 0x00, 0x44, 0x58, 0x49, 0x4c, 0x00, 0x01, 0x00, 0x00,
   0x10, 0x00, 0x00, 0x00, 0x50, 0x01, 0x00, 0x00, 0x42, 0x43, 0xc0, 0xde, 0x21, 0x0c, 0x00, 0x00,
   0x51, 0x00, 0x00, 0x00, 0x89, 0x20, 0x00, 0x00, 0x16, 0x00, 0x00, 0x00, 0x13, 0x04, 0xce, 0x08,
   0xc0, 0x1c, 0x01, 0x18, 0xcc, 0x11, 0x20, 0x73, 0x04, 0xc1, 0x28, 0xc0, 0x20, 0x82, 0x00, 0xcc,
   0xf4, 0x90, 0x03, 0x3e, 0xb8, 0x01, 0x3d, 0xe4, 0x03, 0x3c, 0x94, 0xc3, 0x3c, 0xb8, 0x01, 0x2a,
   0x84, 0x83, 0x3b, 0x90, 0x03, 0x3b, 0x94, 0xc3, 0x50, 0x02, 0x50, 0xcc, 0x14, 0xc8, 0xc3, 0x50,
   0x09, 0x40, 0x10, 0x04, 0x41, 0x10, 0x04, 0x31, 0x95, 0x00, 0x00, 0x83, 0x08, 0x08, 0x30, 0xd5,
   0x01, 0x18, 0x81, 0x10, 0x04, 0xc3, 0x20, 0x82, 0x02, 0x4c, 0x55, 0x00, 0x47, 0x60, 0x04, 0x83,
   0x08, 0x0c, 0x00, 0x00, 0x0b, 0x82, 0x60, 0x08, 0x82, 0x00, 0x00, 0x00, 0x00, 0x00, 0x30, 0x04,
   0x51, 0x80, 0x00, 0x00, 0x00, 0x00, 0x18, 0x82, 0x30, 0x40, 0x00, 0x00, 0x00, 0x00, 0x64, 0x81,
   0x00, 0x00, 0x00, 0x00, 0x08, 0x00, 0x00, 0x00, 0x13, 0x04, 0xc1, 0x10, 0x01, 0x30, 0x44, 0x20,
   0x0c, 0x11, 0x80, 0xc1, 0x10, 0x81, 0x3c, 0x0c, 0x11, 0xd8, 0xc3, 0x04, 0x81, 0x30, 0x44, 0x40,
   0x4c, 0x10, 0x0c, 0x43, 0x04, 0x00, 0x00, 0x00, 0x79, 0x20, 0x00, 0x00, 0x16, 0x00, 0x00, 0x00,
   0x23, 0x08, 0xc1, 0x30, 0x82, 0x10, 0x10, 0x23, 0x08, 0x41, 0x31, 0xc3, 0x11, 0x00, 0x40, 0x10,
   0x08, 0xc3, 0x0c, 0x01, 0x31, 0x03, 0x01, 0x00, 0x05, 0x30, 0x04, 0x43, 0x0e, 0xf8, 0xe0, 0x06,
   0xf2, 0x50, 0x0e, 0xf3, 0xf0, 0x0e, 0xf5, 0x20, 0x0f, 0xe3, 0x50, 0x0e, 0xf3, 0x30, 0x4a, 0x50,
   0x8c, 0x20, 0x24, 0xc0, 0x04, 0x81, 0x39, 0xcc, 0x50, 0x1c, 0x08, 0x00, 0x00, 0x43, 0x38, 0xe4,
   0x80, 0x0f, 0x6e, 0x50, 0x0e, 0xee, 0x40, 0x0f, 0xf2, 0x90, 0x0f, 0xb0, 0xf0, 0x0e, 0xe9, 0xe0,
   0x0e, 0xf4, 0x30, 0x0f, 0xa3, 0x04, 0x08, 0x00, 0x61, 0x20, 0x00, 0x00, 0x07, 0x00, 0x00, 0x00,
   0x13, 0x04, 0xc1, 0x88, 0x01, 0x02, 0x00, 0x09, 0x21, 0x1c, 0x47, 0x30, 0x62, 0x60, 0x00, 0x40,
   0x42, 0x04, 0xc8, 0x68, 0x42, 0x50, 0x8c, 0x02, 0x00, 0x00, 0x00, 0x00, 0x71, 0x20, 0x00, 0x00,
   0x04, 0x00, 0x00, 0x00, 0x13, 0x08, 0x80, 0x39, 0x4c, 0x20, 0x04, 0xe8, 0x30, 0x81, 0x20, 0xb0,
   0x03, 0x00, 0x00, 0x00, 0x00, 0x00, 0x00, 0x00]

theorem exists_swizzle_out_of_range :
    ∃ program, (parse .program "halves" halvesShader).program = .ok program ∧
      ∃ i ∈ program.instructions, ∃ src ∈ i.src, ¬ src.swizzle.InRange := by
  obtain ⟨program, hprogram, hfacts⟩ := exists_of_toOption_any
    (x := (parse .program "halves" halvesShader).program)
    (f := fun program =>
      program.instructions.any fun i => i.src.any fun src => !decide src.swizzle.InRange)
    (by decide +kernel)
  simp only [List.any_eq_true, Bool.not_eq_true', decide_eq_false_iff_not] at hfacts
  exact ⟨program, hprogram, hfacts⟩

/-- In the shader, the number of a member is no number of a component. -/
theorem parse_swizzles_halves :
    ∃ program, (parse .program "halves" halvesShader).program = .ok program ∧
      ∃ bitcode scope pool, SourceKind.program.bitcode? halvesShader = some bitcode ∧
        Program.Prepares program.version bitcode scope pool ∧
        (∀ i ∈ program.instructions, ∀ src ∈ i.furtherSources, src.swizzle.InRange) ∧
        ∃ i ∈ program.instructions, ∃ src ∈ i.src, ∃ index,
          bitcode.TakesMember scope pool index src ∧ ¬ Swizzle.InRange ⟨index.toUInt32⟩ := by
  obtain ⟨program, hprogram, i, hi, src, hsrc, hout⟩ := exists_swizzle_out_of_range
  obtain ⟨bitcode, scope, pool, hbitcode, hprepared, hswizzles⟩ := parse_swizzles hprogram
  exact ⟨program, hprogram, bitcode, scope, pool, hbitcode, hprepared,
    fun i hi => (hswizzles i hi).1, i, hi, src, hsrc, ((hswizzles i hi).2 src hsrc).mp hout⟩

/-- So not every source reads components that a vector has. -/
theorem parse_swizzle_not_always_inRange :
    ¬ ∀ (kind : SourceKind) (name : String) (bytes : List UInt8) (program : Program),
      (parse kind name bytes).program = .ok program →
        ∀ i ∈ program.instructions, ∀ src ∈ i.src ++ i.furtherSources, src.swizzle.InRange := by
  intro h
  obtain ⟨program, hprogram, i, hi, src, hsrc, hout⟩ := exists_swizzle_out_of_range
  exact hout (h _ _ _ program hprogram i hi src (List.mem_append_left _ hsrc))

end Dxil
