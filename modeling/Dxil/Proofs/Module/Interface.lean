import Dxil.Module.EntryPoint
import Dxil.Module.Interface
import Dxil.Module.Resources
import Dxil.Proofs.Module.Globals
import Dxil.Proofs.Module.Metadata

/-!
# Dxil.Proofs.Module.Interface

What a shader says about itself in metadata: signatures, properties and resources. All of it becomes
declarations.

* `Ensures.propertyDecodeAll`, `Ensures.descriptorDecodeAll` : reading a closed table.
* `SignatureElement.atRow?_param` : the register of an element has a place for its row.
* `Ensures.declareOutputs`, `Ensures.declareInputs` : one declaration for each element.
-/

namespace Dxil

theorem RegisterRange.first_le_of_last? {first count last : UInt32}
    (h : RegisterRange.last? first count = some last) : first ≤ last := by
  unfold RegisterRange.last? at h
  by_cases hall : count = 0xffffffff
  · rw [if_pos hall] at h
    cases h
    exact Nat.le_of_lt_succ first.toNat_lt
  · by_cases hnone : count = 0
    · rw [if_neg hall, if_pos hnone] at h
      cases h
    · by_cases hfits : first.toNat + (count.toNat - 1) < UInt32.size
      · rw [if_neg hall, if_neg hnone, if_pos hfits] at h
        cases h
        have hpos : (1 : UInt32) ≤ count := by
          rw [UInt32.le_iff_toNat_le]
          exact Nat.pos_of_ne_zero fun hzero => hnone (UInt32.toNat_inj.mp hzero)
        have hlast : (first + (count - 1)).toNat = first.toNat + (count.toNat - 1) := by
          rw [UInt32.toNat_add, UInt32.toNat_sub_of_le _ _ hpos]
          exact Nat.mod_eq_of_lt hfits
        rw [UInt32.le_iff_toNat_le, hlast]
        exact Nat.le_add_right _ _
      · rw [if_neg hall, if_neg hnone, if_neg hfits] at h
        cases h

namespace Ensures

variable {E : GivesUp} {m : MetadataScope}

/-! ## Properties -/

section

variable (hm : m.Closed)
include hm

theorem propertyDimension (i : Nat) (most : UInt32) (slot : Option Nat) :
    Ensures E (Property.dimension m i most slot) fun _ => True := by
  refine (requireUint hm slot rfl).bind fun size _ => ?_
  split
  · exact .reject rfl
  · exact .pure trivial

theorem decodeThreadGroup (type : ShaderType) (slot : Option Nat) :
    Ensures E (Property.decodeThreadGroup m type slot) fun _ => True := by
  refine (rejectIf rfl).bind fun _ _ => (orReject rfl).bind fun sizes _ => ?_
  split
  · exact (propertyDimension hm 0 1024 _).bind fun _ _ =>
      (propertyDimension hm 1 1024 _).bind fun _ _ =>
      (propertyDimension hm 2 64 _).bind fun _ _ => .pure trivial
  · exact .reject rfl

theorem propertyDecode (type : ShaderType) (tag : UInt32) (value : Option Nat) :
    Ensures E (Property.decode m type tag value) fun _ => True := by
  unfold Property.decode
  split
  · exact (metadataUint64 hm value).bind fun _ _ => (orReject rfl).bind fun _ _ => .pure trivial
  · exact (decodeThreadGroup hm type value).map fun _ _ => trivial
  · exact (report _).bind fun _ _ => .pure trivial

theorem propertyDecodePairs (type : ShaderType) (pairs : List (Option Nat)) :
    Ensures E (Property.decodePairs m type pairs) fun _ => True := by
  fun_induction Property.decodePairs m type pairs with
  | case1 tag value rest ih =>
    exact (requireUint hm tag rfl).bind fun tag _ => (propertyDecode hm type tag value).bind
      fun _ _ => ih.bind fun _ _ => .pure trivial
  | case2 => exact .pure trivial

theorem propertyDecodeAll (type : ShaderType) (slot : Option Nat) :
    Ensures E (Property.decodeAll m type slot) fun _ => True := by
  unfold Property.decodeAll
  split
  · exact .pure trivial
  · exact (orReject rfl).bind fun _ _ => (reportIf _ _).bind fun _ _ =>
      propertyDecodePairs hm type _

end

/-! ## Resources -/

section

variable (hm : m.Closed)
include hm

theorem descriptorRange (id : UInt32) (space first count : Option Nat) :
    Ensures E (Descriptor.decodeRange m id space first count) fun range =>
      range.first ≤ range.last := by
  refine (metadataUint hm space).bind fun _ _ => (metadataUint hm first).bind fun _ _ =>
    (metadataUint hm count).bind fun _ _ => ?_
  split
  · exact (orReject rfl).bind fun _ hlast => .pure (RegisterRange.first_le_of_last? hlast)
  · exact .reject rfl

theorem descriptorOfNode (type : DescriptorType) (operands : List (Option Nat)) :
    Ensures E (Descriptor.ofNode m type operands) fun d =>
      d.range.first ≤ d.range.last := by
  unfold Descriptor.ofNode
  split
  · refine (requireUint hm _ rfl).bind fun id _ => (descriptorRange hm id _ _ _).bind
      fun _ hrange => ?_
    split
    · exact .reject rfl
    · exact (requireUint hm _ rfl).bind fun _ _ => .pure hrange
    · exact .reject rfl
  · exact .reject rfl

theorem descriptorDecodeList (type : DescriptorType) (slot : Option Nat) :
    Ensures E (Descriptor.decodeList m type slot) fun ds =>
      ∀ d ∈ ds, d.range.first ≤ d.range.last := by
  unfold Descriptor.decodeList
  split
  · exact .pure (by simp)
  · exact (orReject rfl).bind fun entries _ => mapM_all fun slot _ =>
      (orReject rfl).bind fun _ _ => descriptorOfNode hm type _

end

theorem descriptorDecodeAll {types : TypeTable} {values : Values} {tables : List MetadataTable}
    (h : ∀ t ∈ tables, t.Closed types values) :
    Ensures E (Descriptor.decodeAll types values tables) fun ds =>
      ∀ d ∈ ds, d.range.first ≤ d.range.last := by
  unfold Descriptor.decodeAll
  split
  · exact .pure (by simp)
  · rename_i table roots hfind
    have hm : MetadataScope.Closed { types, values, table } := h table (mem_of_findNamed? hfind)
    refine (orReject rfl).bind fun lists _ => ?_
    split
    · refine (descriptorDecodeList hm .srv _).bind fun _ hsrvs =>
        (descriptorDecodeList hm .uav _).bind fun _ huavs =>
        (descriptorDecodeList hm .cbv _).bind fun _ hcbvs =>
        (descriptorDecodeList hm .sampler _).bind fun _ hsamplers => .pure fun d hd => ?_
      simp only [List.mem_append] at hd
      rcases hd with ((hd | hd) | hd) | hd
      · exact hsrvs d hd
      · exact huavs d hd
      · exact hcbvs d hd
      · exact hsamplers d hd
    · exact .reject rfl

end Ensures

/-! ## Declarations -/

theorem Property.declaresProperty (location : Location) (p : Property) :
    (p.declare location).DeclaresProperty := by
  cases p with
  | flags flags => exact ⟨⟨rfl, rfl⟩, .inl ⟨rfl, flags, rfl⟩⟩
  | threadGroup x y z => exact ⟨⟨rfl, rfl⟩, .inr ⟨rfl, x, y, z, rfl⟩⟩

theorem Descriptor.declaresBuffer (location : Location) {d : Descriptor}
    (h : d.range.first ≤ d.range.last) :
    (d.declare location).DeclaresBuffer d :=
  ⟨rfl, ⟨rfl, rfl⟩, ⟨_, rfl, rfl, rfl⟩, h⟩

theorem Descriptor.declareEach (location : Location) {ds : List Descriptor}
    (h : ∀ d ∈ ds, d.range.first ≤ d.range.last) :
    DeclareEach (fun _ => Instruction.DeclaresBuffer) ds
      (ds.map (Descriptor.declare location)) := by
  refine ⟨List.length_map _, fun k d i hd hi => ?_⟩
  rw [List.getElem?_map, hd] at hi
  cases hi
  exact d.declaresBuffer location (h d (List.mem_of_getElem? hd))

def RegisterType.isSignature : RegisterType → Bool
  | input | output | colorOut => true
  | _ => false

theorem RegisterType.ne_ssa_of_isSignature {type : RegisterType} (h : type.isSignature = true) :
    type ≠ .ssa := by
  rintro rfl
  cases h

theorem RegisterType.ne_invalid_of_isSignature {type : RegisterType} (h : type.isSignature = true) :
    type ≠ .invalid := by
  rintro rfl
  cases h

theorem ShaderType.isSignature_outputRegister (type : ShaderType) :
    type.outputRegister.isSignature = true := by
  cases type <;> rfl

/-- The register of an element with its row in front, where it has one. -/
theorem SignatureElement.atRow?_param (e : SignatureElement) (type : RegisterType) (i : Nat)
    (row : RegisterIndex) :
    e.atRow? (e.param type i).register row = some { e.register type i with
      indices := (if e.isArray then [row] else []) ++ [{ offset := UInt32.ofNat i }] } := by
  by_cases h : e.isArray
  · have hlt : 0 < (e.param type i).register.indices.length := by simp [param, register, h]
    rw [atRow?, if_pos h, Register.setIndex?_of_lt row hlt]
    simp [param, register, h]
  · simp [atRow?, param, register, h]

theorem Signature.getElem?_params {s : Signature} {i : Nat} {e : SignatureElement}
    (h : s[i]? = some e) (type : RegisterType) : (s.params type)[i]? = some (e.param type i) := by
  rw [Signature.params, List.getElem?_mapIdx, h]
  rfl

namespace Ensures

variable {E : GivesUp}

theorem declaration (e : SignatureElement) (type : RegisterType) (i : Nat)
    (interpolation : Option InterpolationMode) :
    Ensures E (e.declaration (e.param type i) interpolation) fun d =>
      ∃ dst, d.param? = some dst ∧ dst.mask = e.mask ∧ dst.register.type = type ∧
        dst.register.indices = (if e.isArray then [{ offset := e.registerCount }] else []) ++
          [{ offset := UInt32.ofNat i }] := by
  refine (present ⟨_, e.atRow?_param type i _⟩).bind fun register hregister => .pure ?_
  rw [e.atRow?_param] at hregister
  cases hregister
  split
  · exact ⟨_, rfl, rfl, rfl, rfl⟩
  · exact ⟨_, rfl, rfl, rfl, rfl⟩

theorem declareElements {s : Signature} {type : RegisterType} {opcode : Bool → Opcode}
    {f : SignatureElement × DstParam → Decoder Instruction}
    (h : ∀ (e : SignatureElement) (k : Nat),
      Ensures E (f (e, e.param type k)) (Instruction.DeclaresElement type opcode k e)) :
    Ensures E ((s.zip (s.params type)).mapM f)
      (DeclareEach (Instruction.DeclaresElement type opcode) s) := by
  have hzip : ∀ (k : Nat) (e : SignatureElement), s[k]? = some e →
      (s.zip (s.params type))[k]? = some (e, e.param type k) := fun k e he =>
    List.getElem?_zip_eq_some.mpr ⟨he, Signature.getElem?_params he type⟩
  have hlength : (s.zip (s.params type)).length = s.length := by simp [Signature.params]
  have heach : ∀ (k : Nat) (a : SignatureElement × DstParam), (s.zip (s.params type))[k]? = some a →
      Ensures E (f a) (Instruction.DeclaresElement type opcode k a.1) := by
    rintro k ⟨e, param⟩ ha
    obtain ⟨he, -⟩ := List.getElem?_zip_eq_some.mp ha
    rw [hzip k e he] at ha
    cases ha
    exact h e k
  exact (mapM_inOrder heach).mono fun is ⟨his, hdeclares⟩ =>
    ⟨his.trans hlength, fun k e i he hi => hdeclares k _ i (hzip k e he) hi⟩

theorem declareOutputs (location : Location) (s : Signature) (type : RegisterType) :
    Ensures E (s.declareOutputs location (s.params type))
      (DeclareEach (Instruction.DeclaresElement type .ofOutput) s) := by
  refine declareElements fun e k => (declaration e type k none).bind fun d ⟨dst, hdst⟩ => .pure ?_
  exact ⟨rfl, ⟨rfl, rfl⟩, d, dst, rfl, hdst⟩

theorem declareInputs (shader : ShaderType) (location : Location) (s : Signature)
    (type : RegisterType) :
    Ensures E (s.declareInputs shader location (s.params type))
      (DeclareEach (Instruction.DeclaresElement type (.ofInput (shader = .pixel))) s) := by
  refine declareElements fun e k => ?_
  simp only [SignatureElement.declareInput]
  by_cases hpixel : shader = .pixel
  · rw [if_pos hpixel]
    refine (declaration e type k _).bind fun d ⟨dst, hdst⟩ => .pure ?_
    refine ⟨?_, ⟨rfl, rfl⟩, d, dst, rfl, hdst⟩
    cases e.isSystemValue <;> simp [hpixel, Opcode.ofInput]
  · rw [if_neg hpixel]
    refine (declaration e type k none).bind fun d ⟨dst, hdst⟩ => .pure ?_
    refine ⟨?_, ⟨rfl, rfl⟩, d, dst, rfl, hdst⟩
    cases e.isSystemValue <;> simp [hpixel, Opcode.ofInput]

end Ensures

end Dxil
