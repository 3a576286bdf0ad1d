import Dxil.Module.Interface
import Dxil.Proofs.Shader.SingleAssignment

/-!
# Dxil.Proofs.Shader.Layout

The order of the instructions in a program, and how its declarations agree with its tables.

* `Instruction.DeclaresTemp` and the like : what an instruction declares.
* `Instruction.Computes` : an instruction of a body.
* `Layout` : the parts of a program, in order.
* `Layout.Describes` : each part declares what the program lists, one for one.
-/

namespace Dxil

def Opcode.isDeclaration : Opcode → Bool
  | dclConstantBuffer | dclGlobalFlags | dclIndexableTemp | dclInput | dclInputPs | dclInputPsSiv
  | dclInputSiv | dclOutput | dclOutputSiv | dclThreadGroup => true
  | _ => false

/-- Declares nothing, does something and does not return. -/
def Opcode.Computes (o : Opcode) : Prop := o.isDeclaration = false ∧ o ≠ .nop ∧ o ≠ .ret

instance (o : Opcode) : Decidable o.Computes :=
  inferInstanceAs (Decidable (o.isDeclaration = false ∧ o ≠ .nop ∧ o ≠ .ret))

/-- The opcode that declares an output, which may be a system value. -/
def Opcode.ofOutput (isSystemValue : Bool) : Opcode :=
  if isSystemValue then dclOutputSiv else dclOutput

/-- The opcode that declares an input, of a pixel shader or another. -/
def Opcode.ofInput : (isPixel isSystemValue : Bool) → Opcode
  | true, true => dclInputPsSiv
  | true, false => dclInputPs
  | false, true => dclInputSiv
  | false, false => dclInput

def Declaration.param? : Declaration → Option DstParam
  | register dst _ | registerSemantic dst _ _ => some dst
  | _ => none

namespace Instruction

/-- Declares a register array, whose initial data is one of `arrays` constant arrays. -/
structure DeclaresTemp (arrays : Nat) (register : UInt32) (i : Instruction) : Prop where
  opcode : i.opcode = .dclIndexableTemp
  operands : i.dst = [] ∧ i.src = []
  declares : ∃ temp, i.declaration = some (.indexableTemp temp) ∧ temp.register = register ∧
    ∀ n, temp.initialiser = some n → n < arrays

structure DeclaresProperty (i : Instruction) : Prop where
  operands : i.dst = [] ∧ i.src = []
  declares :
    (i.opcode = .dclGlobalFlags ∧ ∃ flags, i.declaration = some (.globalFlags flags)) ∨
    (i.opcode = .dclThreadGroup ∧ ∃ x y z, i.declaration = some (.threadGroupSize x y z))

structure DeclaresBuffer (d : Descriptor) (i : Instruction) : Prop where
  opcode : i.opcode = .dclConstantBuffer
  operands : i.dst = [] ∧ i.src = []
  declares : ∃ src, i.declaration = some (.constantBuffer src d.bufferSize d.range) ∧
    src.register.type = .constBuffer ∧ src.register.indices =
      [{ offset := d.id }, { offset := d.range.first }, { offset := d.range.last }]
  range : d.range.first ≤ d.range.last

/-- Declares element number `k` of a signature in registers of a type. The opcode depends on whether
the element is a system value. -/
structure DeclaresElement (type : RegisterType) (opcode : Bool → Opcode) (k : Nat)
    (e : SignatureElement) (i : Instruction) : Prop where
  opcode : i.opcode = opcode e.isSystemValue
  operands : i.dst = [] ∧ i.src = []
  declares : ∃ d dst, i.declaration = some d ∧ d.param? = some dst ∧ dst.mask = e.mask ∧
    dst.register.type = type ∧ dst.register.indices =
      (if e.isArray then [{ offset := e.registerCount }] else []) ++ [{ offset := UInt32.ofNat k }]

structure Computes (i : Instruction) : Prop where
  declaration : i.declaration = none
  opcode : i.opcode.Computes

variable {i : Instruction}

theorem DeclaresTemp.isDeclaration {arrays : Nat} {register : UInt32}
    (h : i.DeclaresTemp arrays register) : i.IsDeclaration := by
  obtain ⟨temp, htemp, -, -⟩ := h.declares
  exact ⟨h.operands.1, h.operands.2, _, htemp, by simp [Declaration.registers]⟩

theorem DeclaresProperty.isDeclaration (h : i.DeclaresProperty) : i.IsDeclaration := by
  rcases h.declares with ⟨-, flags, hdeclaration⟩ | ⟨-, x, y, z, hdeclaration⟩
  · exact ⟨h.operands.1, h.operands.2, _, hdeclaration, by simp [Declaration.registers]⟩
  · exact ⟨h.operands.1, h.operands.2, _, hdeclaration, by simp [Declaration.registers]⟩

theorem DeclaresBuffer.isDeclaration {d : Descriptor} (h : i.DeclaresBuffer d) :
    i.IsDeclaration := by
  obtain ⟨src, hsrc, htype, hindices⟩ := h.declares
  refine ⟨h.operands.1, h.operands.2, _, hsrc, fun r hr => ?_⟩
  obtain rfl := List.mem_singleton.mp hr
  exact ⟨by simp [htype], by simp [htype], by simp [hindices]⟩

theorem DeclaresElement.isDeclaration {type : RegisterType} {opcode : Bool → Opcode} {k : Nat}
    {e : SignatureElement} (hssa : type ≠ .ssa) (hinvalid : type ≠ .invalid)
    (h : i.DeclaresElement type opcode k e) : i.IsDeclaration := by
  obtain ⟨d, dst, hd, hdst, -, htype, hindices⟩ := h.declares
  have hregisters : d.registers = [dst.register] := by
    cases d with
    | register | registerSemantic =>
      cases hdst
      rfl
    | _ => cases hdst
  refine ⟨h.operands.1, h.operands.2, d, hd, fun r hr => ?_⟩
  rw [hregisters, List.mem_singleton] at hr
  subst hr
  refine ⟨htype ▸ hssa, htype ▸ hinvalid, fun index hindex => ?_⟩
  rw [hindices] at hindex
  split at hindex
  · simp only [List.cons_append, List.nil_append, List.mem_cons, List.not_mem_nil,
      or_false] at hindex
    rcases hindex with rfl | rfl <;> rfl
  · simp only [List.nil_append, List.mem_cons, List.not_mem_nil, or_false] at hindex
    subst hindex
    rfl

end Instruction

/-! ## Programs -/

/-- Instructions correspond to the members of a list one for one, in order. -/
structure DeclareEach {α : Type} (R : Nat → α → Instruction → Prop) (as : List α)
    (is : List Instruction) : Prop where
  length : is.length = as.length
  declares : ∀ k a i, as[k]? = some a → is[k]? = some i → R k a i

theorem DeclareEach.exists_of_mem {α : Type} {R : Nat → α → Instruction → Prop} {as : List α}
    {is : List Instruction} (h : DeclareEach R as is) {i : Instruction} (hi : i ∈ is) :
    ∃ k a, R k a i := by
  obtain ⟨k, hk⟩ := List.mem_iff_getElem?.mp hi
  have hlt := (List.getElem?_eq_some_iff.mp hk).1
  have hget := List.getElem?_eq_getElem (h.length ▸ hlt)
  exact ⟨k, _, h.declares k _ i hget hk⟩

/-- The parts of a program before its return. -/
structure Layout where
  temps : List Instruction
  properties : List Instruction
  buffers : List Instruction
  outputs : List Instruction
  inputs : List Instruction
  body : List Instruction

namespace Layout

def declarations (l : Layout) : List Instruction :=
  l.temps ++ l.properties ++ l.buffers ++ l.outputs ++ l.inputs

/-- The parts are those of a program. Register arrays are numbered from zero, and every descriptor
and signature element has its declaration. -/
structure Describes (l : Layout) (p : Program) : Prop where
  instructions : ∃ location,
    p.instructions = l.declarations ++ l.body ++ [{ opcode := .ret, location }]
  tempCount : p.indexableTempCount = UInt32.ofNat l.temps.length
  temps : ∀ (k : Nat) (i : Instruction), l.temps[k]? = some i →
    i.DeclaresTemp p.constantArrays.length (UInt32.ofNat k)
  properties : ∀ i ∈ l.properties, i.DeclaresProperty
  buffers : DeclareEach (fun _ => Instruction.DeclaresBuffer) p.descriptors l.buffers
  outputs : DeclareEach (Instruction.DeclaresElement p.version.shaderType.outputRegister .ofOutput)
    p.outputs l.outputs
  inputs : DeclareEach
    (Instruction.DeclaresElement .input (.ofInput (p.version.shaderType = .pixel)))
    p.inputs l.inputs

theorem Describes.length_temps {l : Layout} {p : Program} (h : l.Describes p)
    (hsmall : l.temps.length < UInt32.size) : l.temps.length = p.indexableTempCount.toNat := by
  rw [h.tempCount]
  exact (UInt32.toNat_ofNat_of_lt' hsmall).symm

theorem Describes.isDeclaration {l : Layout} {p : Program} (h : l.Describes p) :
    ∀ i ∈ l.declarations, i.IsDeclaration := by
  intro i hi
  simp only [declarations, List.mem_append] at hi
  rcases hi with (((hi | hi) | hi) | hi) | hi
  · obtain ⟨k, hk⟩ := List.mem_iff_getElem?.mp hi
    exact (h.temps k i hk).isDeclaration
  · exact (h.properties i hi).isDeclaration
  · obtain ⟨_, d, hd⟩ := h.buffers.exists_of_mem hi
    exact hd.isDeclaration
  · obtain ⟨_, e, he⟩ := h.outputs.exists_of_mem hi
    refine he.isDeclaration ?_ ?_ <;>
      cases p.version.shaderType <;> simp [ShaderType.outputRegister]
  · obtain ⟨_, e, he⟩ := h.inputs.exists_of_mem hi
    exact he.isDeclaration (by decide) (by decide)

end Layout

end Dxil
