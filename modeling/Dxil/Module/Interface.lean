import Dxil.Module.Decoder

/-!
# Dxil.Module.Interface

Declarations of the inputs and outputs of a shader, one for each signature element.

* `Signature.declareInputs`, `Signature.declareOutputs`
-/

namespace Dxil

namespace ShaderType

def outputRegister : ShaderType → RegisterType
  | pixel => .colorOut
  | _ => .output

end ShaderType

namespace SignatureElement

def isSystemValue (e : SignatureElement) : Bool :=
  match e.sysval with
  | .none | .target => false
  | _ => true

/-- The declaration of an element with its parameter. An array is declared with the number of its
rows. -/
def declaration (e : SignatureElement) (param : DstParam)
    (interpolation : Option InterpolationMode) : Decoder Declaration := do
  let register ← present (e.atRow? param.register { offset := e.registerCount })
  let dst := { param with register }
  pure (if e.isSystemValue then .registerSemantic dst e.sysval interpolation
    else .register dst interpolation)

def declareOutput (location : Location) (e : SignatureElement) (param : DstParam) :
    Decoder Instruction := do
  let declaration ← e.declaration param none
  pure
    { opcode := if e.isSystemValue then .dclOutputSiv else .dclOutput
      location
      declaration := some declaration }

/-- Pixel shaders interpolate their inputs. -/
def declareInput (shader : ShaderType) (location : Location) (e : SignatureElement)
    (param : DstParam) : Decoder Instruction := do
  if shader = .pixel then
    let declaration ← e.declaration param (some e.interpolation)
    pure
      { opcode := if e.isSystemValue then .dclInputPsSiv else .dclInputPs
        location
        declaration := some declaration }
  else
    let declaration ← e.declaration param none
    pure
      { opcode := if e.isSystemValue then .dclInputSiv else .dclInput
        location
        declaration := some declaration }

end SignatureElement

namespace Signature

def declareOutputs (location : Location) (s : Signature) (params : List DstParam) :
    Decoder (List Instruction) :=
  (s.zip params).mapM fun (e, param) => e.declareOutput location param

def declareInputs (shader : ShaderType) (location : Location) (s : Signature)
    (params : List DstParam) : Decoder (List Instruction) :=
  (s.zip params).mapM fun (e, param) => e.declareInput shader location param

end Signature

end Dxil
