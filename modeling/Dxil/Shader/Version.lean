/-!
# Dxil.Shader.Version

The stage a shader runs in and the shader model it is written for.
-/

namespace Dxil

inductive ShaderType where
  | pixel
  | vertex
  | geometry
  | hull
  | domain
  | compute
  | library
  | rayGeneration
  | intersection
  | anyHit
  | closestHit
  | miss
  | callable
  | mesh
  | amplification
  | unknown (number : UInt32)
  deriving DecidableEq, Repr

namespace ShaderType

def ofNumber (n : UInt32) : ShaderType :=
  match n.toNat with
  | 0 => pixel
  | 1 => vertex
  | 2 => geometry
  | 3 => hull
  | 4 => domain
  | 5 => compute
  | 6 => library
  | 7 => rayGeneration
  | 8 => intersection
  | 9 => anyHit
  | 10 => closestHit
  | 11 => miss
  | 12 => callable
  | 13 => mesh
  | 14 => amplification
  | _ => unknown n

def name : ShaderType → String
  | pixel => "Pixel"
  | vertex => "Vertex"
  | geometry => "Geometry"
  | hull => "Hull"
  | domain => "Domain"
  | compute => "Compute"
  | library => "Library"
  | rayGeneration => "RayGeneration"
  | intersection => "Intersection"
  | anyHit => "AnyHit"
  | closestHit => "ClosestHit"
  | miss => "Miss"
  | callable => "Callable"
  | mesh => "Mesh"
  | amplification => "Amplification"
  | unknown n => s!"Unknown({n})"

end ShaderType

structure ShaderVersion where
  shaderType : ShaderType
  major : UInt32
  minor : UInt32
  deriving DecidableEq, Repr

end Dxil
