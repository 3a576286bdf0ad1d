/-!
# Dxil.Shader.Opcode

The operations of the vector shader language that modules are lowered to.
-/

namespace Dxil

/-- Operations; a leading `d` works on doubles, `i` on signed and `u` on unsigned integers. -/
inductive Opcode where
  | add
  | and
  | dAdd
  | dclConstantBuffer
  | dclGlobalFlags
  | dclIndexableTemp
  | dclInput
  | dclInputPs
  | dclInputPsSiv
  | dclInputSiv
  | dclOutput
  | dclOutputSiv
  | dclThreadGroup
  | dDiv
  | dEq
  | dGe
  | div
  | dLt
  | dMul
  | dNe
  | dToF
  | dToI
  | dToU
  | eq
  | frem
  | fToD
  | fToI
  | fToU
  | ge
  | iAdd
  | iDiv
  | iEq
  | iGe
  | iLt
  | iMul
  | iNe
  | iShl
  | iShr
  | iToD
  | iToF
  | iToI
  | lt
  | mov
  | movc
  | mul
  | ne
  | nop
  | or
  | ret
  | uDiv
  | uGe
  | uLt
  | uShr
  | uToD
  | uToF
  | uToU
  | xor
  deriving DecidableEq, Repr

def Opcode.mnemonic : Opcode → String
  | add => "add"
  | and => "and"
  | dAdd => "dadd"
  | dclConstantBuffer => "dcl_constantBuffer"
  | dclGlobalFlags => "dcl_globalFlags"
  | dclIndexableTemp => "dcl_indexableTemp"
  | dclInput => "dcl_input"
  | dclInputPs => "dcl_input_ps"
  | dclInputPsSiv => "dcl_input_ps_siv"
  | dclInputSiv => "dcl_input_siv"
  | dclOutput => "dcl_output"
  | dclOutputSiv => "dcl_output_siv"
  | dclThreadGroup => "dcl_thread_group"
  | dDiv => "ddiv"
  | dEq => "deq"
  | dGe => "dge"
  | div => "div"
  | dLt => "dlt"
  | dMul => "dmul"
  | dNe => "dne"
  | dToF => "dtof"
  | dToI => "dtoi"
  | dToU => "dtou"
  | eq => "eq"
  | frem => "frem"
  | fToD => "ftod"
  | fToI => "ftoi"
  | fToU => "ftou"
  | ge => "ge"
  | iAdd => "iadd"
  | iDiv => "idiv"
  | iEq => "ieq"
  | iGe => "ige"
  | iLt => "ilt"
  | iMul => "imul"
  | iNe => "ine"
  | iShl => "ishl"
  | iShr => "ishr"
  | iToD => "itod"
  | iToF => "itof"
  | iToI => "itoi"
  | lt => "lt"
  | mov => "mov"
  | movc => "movc"
  | mul => "mul"
  | ne => "ne"
  | nop => "nop"
  | or => "or"
  | ret => "ret"
  | uDiv => "udiv"
  | uGe => "uge"
  | uLt => "ult"
  | uShr => "ushr"
  | uToD => "utod"
  | uToF => "utof"
  | uToU => "utou"
  | xor => "xor"

end Dxil
