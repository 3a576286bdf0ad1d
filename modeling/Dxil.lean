import Dxil.Bits.Cursor
import Dxil.Bits.Words
import Dxil.Container
import Dxil.Diagnostic
import Dxil.Function.Address
import Dxil.Function.Arithmetic
import Dxil.Function.Body
import Dxil.Function.Call
import Dxil.Function.Cast
import Dxil.Function.Comparison
import Dxil.Function.Intrinsic
import Dxil.Function.Operation
import Dxil.Function.Reference
import Dxil.Function.Selection
import Dxil.Module.Budget
import Dxil.Module.Constants
import Dxil.Module.Decoder
import Dxil.Module.EntryPoint
import Dxil.Module.Finding
import Dxil.Module.Functions
import Dxil.Module.Globals
import Dxil.Module.Interface
import Dxil.Module.Metadata
import Dxil.Module.Resources
import Dxil.Module.Scalar
import Dxil.Module.SignatureElement
import Dxil.Module.SymbolTable
import Dxil.Module.TypeTable
import Dxil.Module.Value
import Dxil.Parse
import Dxil.ProgramHeader
import Dxil.Proofs.BitcodeRange
import Dxil.Proofs.BlockOrder
import Dxil.Proofs.Budget
import Dxil.Proofs.ContainerLayout
import Dxil.Proofs.DeclaredOperands
import Dxil.Proofs.Function.IgnoredOperands
import Dxil.Proofs.Function.Numbering
import Dxil.Proofs.KnownRegisters
import Dxil.Proofs.Layout
import Dxil.Proofs.Parse
import Dxil.Proofs.SignatureAccess
import Dxil.Proofs.Stream.Definition
import Dxil.Proofs.Stream.RoundTrip
import Dxil.Proofs.Stream.SelfDelimiting
import Dxil.Proofs.Stream.Skipping
import Dxil.Proofs.Stream.Tree
import Dxil.Proofs.Stream.VariableRate
import Dxil.Proofs.Swizzles
import Dxil.Proofs.Transcript
import Dxil.Shader.Opcode
import Dxil.Shader.Program
import Dxil.Shader.Register
import Dxil.Shader.Signature
import Dxil.Shader.Version
import Dxil.Stream.Abbreviation
import Dxil.Stream.Bitcode
import Dxil.Stream.Block
import Dxil.Stream.Error
import Dxil.Stream.Reader
import Dxil.Stream.Record
import Dxil.Text.Hex
import Dxil.Text.Utf8
import Dxil.Proofs.Stream.LengthCheck
import Dxil.Proofs.Stream.Moves
import Dxil.Proofs.Stream.Widths
import Dxil.Proofs.Stream.Scoping
import Dxil.Proofs.Module.Settles
import Dxil.Proofs.Module.TypeRecords
import Dxil.Proofs.Module.TypeWalk
import Dxil.Proofs.Module.ConstantArrays
import Dxil.Proofs.Module.ConstantRecords
import Dxil.Proofs.Module.MetadataRecords
import Dxil.Proofs.Module.Signatures
import Dxil.Proofs.SignatureElements
import Dxil.Proofs.ValueCounts
import Dxil.Proofs.Module.RotatedIntegers
import Dxil.Proofs.Function.References
import Dxil.Proofs.Function.Precision
import Dxil.Proofs.Function.IntegerMeaning
import Dxil.Proofs.Bits.BitList
import Dxil.Proofs.Stream.Progress
import Dxil.Proofs.Module.PointerSearch
