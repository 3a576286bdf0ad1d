/-!
# Dxil.Text.Hex

Hexadecimal numbers as diagnostics show them: lower-case digits after `0x`.

* `hex n` : no more digits than needed.
* `hexWord n` : at least eight digits.
-/

namespace Dxil

/-- The number behind `0x`, with no more digits than it needs. -/
def hex (n : Nat) : String :=
  "0x" ++ String.ofList (Nat.toDigits 16 n)

/-- The number behind `0x`, filled with zeros to eight digits. -/
def hexWord (n : Nat) : String :=
  let digits := Nat.toDigits 16 n
  "0x" ++ String.ofList (List.replicate (8 - digits.length) '0' ++ digits)

end Dxil
