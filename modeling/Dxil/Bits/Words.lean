/-!
# Dxil.Bits.Words

Bytes and the 32-bit words they make up, least significant byte first.

* `littleEndian` : the number that a list of bytes spells.
* `wordsOfBytes` : the words of a byte string; a short last word is filled with zeros.
* `wordAt?` : the word at a byte offset, if it lies inside.
-/

namespace Dxil

def littleEndian : List UInt8 → Nat
  | [] => 0
  | b :: bs => b.toNat + 256 * littleEndian bs

def wordsOfBytes : List UInt8 → List UInt32
  | a :: b :: c :: d :: rest => UInt32.ofNat (littleEndian [a, b, c, d]) :: wordsOfBytes rest
  | [] => []
  | tail => [UInt32.ofNat (littleEndian tail)]

def wordAt? (bytes : List UInt8) (offset : Nat) : Option UInt32 :=
  match bytes.drop offset with
  | a :: b :: c :: d :: _ => some (UInt32.ofNat (littleEndian [a, b, c, d]))
  | _ => none

def bytesOfWord (w : UInt32) : List UInt8 :=
  [w.toUInt8, (w >>> 8).toUInt8, (w >>> 16).toUInt8, (w >>> 24).toUInt8]

def slice? (bytes : List UInt8) (start size : Nat) : Option (List UInt8) :=
  if start + size ≤ bytes.length then some ((bytes.drop start).take size) else none

end Dxil
