import Dxil.Stream.Reader

/-!
# Dxil.Stream.Bitcode

A whole stream: a magic word, then the root block. The abbreviation id that opens the root block is
in the low two bits of the second word.

* `visitWords` : the events of a stream under an entry policy, and how the reading ended.
* `Bitcode` and `Bitcode.ofBytes` : the tree of blocks.
-/

namespace Dxil

/-- `'B' 'C' 0xC0 0xDE` as a word. -/
def bitcodeMagic : UInt32 := 0xdec04342

/-- Read the root block of a stream. The events up to a failure are kept. -/
def visitWords (policy : EntryPolicy) (words : Array UInt32) :
    Array Event × Except StreamError Cursor :=
  match words[1]? with
  | none => (#[], .error (.bits .bufferOverflow))
  | some first =>
    if first.toNat % 4 ≠ 1 then (#[], .error (.invalidInitialAbbreviation (first.toNat % 4)))
    else
      match Cursor.at? words 1 2 with
      | none => (#[], .error (.bits .bufferOverflow))
      | some cursor =>
        match readSubBlock policy 0 { cursor } with
        | .ok () r => (r.events, .ok r.cursor)
        | .error e r => (r.events, .error e)

def visit (policy : EntryPolicy) (bytes : List UInt8) : Array Event × Except StreamError Cursor :=
  visitWords policy (wordsOfBytes bytes).toArray

structure Bitcode where
  /-- The first word, normally `bitcodeMagic`. -/
  magic : UInt32
  root : Block
  /-- Index of the word after the root block. -/
  endPosition : Nat
  wordCount : Nat
  deriving Repr

def Bitcode.ofWords (words : Array UInt32) : Except StreamError Bitcode :=
  match visitWords .all words with
  | (_, .error e) => .error e
  | (events, .ok c) =>
    match Block.ofEvents? events with
    | none => .error .noRootBlock
    | some root => .ok ⟨words.getD 0 0, root, c.word, words.size⟩

def Bitcode.ofBytes (bytes : List UInt8) : Except StreamError Bitcode :=
  Bitcode.ofWords (wordsOfBytes bytes).toArray

end Dxil
