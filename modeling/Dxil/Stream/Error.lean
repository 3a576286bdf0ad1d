import Dxil.Bits.Cursor

/-!
# Dxil.Stream.Error

What can be wrong with a bitstream, and the text for it.

* `StreamError` : the causes.
* `StreamReader` : a reader of the stream's own structures. Bit readers lift into it.
-/

namespace Dxil

inductive StreamError where
  /-- An array or blob operand in the wrong place of an abbreviation. -/
  | invalidAbbreviation
  | unknownEncoding (kind : Nat)
  /-- Block info may only stand at the root or directly below it. -/
  | misplacedBlockInfo (level : Nat)
  /-- An abbreviation in block info before any block was selected for it. -/
  | noBlockSelected
  | invalidBlockInfoRecord (code : UInt32)
  | moduleAbbreviation
  | invalidWidth (width : Nat)
  | invalidBlockId (id : Nat)
  | childNotAllowed (parent : UInt32)
  | unknownAbbreviation (block : UInt32) (abbreviation : Nat)
  /-- An abbreviation that consists of an array or blob alone. -/
  | missingRecordCode
  | invalidInitialAbbreviation (abbreviation : Nat)
  | noRootBlock
  | bits (error : BitError)
  deriving DecidableEq, Repr

def StreamError.message : StreamError → String
  | .invalidAbbreviation => "invalid abbreviation"
  | .unknownEncoding kind => s!"invalid abbreviation operand encoding `{kind}`"
  | .misplacedBlockInfo level => s!"block info block at level {level}"
  | .noBlockSelected => "missing SETBID"
  | .invalidBlockInfoRecord code => s!"invalid block info record `{code}`"
  | .moduleAbbreviation => "global abbreviations for the module block are not supported"
  | .invalidWidth width => s!"abbreviation width `{width}` is invalid"
  | .invalidBlockId id => s!"invalid block id `{id}`"
  | .childNotAllowed parent => s!"sub-block inside block `{parent}`"
  | .unknownAbbreviation block abbreviation =>
    s!"no such abbreviation `{abbreviation}` in block `{block}`"
  | .missingRecordCode => "abbreviated record has no record code"
  | .invalidInitialAbbreviation abbreviation =>
    s!"initial block abbreviation `{abbreviation}` is not ENTER_SUBBLOCK"
  | .noRootBlock => "bitcode has no root block"
  | .bits error => error.message

abbrev StreamReader := EStateM StreamError Cursor

def liftBits {α : Type} (x : BitReader α) : StreamReader α := fun c =>
  match x c with
  | .ok a c' => .ok a c'
  | .error e c' => .error (.bits e) c'

instance : MonadLift BitReader StreamReader := ⟨liftBits⟩

theorem Shortens.liftBits {α : Type} {x : BitReader α} (hx : Shortens x) :
    Shortens (Dxil.liftBits x) := by
  intro c a c' h
  unfold Dxil.liftBits at h
  split at h
  · rename_i h₁
    cases h
    exact hx _ _ _ h₁
  · cases h

end Dxil
