import Dxil.Module.Decoder

/-!
# Dxil.Module.SymbolTable

Names of a module's functions and global variables, by position in the value list.

* `SymbolTable.name?`
* `SymbolTable.decode` : a module without the table, or with two names for one value, is invalid.
-/

namespace Dxil

structure SymbolTable where
  entries : List (UInt64 × String) := []
  deriving DecidableEq, Repr

namespace SymbolTable

def name? (t : SymbolTable) (id : UInt64) : Option String := t.entries.lookup id

/-- One more name; `none` if the value has one already. -/
def insert? (t : SymbolTable) (id : UInt64) (name : String) : Option SymbolTable :=
  match t.name? id with
  | some _ => none
  | none => some ⟨(id, name) :: t.entries⟩

end SymbolTable

inductive SymbolCode where
  | entry
  /-- The name of a basic block. -/
  | blockEntry
  deriving DecidableEq, Repr

def SymbolCode.ofNat? : Nat → Option SymbolCode
  | 1 => some entry
  | 2 => some blockEntry
  | _ => none

/-- The table after one more record. Only names of values count. -/
def SymbolTable.add (t : SymbolTable) (r : Record) : Decoder SymbolTable :=
  match SymbolCode.ofNat? r.code.toNat with
  | some .entry => do
    requireOperands r 1
    match t.insert? (← operand r 0) (r.text 1) with
    | some t => pure t
    | none => abandon
  | _ => pure t

def SymbolTable.decode (root : Block) : Decoder SymbolTable := do
  match root.children .valueSymtab with
  | [] => abandon
  | block :: _ => do
    setLine block.id
    foldRecords (fun t _ r => t.add r) 0 {} block.records

end Dxil
