import Dxil.Module.Finding

/-!
# Dxil.Module.Decoder

Decoding a module reports findings at the place it has come to and may give up.

* `Progress` : the place and the reports so far. The place stays where the last record put it, so a
  later pass that sets only a part of it reports next to that record.
* `present` : an access that the checks before it have made safe.
* `Decoder` : keeps its progress when it gives up.
* `reject` : an error that ends the record or pass at hand.
* `foldRecords` : a pass over the records of a block.
-/

namespace Dxil

abbrev TypeId := Nat

structure Report where
  location : Location
  finding : Finding
  deriving DecidableEq, Repr

def Report.toDiagnostic (r : Report) : Diagnostic := r.finding.toDiagnostic r.location

structure Progress where
  location : Location
  reports : Array Report := #[]
  /-- Whether an error is among the reports. -/
  failed : Bool := false

def Progress.add (p : Progress) (r : Report) : Progress :=
  { p with reports := p.reports.push r, failed := p.failed || r.finding.isError }

inductive Stop where
  /-- The record or pass is invalid; `type` is the type of the value a record would have given. -/
  | invalid (type : Option TypeId)
  /-- A reference between tables leads nowhere, although the tables were checked. -/
  | dangling
  deriving DecidableEq, Repr

abbrev Decoder := EStateM Stop Progress

def setLine (line : UInt32) : Decoder Unit :=
  modify fun p => { p with location := { p.location with line } }

def setColumn (column : Nat) : Decoder Unit :=
  modify fun p => { p with location := { p.location with column := UInt32.ofNat column } }

def here : Decoder Location := do
  let p ← get
  pure p.location

def report (f : Finding) : Decoder Unit :=
  modify fun p => p.add ⟨p.location, f⟩

def reportAtStart (f : Finding) : Decoder Unit :=
  modify fun p => p.add ⟨{ source := p.location.source }, f⟩

/-- Give up without a report of one's own. -/
def abandon {α : Type} : Decoder α := throw (.invalid none)

def reject {α : Type} (f : Finding) : Decoder α := do
  report f
  abandon

def reportIf (c : Prop) [Decidable c] (f : Finding) : Decoder Unit :=
  if c then report f else pure ()

def rejectIf (c : Prop) [Decidable c] (f : Finding) : Decoder Unit :=
  if c then reject f else pure ()

/-- The value of an option that is known to be there. -/
def present {α : Type} : Option α → Decoder α
  | some a => pure a
  | none => throw .dangling

def orReject {α : Type} (o : Option α) (f : Finding) : Decoder α :=
  match o with
  | some a => pure a
  | none => reject f

/-- Give the type of the value that `x` would define, should it give up. -/
def typed {α : Type} (type : Option TypeId) (x : Decoder α) : Decoder α := fun p =>
  match x p with
  | .error (.invalid _) p' => .error (.invalid type) p'
  | r => r

/-- `x`, and `f` before giving up where `x` gives up. -/
def orReport {α : Type} (x : Decoder α) (f : Decoder Unit) : Decoder α := fun p =>
  match x p with
  | .error (.invalid type) p' =>
    match f p' with
    | .ok () p'' => .error (.invalid type) p''
    | .error e p'' => .error e p''
  | r => r

/-- `x`, or the type that it gave up with. -/
def attempt {α : Type} (x : Decoder α) : Decoder (Except (Option TypeId) α) := fun p =>
  match x p with
  | .ok a p' => .ok (.ok a) p'
  | .error (.invalid type) p' => .ok (.error type) p'
  | .error .dangling p' => .error .dangling p'

/-! ## Operands of a record -/

def requireOperands (r : Record) (least : Nat) : Decoder Unit :=
  rejectIf (r.operands.length < least) (.tooFewOperands r.operands.length least)

/-- More than `most` operands are ignored with a warning. -/
def ignoreBeyond (r : Record) (most : Nat) : Decoder Unit :=
  reportIf (most < r.operands.length) (.ignoredOperands (r.operands.length - most))

def checkOperands (r : Record) (least most : Nat) : Decoder Unit := do
  requireOperands r least
  ignoreBeyond r most

def operand (r : Record) (i : Nat) : Decoder UInt64 := present r.operands[i]?

/-- An operand that the record was checked to have, and that has no meaning here. -/
def skipOperand (r : Record) (i : Nat) : Decoder Unit := do
  let _ ← operand r i

def operandsFrom (r : Record) (i : Nat) : Decoder (List UInt64) :=
  if i ≤ r.operands.length then pure (r.operands.drop i) else throw .dangling

/-! ## Passes -/

/-- Run `step` on each record, from index `i` on, with the column at its index. -/
def foldRecords {σ : Type} (step : σ → Nat → Record → Decoder σ) :
    Nat → σ → List Record → Decoder σ
  | _, s, [] => pure s
  | i, s, r :: rs => do
    setColumn i
    let s ← step s i r
    foldRecords step (i + 1) s rs

end Dxil
