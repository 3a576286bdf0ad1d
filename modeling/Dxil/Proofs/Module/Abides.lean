import Dxil.Proofs.Bits.Local
import Dxil.Proofs.Module.Ensures

/-!
# Dxil.Proofs.Module.Abides

Decoders of one record. What they find and what they come to depends on the place in the source, but
not on what was reported before.

* `Progress.addAll` : findings are reported at the place decoding has come to.
* `ComesTo x location A` : what `x` finds at a place, and what it comes to.
* `Terms` : what a decoder may find, and how it may give up.
* `Abides T x Q` : `x` keeps to the terms `T`, and what it gives has `Q`.

The rules follow the way decoders are put together. A decoder has one lemma, named after it, and
what else is said of it is read off from there: `Abides.ensures`, `Abides.gives`, `Abides.of_ok`,
`Abides.of_invalid`.
-/

namespace Dxil

namespace Finding

/-- An operation that is not known. This is not an error. -/
def isUnhandled (f : Finding) : Bool := f.code = .unhandledIntrinsic

def isIgnoredOperands : Finding → Bool
  | .ignoredOperands _ => true
  | _ => false

theorem not_isIgnoredOperands_of_isError {f : Finding} (h : f.isError = true) :
    f.isIgnoredOperands = false := by
  cases f with
  | ignoredOperands => cases h
  | _ => rfl

theorem not_isIgnoredOperands_of_isUnhandled {f : Finding} (h : f.isUnhandled = true) :
    f.isIgnoredOperands = false := by
  cases f with
  | ignoredOperands => cases h
  | _ => rfl

theorem not_isUnhandled_of_isError {f : Finding} (h : f.isError = true) :
    f.isUnhandled = false := by
  cases f with
  | intrinsicUnhandled => cases h
  | container error | header error => cases error <;> rfl
  | _ => rfl

end Finding

def Progress.addAll (p : Progress) (findings : List Finding) : Progress :=
  { p with
    reports := p.reports ++ (findings.map (Report.mk p.location)).toArray
    failed := p.failed || findings.any Finding.isError }

namespace Progress

variable {p : Progress} {new new' : List Finding}

@[simp] theorem addAll_nil : p.addAll [] = p := by
  simp [addAll]

@[simp] theorem failed_addAll :
    (p.addAll new).failed = (p.failed || new.any Finding.isError) := rfl

theorem reports_addAll :
    (p.addAll new).reports.toList = p.reports.toList ++ new.map (Report.mk p.location) := by
  simp [addAll]

theorem addAll_addAll : (p.addAll new).addAll new' = p.addAll (new ++ new') := by
  simp [addAll, Bool.or_assoc]

theorem add_eq_addAll (f : Finding) : p.add ⟨p.location, f⟩ = p.addAll [f] := by
  simp [addAll, add]

theorem Continues.addAll (h : p.Consistent) (new : List Finding) : p.Continues (p.addAll new) := by
  refine ⟨?_, rfl, ⟨_, reports_addAll.symm⟩⟩
  unfold Consistent at h ⊢
  rw [← Array.any_toList, reports_addAll, List.any_append, List.any_map, Array.any_toList, ← h]
  rfl

end Progress

/-! ## Answers -/

/-- What a decoder of one record comes to. -/
structure Answer (α : Type) where
  found : List Finding
  result : Except Stop α

namespace Answer

variable {α : Type}

def outcome (A : Answer α) (p : Progress) : EStateM.Result Stop Progress α :=
  match A.result with
  | .ok a => .ok a (p.addAll A.found)
  | .error e => .error e (p.addAll A.found)

theorem outcome_addAll (A : Answer α) (p : Progress) (found : List Finding) :
    A.outcome (p.addAll found) = outcome ⟨found ++ A.found, A.result⟩ p := by
  unfold outcome
  cases A.result <;> simp only [Progress.addAll_addAll]

/-- All that is left of the type that an answer leaves is whether it leaves one. -/
def typed (type : Option TypeId) (A : Answer α) : Answer α where
  found := A.found
  result := match A.result with
    | .error (.invalid _) => .error (.invalid type)
    | result => result

def attempt (A : Answer α) : Answer (Except (Option TypeId) α) where
  found := A.found
  result := match A.result with
    | .ok a => .ok (.ok a)
    | .error (.invalid type) => .ok (.error type)
    | .error .dangling => .error .dangling

def orReport (f : Finding) (A : Answer α) : Answer α where
  found := match A.result with
    | .error (.invalid _) => A.found ++ [f]
    | _ => A.found
  result := A.result

end Answer

/-- At a place, `x` comes to an answer, whatever was reported before. -/
def ComesTo {α : Type} (x : Decoder α) (location : Location) (A : Answer α) : Prop :=
  ∀ p : Progress, p.location = location → x p = A.outcome p

namespace ComesTo

variable {α β : Type} {x : Decoder α} {location : Location} {found : List Finding} {A : Answer α}

theorem pure (a : α) : ComesTo (Pure.pure a) location ⟨[], .ok a⟩ := by
  intro p _
  rw [Answer.outcome, Progress.addAll_nil]
  rfl

theorem throw (e : Stop) : ComesTo (throw e : Decoder α) location ⟨[], .error e⟩ := by
  intro p _
  rw [Answer.outcome, Progress.addAll_nil]
  rfl

theorem here : ComesTo Dxil.here location ⟨[], .ok location⟩ := by
  rintro p rfl
  rw [Answer.outcome, Progress.addAll_nil]
  rfl

theorem report (f : Finding) : ComesTo (Dxil.report f) location ⟨[f], .ok ()⟩ := by
  intro p _
  rw [Answer.outcome, ← p.add_eq_addAll f]
  rfl

theorem bind {f : α → Decoder β} {a : α} {B : Answer β} (hx : ComesTo x location ⟨found, .ok a⟩)
    (hf : ComesTo (f a) location B) : ComesTo (x >>= f) location ⟨found ++ B.found, B.result⟩ := by
  intro p hp
  rw [← Answer.outcome_addAll]
  exact (bind_of_ok (hx p hp)).trans (hf _ hp)

theorem bind_error {f : α → Decoder β} {e : Stop} (hx : ComesTo x location ⟨found, .error e⟩) :
    ComesTo (x >>= f) location ⟨found, .error e⟩ := fun p hp => bind_of_error (hx p hp)

theorem reject (f : Finding) :
    ComesTo (Dxil.reject f : Decoder α) location ⟨[f], .error (.invalid none)⟩ :=
  (report f).bind (B := ⟨[], .error (.invalid none)⟩) (throw (.invalid none))

theorem typed (type : Option TypeId) (hx : ComesTo x location A) :
    ComesTo (Dxil.typed type x) location (A.typed type) := by
  intro p hp
  unfold Dxil.typed
  rw [hx p hp]
  obtain ⟨found, (_ | _) | a⟩ := A <;> rfl

theorem attempt (hx : ComesTo x location A) : ComesTo (Dxil.attempt x) location A.attempt := by
  intro p hp
  unfold Dxil.attempt
  rw [hx p hp]
  obtain ⟨found, (_ | _) | a⟩ := A <;> rfl

theorem orReport (f : Finding) (hx : ComesTo x location A) :
    ComesTo (Dxil.orReport x (Dxil.report f)) location (A.orReport f) := by
  intro p hp
  unfold Dxil.orReport
  rw [hx p hp]
  obtain ⟨found, (type | _) | a⟩ := A
  · have hreport := report f (p.addAll found) hp
    simp only [Answer.outcome, Answer.orReport] at hreport ⊢
    rw [hreport, Progress.addAll_addAll]
  · rfl
  · rfl

end ComesTo

/-! ## Terms -/

/-- The terms that a decoder of one record keeps to. -/
structure Terms where
  /-- What it may find and go on. -/
  notes : Finding → Prop
  /-- What it may find and give up. -/
  blames : Finding → Prop
  /-- Whether it may give up without a finding to blame. -/
  silent : Prop
  /-- The type of the value that is not defined, where it gives up. -/
  leaves : Option TypeId → Prop
  /-- Whether it may make an access that leads nowhere. -/
  dangles : Prop
  error : ∀ f, f.isError = true → blames f

/-- The answers on terms `T` that give something with `Q`, or nothing. -/
inductive Terms.Allows {α : Type} (T : Terms) (Q : α → Prop) : Answer α → Prop where
  | gives {found : List Finding} {a : α} (hnotes : ∀ f ∈ found, T.notes f) (h : Q a) :
      T.Allows Q ⟨found, .ok a⟩
  | rejects {found : List Finding} {f : Finding} {type : Option TypeId}
      (hnotes : ∀ f ∈ found, T.notes f) (hf : T.blames f) (htype : T.leaves type) :
      T.Allows Q ⟨found ++ [f], .error (.invalid type)⟩
  | abandons {found : List Finding} {type : Option TypeId} (hnotes : ∀ f ∈ found, T.notes f)
      (hsilent : T.silent) (htype : T.leaves type) : T.Allows Q ⟨found, .error (.invalid type)⟩
  | dangles {found : List Finding} (hnotes : ∀ f ∈ found, T.notes f) (h : T.dangles) :
      T.Allows Q ⟨found, .error .dangling⟩

/-- At any place, `x` comes to an answer that `T` and `Q` allow. -/
def Abides {α : Type} (T : Terms) (x : Decoder α) (Q : α → Prop) : Prop :=
  ∀ location, ∃ A : Answer α, T.Allows Q A ∧ ComesTo x location A

/-- Terms that allow more. -/
structure Terms.Implies (T T' : Terms) : Prop where
  notes : ∀ f, T.notes f → T'.notes f
  blames : ∀ f, T.blames f → T'.blames f
  silent : T.silent → T'.silent
  leaves : ∀ type, T.leaves type → T'.leaves type
  dangles : T.dangles → T'.dangles

/-- A decoder need not say what it gives up for, since an error is reported after it. -/
def Terms.deferred (T : Terms) : Terms :=
  { T with blames := fun f => f.isError = true, silent := True, error := fun _ h => h }

/-- What may be found on the way is not restricted, but for operands that are ignored and operations
that are not known. -/
def Terms.Remarks (T : Terms) : Prop :=
  ∀ f : Finding, f.isUnhandled = false → f.isIgnoredOperands = false → T.notes f

def Terms.Counts (T : Terms) (r : Record) (most : Nat) : Prop :=
  most < r.operands.length → ∀ n, T.notes (.ignoredOperands n)

namespace Terms.Allows

variable {α : Type} {T T' : Terms} {P Q : α → Prop} {A : Answer α}

theorem mono (h : T.Allows P A) (hT : T.Implies T') (hQ : ∀ a, P a → Q a) : T'.Allows Q A := by
  cases h with
  | gives hnotes ha => exact .gives (fun f hf => hT.notes f (hnotes f hf)) (hQ _ ha)
  | rejects hnotes hf htype =>
    exact .rejects (fun f hf => hT.notes f (hnotes f hf)) (hT.blames _ hf) (hT.leaves _ htype)
  | abandons hnotes hsilent htype =>
    exact .abandons (fun f hf => hT.notes f (hnotes f hf)) (hT.silent hsilent) (hT.leaves _ htype)
  | dangles hnotes h => exact .dangles (fun f hf => hT.notes f (hnotes f hf)) (hT.dangles h)

theorem prepend {found : List Finding} (h : T.Allows Q A) (hfound : ∀ f ∈ found, T.notes f) :
    T.Allows Q ⟨found ++ A.found, A.result⟩ := by
  cases h with
  | gives hnotes ha => exact .gives (List.forall_mem_append.mpr ⟨hfound, hnotes⟩) ha
  | rejects hnotes hf htype =>
    simp only [← List.append_assoc]
    exact .rejects (List.forall_mem_append.mpr ⟨hfound, hnotes⟩) hf htype
  | abandons hnotes hsilent htype =>
    exact .abandons (List.forall_mem_append.mpr ⟨hfound, hnotes⟩) hsilent htype
  | dangles hnotes h => exact .dangles (List.forall_mem_append.mpr ⟨hfound, hnotes⟩) h

end Terms.Allows

namespace Abides

variable {α β : Type} {T T' : Terms} {x : Decoder α} {P Q : α → Prop}

theorem pure {a : α} (h : Q a) : Abides T (Pure.pure a) Q :=
  fun _ => ⟨_, .gives (by simp) h, .pure a⟩

theorem bind {f : α → Decoder β} {R : β → Prop} (hx : Abides T x P)
    (hf : ∀ a, P a → Abides T (f a) R) : Abides T (x >>= f) R := by
  intro location
  obtain ⟨A, hA, hrun⟩ := hx location
  cases hA with
  | @gives found a hnotes ha =>
    obtain ⟨B, hB, hrest⟩ := hf a ha location
    exact ⟨_, hB.prepend hnotes, hrun.bind hrest⟩
  | rejects hnotes hf htype => exact ⟨_, .rejects hnotes hf htype, hrun.bind_error⟩
  | abandons hnotes hsilent htype => exact ⟨_, .abandons hnotes hsilent htype, hrun.bind_error⟩
  | dangles hnotes h => exact ⟨_, .dangles hnotes h, hrun.bind_error⟩

theorem weaken (hx : Abides T x P) (hT : T.Implies T') (h : ∀ a, P a → Q a) : Abides T' x Q := by
  intro location
  obtain ⟨A, hA, hrun⟩ := hx location
  exact ⟨A, hA.mono hT h, hrun⟩

theorem mono (hx : Abides T x P) (h : ∀ a, P a → Q a) : Abides T x Q :=
  hx.weaken ⟨fun _ h => h, fun _ h => h, fun h => h, fun _ h => h, fun h => h⟩ h

theorem map {f : α → β} {R : β → Prop} (hx : Abides T x P) (hf : ∀ a, P a → R (f a)) :
    Abides T (f <$> x) R := by
  rw [← bind_pure_comp]
  exact hx.bind fun a ha => .pure (hf a ha)

theorem here : Abides T Dxil.here fun _ => True :=
  fun _ => ⟨_, .gives (by simp) trivial, .here⟩

theorem report {f : Finding} (hf : T.notes f) : Abides T (Dxil.report f) fun _ => True :=
  fun _ => ⟨_, .gives (by simpa using hf) trivial, .report f⟩

theorem reportIf {c : Prop} [Decidable c] {f : Finding} (hf : T.notes f) :
    Abides T (Dxil.reportIf c f) fun _ => True := by
  unfold Dxil.reportIf
  split
  · exact .report hf
  · exact .pure trivial

/-! ## Giving up -/

theorem rejectAs {f : Finding} (hf : T.blames f) (h : T.leaves none) :
    Abides T (Dxil.reject f : Decoder α) Q :=
  fun _ => ⟨⟨[] ++ [f], _⟩, .rejects (by simp) hf h, .reject f⟩

theorem reject {f : Finding} (hf : f.isError = true) (h : T.leaves none) :
    Abides T (Dxil.reject f : Decoder α) Q :=
  rejectAs (T.error f hf) h

theorem abandon (hsilent : T.silent) (h : T.leaves none) :
    Abides T (Dxil.abandon : Decoder α) Q :=
  fun _ => ⟨_, .abandons (by simp) hsilent h, .throw _⟩

theorem dangling (h : T.dangles) : Abides T (throw .dangling : Decoder α) Q :=
  fun _ => ⟨_, .dangles (by simp) h, .throw _⟩

theorem rejectIf {c : Prop} [Decidable c] {f : Finding} (hf : f.isError = true)
    (h : c → T.leaves none) : Abides T (Dxil.rejectIf c f) fun _ => ¬ c := by
  unfold Dxil.rejectIf
  split <;> rename_i hc
  · exact .reject hf (h hc)
  · exact .pure hc

theorem orReject {o : Option α} {f : Finding} (hf : f.isError = true)
    (h : o = none → T.leaves none) : Abides T (Dxil.orReject o f) fun a => o = some a := by
  cases o with
  | none => exact .reject hf (h rfl)
  | some a => exact .pure rfl

theorem present {o : Option α} (h : o = none → T.dangles) :
    Abides T (Dxil.present o) fun a => o = some a := by
  cases o with
  | none => exact dangling (h rfl)
  | some a => exact .pure rfl

theorem typed {type : Option TypeId}
    (hx : Abides { T with leaves := fun _ => T.leaves type } x Q) :
    Abides T (Dxil.typed type x) Q := by
  intro location
  obtain ⟨A, hA, hrun⟩ := hx location
  refine ⟨A.typed type, ?_, hrun.typed type⟩
  cases hA with
  | gives hnotes ha => exact .gives hnotes ha
  | rejects hnotes hf htype => exact .rejects hnotes hf htype
  | abandons hnotes hsilent htype => exact .abandons hnotes hsilent htype
  | dangles hnotes h => exact .dangles hnotes h

/-- What `x` finds and gives up for is found on the way. -/
theorem attempt (hx : Abides T x Q) (hnotes : ∀ f, T.notes f → T'.notes f)
    (hblames : ∀ f, T.blames f → T'.notes f) (hdangles : T.dangles → T'.dangles) :
    Abides T' (Dxil.attempt x) fun result =>
      (∀ a, result = .ok a → Q a) ∧ ∀ type, result = .error type → T.leaves type := by
  intro location
  obtain ⟨A, hA, hrun⟩ := hx location
  refine ⟨A.attempt, ?_, hrun.attempt⟩
  cases hA with
  | gives hfound ha =>
    refine .gives (fun f hf => hnotes f (hfound f hf)) ⟨?_, by rintro _ ⟨⟩⟩
    rintro _ ⟨⟩
    exact ha
  | @rejects found f type hfound hf htype =>
    refine .gives ?_ ⟨by rintro _ ⟨⟩, ?_⟩
    · refine List.forall_mem_append.mpr ⟨fun f hf => hnotes f (hfound f hf), ?_⟩
      simpa using hblames f hf
    · rintro _ ⟨⟩
      exact htype
  | abandons hfound hsilent htype =>
    refine .gives (fun f hf => hnotes f (hfound f hf)) ⟨by rintro _ ⟨⟩, ?_⟩
    rintro _ ⟨⟩
    exact htype
  | dangles hfound h => exact .dangles (fun f hf => hnotes f (hfound f hf)) (hdangles h)

/-- Where `x` gives up, an error is reported after the one that it gave up for, if any. -/
theorem orReport {f : Finding} (hf : f.isError = true) (hnotes : ∀ f, f.isError = true → T.notes f)
    (hx : Abides T.deferred x Q) : Abides T (Dxil.orReport x (Dxil.report f)) Q := by
  intro location
  obtain ⟨A, hA, hrun⟩ := hx location
  refine ⟨A.orReport f, ?_, hrun.orReport f⟩
  cases hA with
  | gives hfound ha => exact .gives hfound ha
  | @rejects found f' type hfound hf' htype =>
    refine .rejects (List.forall_mem_append.mpr ⟨hfound, ?_⟩) (T.error f hf) htype
    exact List.forall_mem_singleton.mpr (hnotes f' hf')
  | abandons hfound hsilent htype => exact .rejects hfound (T.error f hf) htype
  | dangles hfound h => exact .dangles hfound h

/-! ## Operands -/

theorem requireOperands (r : Record) (least : Nat)
    (h : r.operands.length < least → T.leaves none) :
    Abides T (Dxil.requireOperands r least) fun _ => least ≤ r.operands.length :=
  (rejectIf rfl h).mono fun _ h => Nat.le_of_not_lt h

theorem ignoreBeyond (r : Record) (most : Nat) (hcounts : T.Counts r most) :
    Abides T (Dxil.ignoreBeyond r most) fun _ => True := by
  unfold Dxil.ignoreBeyond Dxil.reportIf
  split
  · exact .report (hcounts ‹_› _)
  · exact .pure trivial

theorem checkOperands (r : Record) (least most : Nat)
    (h : r.operands.length < least → T.leaves none) (hcounts : T.Counts r most) :
    Abides T (Dxil.checkOperands r least most) fun _ => least ≤ r.operands.length :=
  (requireOperands r least h).bind fun _ h => (ignoreBeyond r most hcounts).mono fun _ _ => h

theorem operand {r : Record} {i : Nat} (h : i < r.operands.length) :
    Abides T (Dxil.operand r i) fun v => r.operands[i]? = some v :=
  present fun hnone => by
    rw [List.getElem?_eq_getElem h] at hnone
    cases hnone

theorem skipOperand {r : Record} {i : Nat} (h : i < r.operands.length) :
    Abides T (Dxil.skipOperand r i) fun _ => True :=
  (operand h).bind fun _ _ => .pure trivial

theorem operandsFrom {r : Record} {i : Nat} (h : i ≤ r.operands.length) :
    Abides T (Dxil.operandsFrom r i) fun vs => vs = r.operands.drop i := by
  rw [Dxil.operandsFrom, if_pos h]
  exact .pure rfl

/-! ## Loops -/

theorem mapM {l : List α} {f : α → Decoder β} {g : α → β} {R : β → Prop}
    (h : ∀ a ∈ l, Abides T (f a) fun b => b = g a ∧ R b) :
    Abides T (l.mapM f) fun bs => bs = l.map g ∧ ∀ b ∈ bs, R b := by
  induction l with
  | nil =>
    rw [List.mapM_nil]
    exact .pure (by simp)
  | cons a l ih =>
    rw [List.mapM_cons]
    refine (h a List.mem_cons_self).bind fun b hb =>
      (ih fun a ha => h a (List.mem_cons_of_mem _ ha)).bind fun bs hbs => .pure ⟨?_, ?_⟩
    · rw [hb.1, hbs.1, List.map_cons]
    · exact List.forall_mem_cons.mpr ⟨hb.2, hbs.2⟩

theorem forM {l : List α} {f : α → Decoder PUnit} (h : ∀ a ∈ l, Abides T (f a) fun _ => True) :
    Abides T (l.forM f) fun _ => True := by
  induction l with
  | nil => exact .pure trivial
  | cons a l ih =>
    rw [List.forM]
    exact (h a List.mem_cons_self).bind fun _ _ => ih fun a ha => h a (List.mem_cons_of_mem _ ha)

/-! ## What follows -/

section

variable {p p' : Progress} {a : α} {type : Option TypeId}

theorem of_ok (hx : Abides T x Q) (h : x p = .ok a p') :
    ∃ new, p' = p.addAll new ∧ (∀ f ∈ new, T.notes f) ∧ Q a := by
  obtain ⟨A, hA, hrun⟩ := hx p.location
  rw [hrun p rfl] at h
  cases hA with
  | gives hnotes ha =>
    cases h
    exact ⟨_, rfl, hnotes, ha⟩
  | _ => cases h

/-- Without a finding to blame, `x` was free to give up. -/
theorem of_invalid (hx : Abides T x Q) (h : x p = .error (.invalid type) p') :
    ∃ new, p' = p.addAll new ∧ T.leaves type ∧ (T.silent ∨ ∃ f ∈ new, T.blames f) := by
  obtain ⟨A, hA, hrun⟩ := hx p.location
  rw [hrun p rfl] at h
  cases hA with
  | gives => cases h
  | rejects hnotes hf htype =>
    cases h
    exact ⟨_, rfl, htype, .inr ⟨_, by simp, hf⟩⟩
  | abandons hnotes hsilent htype =>
    cases h
    exact ⟨_, rfl, htype, .inl hsilent⟩
  | dangles => cases h

theorem of_dangling (hx : Abides T x Q) (h : x p = .error .dangling p') : T.dangles := by
  obtain ⟨A, hA, hrun⟩ := hx p.location
  rw [hrun p rfl] at h
  cases hA with
  | dangles hnotes hdangles => exact hdangles
  | _ => cases h

end

theorem exists_ok (hx : Abides T x Q) (hleaves : ∀ type, ¬ T.leaves type) (hdangles : ¬ T.dangles)
    (p : Progress) : ∃ a p', x p = .ok a p' := by
  obtain ⟨A, hA, hrun⟩ := hx p.location
  rw [hrun p rfl]
  cases hA with
  | gives => exact ⟨_, _, rfl⟩
  | rejects _ _ htype | abandons _ _ htype => exact absurd htype (hleaves _)
  | dangles _ h => exact absurd h hdangles

theorem gives (hx : Abides T x Q) : Gives x Q := by
  intro p a p' h
  obtain ⟨_, _, _, ha⟩ := hx.of_ok h
  exact ha

end Abides

/-- On the terms, giving up is as `E` allows, and there is no access that leads nowhere. -/
structure Terms.Within (T : Terms) (E : GivesUp) : Prop where
  blames : ∀ f type failed, T.blames f → T.leaves type → (f.isError = true → failed = true) →
    E.allows failed type
  silent : T.silent → ∀ type failed, T.leaves type → E.allows failed type
  dangles : ¬ T.dangles

theorem Abides.ensures {α : Type} {T : Terms} {E : GivesUp} {x : Decoder α} {Q : α → Prop}
    (hx : Abides T x Q) (hT : T.Within E) : Ensures E x Q := by
  intro p hp
  obtain ⟨A, hA, hrun⟩ := hx p.location
  rw [hrun p rfl]
  cases hA with
  | gives hnotes ha => exact ⟨.addAll hp _, ha⟩
  | rejects hnotes hf htype =>
    refine ⟨.addAll hp _, hT.blames _ _ _ hf htype fun herror => ?_⟩
    simp [herror]
  | abandons hnotes hsilent htype => exact ⟨.addAll hp _, hT.silent hsilent _ _ htype⟩
  | dangles hnotes h => exact absurd h hT.dangles

/-- Terms of which no decoder of a record need say more: it gives up for an error, leaves no type
and has a reason. -/
def Terms.strict (notes : Finding → Prop) (reason dangles : Prop) : Terms where
  notes
  blames f := f.isError = true
  silent := False
  leaves type := type = none ∧ reason
  dangles
  error _ h := h

/-- Where there is nothing to be found on the way, nothing is reported. -/
theorem Abides.unreported {α : Type} {T : Terms} {x : Decoder α} {Q : α → Prop} {p p' : Progress}
    {a : α} (hx : Abides T x Q) (hnotes : ∀ f, ¬ T.notes f) (h : x p = .ok a p') :
    p' = p ∧ Q a := by
  obtain ⟨new, rfl, hnew, ha⟩ := hx.of_ok h
  obtain rfl : new = [] :=
    List.eq_nil_iff_forall_not_mem.mpr fun f hf => hnotes f (hnew f hf)
  exact ⟨Progress.addAll_nil, ha⟩

theorem Abides.ok_or_rejected {α : Type} {x : Decoder α} {Q : α → Prop} {reason : Prop}
    (hx : Abides (.strict (fun _ => False) reason False) x Q) (p : Progress) :
    (∃ a, x p = .ok a p ∧ Q a) ∨
      reason ∧ ∃ f : Finding, f.isError = true ∧
        x p = .error (.invalid none) (p.add ⟨p.location, f⟩) := by
  obtain ⟨A, hA, hrun⟩ := hx p.location
  rw [hrun p rfl]
  cases hA with
  | gives hnotes ha =>
    obtain rfl := List.eq_nil_iff_forall_not_mem.mpr hnotes
    exact .inl ⟨_, congrArg (EStateM.Result.ok _) Progress.addAll_nil, ha⟩
  | @rejects found f type hnotes hf htype =>
    obtain rfl := List.eq_nil_iff_forall_not_mem.mpr hnotes
    obtain ⟨rfl, hreason⟩ := htype
    refine .inr ⟨hreason, f, hf, ?_⟩
    rw [Progress.add_eq_addAll]
    rfl
  | abandons _ hsilent => exact hsilent.elim
  | dangles _ h => exact h.elim

theorem Abides.eq_ok {α : Type} {x : Decoder α} {a : α}
    (hx : Abides (.strict (fun _ => False) False False) x (· = a)) (p : Progress) :
    x p = .ok a p := by
  obtain ⟨_, hrun, rfl⟩ | ⟨hreason, -⟩ := hx.ok_or_rejected p
  · exact hrun
  · exact hreason.elim

theorem Terms.within_strict {notes : Finding → Prop} {reason dangles : Prop} {E : GivesUp}
    (h : ¬ dangles) : (Terms.strict notes reason dangles).Within E where
  blames := by
    rintro f type failed hf ⟨rfl, -⟩ hfailed
    rw [hfailed hf]
    exact E.rejected
  silent := False.elim
  dangles := h

def Terms.any : Terms where
  notes _ := True
  blames _ := True
  silent := True
  leaves _ := True
  dangles := True
  error _ _ := trivial

/-- Anything may be found, and to give up is for an error. -/
abbrev Terms.safe : Terms := .strict (fun _ => True) True False

theorem Terms.within_safe {E : GivesUp} : Terms.safe.Within E := within_strict id

end Dxil
