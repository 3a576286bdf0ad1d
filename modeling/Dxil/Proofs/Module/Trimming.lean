import Dxil.Proofs.Module.Abides

/-!
# Dxil.Proofs.Module.Trimming

Two runs of a decoder, on a record and on the first operands of it.

* `Terms.quiet` : nothing is reported about ignored operands.
* `Trims n x y` : either `x` reports nothing about ignored operands, or it reports once that `n` are
  ignored, and `y` does what `x` does but for that report.
* `Ignores lost x r` : where `x` reports that operands of `r` are ignored, it does what it does
  without these operands and `lost` more before them.

The rules for `Trims` take records apart: what is read before the operands are counted, the count,
and what is read after it.
-/

namespace Dxil

abbrev Outcome (α : Type) := EStateM.Result Stop Progress α

namespace Outcome

variable {α : Type}

def progress : Outcome α → Progress
  | .ok _ p | .error _ p => p

def setReports (reports : Array Report) : Outcome α → Outcome α
  | .ok a p => .ok a { p with reports }
  | .error e p => .error e { p with reports }

/-- A run that started from `p` added a report of `f`. -/
def Reports (o : Outcome α) (p : Progress) (f : Finding) : Prop :=
  ∃ k location, p.reports.size ≤ k ∧ (progress o).reports[k]? = some ⟨location, f⟩

end Outcome

def NoneIgnored (found : List Finding) : Prop := ∀ f ∈ found, f.isIgnoredOperands = false

theorem NoneIgnored.append {found found' : List Finding} (h : NoneIgnored found)
    (h' : NoneIgnored found') : NoneIgnored (found ++ found') :=
  List.forall_mem_append.mpr ⟨h, h'⟩

/-- Anything may be found and come of it, but nothing about ignored operands. -/
def Terms.quiet : Terms where
  notes f := f.isIgnoredOperands = false
  blames f := f.isIgnoredOperands = false
  silent := True
  leaves _ := True
  dangles := True
  error _ := Finding.not_isIgnoredOperands_of_isError

theorem Terms.Allows.noneIgnored {α : Type} {Q : α → Prop} {A : Answer α}
    (h : Terms.quiet.Allows Q A) : NoneIgnored A.found := by
  cases h with
  | gives hnotes | abandons hnotes | dangles hnotes => exact hnotes
  | rejects hnotes hf => exact NoneIgnored.append hnotes (List.forall_mem_singleton.mpr hf)

/-! ## The first operands of a record -/

namespace Record

def first (r : Record) (n : Nat) : Record := { r with operands := r.operands.take n }

def without (r : Record) (n : Nat) : Record := r.first (r.operands.length - n)

variable {r : Record} {i least most n : Nat}

@[simp]
theorem first_code : (r.first n).code = r.code := rfl

theorem length_first : (r.first n).operands.length = min n r.operands.length := List.length_take

theorem operand_first (h : i < n) : operand (r.first n) i = operand r i := by
  rw [operand, operand, first, List.getElem?_take_of_lt h]

theorem getD_first (d : UInt64) (h : i < n) :
    (r.first n).operands.getD i d = r.operands.getD i d := by
  rw [List.getD_eq_getElem?_getD, List.getD_eq_getElem?_getD, first, List.getElem?_take_of_lt h]

theorem skipOperand_first (h : i < n) : skipOperand (r.first n) i = skipOperand r i := by
  rw [skipOperand, operand_first h, skipOperand]

theorem skipOperands_first {l : List Nat} (h : ∀ i ∈ l, i < n) :
    l.forM (skipOperand (r.first n)) = l.forM (skipOperand r) := by
  induction l with
  | nil => rfl
  | cons i l ih =>
    rw [List.forM, List.forM, skipOperand_first (h i List.mem_cons_self),
      ih fun i hi => h i (List.mem_cons_of_mem _ hi)]

theorem requireOperands_first (h : least ≤ n) :
    requireOperands (r.first n) least = requireOperands r least := by
  unfold requireOperands rejectIf
  rw [length_first]
  by_cases hr : r.operands.length < least
  · rw [if_pos (by omega), if_pos hr, Nat.min_eq_right (by omega)]
  · rw [if_neg (by omega), if_neg hr]

theorem ignoreBeyond_first (h : n ≤ most) : ignoreBeyond (r.first n) most = pure () := by
  unfold ignoreBeyond reportIf
  rw [length_first, if_neg (by omega)]

theorem checkOperands_of_lt (hleast : least ≤ most) (h : most < r.operands.length) :
    checkOperands r least most = ignoreBeyond r most := by
  unfold checkOperands requireOperands rejectIf
  rw [if_neg (by omega), pure_bind]

theorem checkOperands_first (hleast : least ≤ most) (h : most < r.operands.length) :
    checkOperands (r.first most) least most = pure () := by
  unfold checkOperands requireOperands rejectIf
  rw [length_first, if_neg (by omega), pure_bind, ignoreBeyond_first (Nat.le_refl most)]

end Record

theorem Terms.counts_first (T : Terms) (r : Record) (most : Nat) :
    T.Counts (r.first most) most := by
  intro h
  rw [Record.length_first] at h
  omega

/-! ## Runs that differ by one report -/

/-- `x` does what `y` does, but for a report in between that `n` operands are ignored, or it makes
no such report at all. -/
def Trims {α : Type} (n : Nat) (x y : Decoder α) : Prop :=
  ∀ location, ∃ before after result, NoneIgnored before ∧ NoneIgnored after ∧
    (ComesTo x location ⟨before ++ after, result⟩ ∨
      0 < n ∧ ComesTo x location ⟨before ++ .ignoredOperands n :: after, result⟩ ∧
        ComesTo y location ⟨before ++ after, result⟩)

namespace Trims

variable {α β : Type} {n : Nat} {x y : Decoder α} {r : Record} {P Q : α → Prop}

theorem of_quiet (hx : Abides .quiet x Q) : Trims n x y := by
  intro location
  obtain ⟨A, hA, hrun⟩ := hx location
  refine ⟨A.found, [], A.result, hA.noneIgnored, by simp [NoneIgnored], .inl ?_⟩
  rwa [List.append_nil]

/-- What comes first may differ where it gives up, since nothing is reported after that. -/
theorem after_of_ok {f g : α → Decoder β} (hx : Abides .quiet x P)
    (hy : ∀ p a p', x p = .ok a p' → y p = .ok a p')
    (hf : ∀ a, P a → Trims n (f a) (g a)) : Trims n (x >>= f) (y >>= g) := by
  intro location
  obtain ⟨A, hA, hrun⟩ := hx location
  have hnone := hA.noneIgnored
  obtain ⟨found, e | a⟩ := A
  · refine ⟨found, [], .error e, hnone, by simp [NoneIgnored], .inl ?_⟩
    rw [List.append_nil]
    exact hrun.bind_error
  · have ha : P a := by
      cases hA
      assumption
    have hother : ComesTo y location ⟨found, .ok a⟩ := fun p hp => hy p a _ (hrun p hp)
    obtain ⟨before, after, result, hbefore, hafter, hboth⟩ := hf a ha location
    refine ⟨found ++ before, after, result, hnone.append hbefore, hafter, ?_⟩
    simp only [List.append_assoc]
    rcases hboth with hfirst | ⟨hn, hfirst, hsecond⟩
    · exact .inl (hrun.bind hfirst)
    · exact .inr ⟨hn, hrun.bind hfirst, hother.bind hsecond⟩

theorem after {f g : α → Decoder β} (hx : Abides .quiet x P)
    (hf : ∀ a, P a → Trims n (f a) (g a)) : Trims n (x >>= f) (x >>= g) :=
  after_of_ok hx (fun _ _ _ h => h) hf

theorem andThen {f : α → Decoder β} {R : β → Prop} (h : Trims n x y)
    (hf : ∀ a, Abides .quiet (f a) R) : Trims n (x >>= f) (y >>= f) := by
  intro location
  obtain ⟨before, after, result, hbefore, hafter, hboth⟩ := h location
  cases result with
  | error e =>
    refine ⟨before, after, .error e, hbefore, hafter, hboth.imp ComesTo.bind_error ?_⟩
    rintro ⟨hn, hfirst, hsecond⟩
    exact ⟨hn, hfirst.bind_error, hsecond.bind_error⟩
  | ok a =>
    obtain ⟨B, hB, hrest⟩ := hf a location
    refine ⟨before, after ++ B.found, B.result, hbefore, hafter.append hB.noneIgnored, ?_⟩
    simp only [← List.cons_append, ← List.append_assoc]
    rcases hboth with hfirst | ⟨hn, hfirst, hsecond⟩
    · exact .inl (hfirst.bind hrest)
    · exact .inr ⟨hn, hfirst.bind hrest, hsecond.bind hrest⟩

theorem typed {type : Option TypeId} (h : Trims n x y) :
    Trims n (Dxil.typed type x) (Dxil.typed type y) := by
  intro location
  obtain ⟨before, after, result, hbefore, hafter, hboth⟩ := h location
  refine ⟨before, after, _, hbefore, hafter, hboth.imp (ComesTo.typed type) ?_⟩
  rintro ⟨hn, hfirst, hsecond⟩
  exact ⟨hn, hfirst.typed type, hsecond.typed type⟩

theorem attempt (h : Trims n x y) : Trims n (Dxil.attempt x) (Dxil.attempt y) := by
  intro location
  obtain ⟨before, after, result, hbefore, hafter, hboth⟩ := h location
  refine ⟨before, after, _, hbefore, hafter, hboth.imp ComesTo.attempt ?_⟩
  rintro ⟨hn, hfirst, hsecond⟩
  exact ⟨hn, hfirst.attempt, hsecond.attempt⟩

theorem orReport {f : Finding} (hf : f.isIgnoredOperands = false) (h : Trims n x y) :
    Trims n (Dxil.orReport x (report f)) (Dxil.orReport y (report f)) := by
  intro location
  obtain ⟨before, after, result, hbefore, hafter, hboth⟩ := h location
  have hboth' := hboth.imp (ComesTo.orReport f) fun ⟨hn, hfirst, hsecond⟩ =>
    And.intro hn (And.intro (hfirst.orReport f) (hsecond.orReport f))
  obtain (type | _) | a := result
  · have hlast : NoneIgnored [f] := List.forall_mem_singleton.mpr hf
    refine ⟨before, after ++ [f], .error (.invalid type), hbefore, hafter.append hlast, ?_⟩
    simp only [← List.cons_append, ← List.append_assoc]
    exact hboth'
  · exact ⟨before, after, .error .dangling, hbefore, hafter, hboth'⟩
  · exact ⟨before, after, .ok a, hbefore, hafter, hboth'⟩

/-- What follows the count reports nothing about ignored operands, and is the same in both runs if
there are any. -/
theorem ignoreBeyond {most : Nat} (hx : Abides .quiet x Q)
    (h : most < r.operands.length → y = x) :
    Trims (r.operands.length - most) (do ignoreBeyond r most; x) y := by
  unfold Dxil.ignoreBeyond reportIf
  by_cases hmost : most < r.operands.length
  · rw [if_pos hmost, h hmost]
    intro location
    obtain ⟨A, hA, hrun⟩ := hx location
    refine ⟨[], A.found, A.result, by simp [NoneIgnored], hA.noneIgnored, .inr ⟨by omega, ?_, hrun⟩⟩
    exact (ComesTo.report _).bind hrun
  · rw [if_neg hmost]
    exact of_quiet hx

theorem checkOperands {least most kept : Nat} (hleast : least ≤ kept) (hkept : kept ≤ most)
    (hx : least ≤ r.operands.length → Abides .quiet x Q) (h : most < r.operands.length → y = x) :
    Trims (r.operands.length - most) (do checkOperands r least most; x)
      (do checkOperands (r.first kept) least most; y) := by
  unfold Dxil.checkOperands
  rw [Record.requireOperands_first hleast, Record.ignoreBeyond_first hkept]
  simp only [bind_assoc, pure_bind]
  exact after (.requireOperands r least fun _ => trivial) fun _ hlen => ignoreBeyond (hx hlen) h

theorem of_count {x : Record → Decoder α} {most : Nat} (hx : Abides .quiet (x (r.first most)) Q)
    (h : most < r.operands.length → x r = (do Dxil.ignoreBeyond r most; x (r.first most))) :
    Trims (r.operands.length - most) (x r) (x (r.first most)) := by
  by_cases hmost : most < r.operands.length
  · rw [h hmost]
    exact .ignoreBeyond hx fun _ => rfl
  · have hfirst : r.first most = r := by
      rw [Record.first, List.take_of_length_le (Nat.le_of_not_lt hmost)]
    rw [hfirst] at hx ⊢
    exact of_quiet hx

end Trims

/-- Where `x` reports that operands of `r` are ignored, it does what it does to the record without
these, and without `lost` more before them, but for that report. -/
def Ignores {α : Type} (lost : Nat) (x : Record → Decoder α) (r : Record) : Prop :=
  ∀ p n, Outcome.Reports (x r p) p (.ignoredOperands n) →
    ∃ before location after,
      (Outcome.progress (x r p)).reports =
        p.reports ++ before ++ #[⟨location, .ignoredOperands n⟩] ++ after ∧
      x (r.without (n + lost)) p = Outcome.setReports (p.reports ++ before ++ after) (x r p)

section

variable {α : Type} {A : Answer α} {p : Progress} {before after : List Finding} {n : Nat}

theorem Answer.reports_outcome :
    (Outcome.progress (A.outcome p)).reports =
      p.reports ++ (A.found.map (Report.mk p.location)).toArray := by
  unfold Answer.outcome
  cases A.result <;> rfl

theorem Answer.mem_found {f : Finding} (h : Outcome.Reports (A.outcome p) p f) : f ∈ A.found := by
  obtain ⟨k, location, hk, hget⟩ := h
  rw [reports_outcome, Array.getElem?_append_right hk] at hget
  have hmem := Array.mem_of_getElem? hget
  simp only [List.mem_toArray, List.mem_map] at hmem
  obtain ⟨f', hf', heq⟩ := hmem
  cases heq
  exact hf'

theorem Answer.not_reports (h : NoneIgnored A.found) :
    ¬ Outcome.Reports (A.outcome p) p (.ignoredOperands n) := by
  intro hreports
  cases h _ (mem_found hreports)

/-- The only report about ignored operands is the one in the middle. -/
theorem Answer.eq_of_reports {m : Nat} (hbefore : NoneIgnored before) (hafter : NoneIgnored after)
    (hfound : A.found = before ++ .ignoredOperands m :: after)
    (h : Outcome.Reports (A.outcome p) p (.ignoredOperands n)) : n = m := by
  have hmem := mem_found h
  rw [hfound] at hmem
  simp only [List.mem_append, List.mem_cons] at hmem
  rcases hmem with hmem | hmem | hmem
  · cases hbefore _ hmem
  · injection hmem
  · cases hafter _ hmem

/-- That operands are ignored is no error, so that nothing else depends on whether it is
reported. -/
theorem Answer.outcome_without {result : Except Stop α} :
    outcome ⟨before ++ after, result⟩ p =
      Outcome.setReports (p.reports ++ (before.map (Report.mk p.location)).toArray ++
        (after.map (Report.mk p.location)).toArray)
        (outcome ⟨before ++ .ignoredOperands n :: after, result⟩ p) := by
  have hadd : p.addAll (before ++ after) =
      { p.addAll (before ++ .ignoredOperands n :: after) with
        reports := p.reports ++ (before.map (Report.mk p.location)).toArray ++
          (after.map (Report.mk p.location)).toArray } := by
    have hwarning : (Finding.ignoredOperands n).isError = false := rfl
    simp [Progress.addAll, hwarning]
  unfold outcome
  cases result <;> simp only [hadd] <;> rfl

end

theorem Trims.ignores {α : Type} {x : Record → Decoder α} {r : Record} {most lost : Nat}
    (hlost : lost ≤ most)
    (h : Trims (r.operands.length - most) (x r) (x (r.first (most - lost)))) :
    Ignores lost x r := by
  intro p n hn
  obtain ⟨before, after, result, hbefore, hafter, hfirst | ⟨hpos, hfirst, hsecond⟩⟩ := h p.location
  · rw [hfirst p rfl] at hn
    exact absurd hn (Answer.not_reports (hbefore.append hafter))
  · rw [hfirst p rfl] at hn ⊢
    obtain rfl := Answer.eq_of_reports hbefore hafter rfl hn
    refine ⟨(before.map (Report.mk p.location)).toArray, p.location,
      (after.map (Report.mk p.location)).toArray, ?_, ?_⟩
    · rw [Answer.reports_outcome]
      simp
    · rw [Record.without,
        show r.operands.length - (r.operands.length - most + lost) = most - lost by omega,
        hsecond p rfl, Answer.outcome_without]

theorem Abides.ignores {α : Type} {x : Record → Decoder α} {r : Record} {lost : Nat}
    {Q : α → Prop} (h : Abides .quiet (x r) Q) : Ignores lost x r := by
  intro p n hn
  obtain ⟨A, hA, hrun⟩ := h p.location
  rw [hrun p rfl] at hn
  exact absurd hn (Answer.not_reports hA.noneIgnored)

end Dxil
