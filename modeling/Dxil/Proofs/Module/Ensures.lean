import Dxil.Module.Decoder

/-!
# Dxil.Proofs.Module.Ensures

What can be said of a decoder without running it.

* `Progress.Consistent` : decoding counts as failed exactly if an error was reported.
* `GivesUp` : what a decoder may leave behind when it gives up.
* `Progress.Continues` : nothing that was reported is lost.
* `Ensures E x Q` : from consistent progress, `x` makes no access that leads nowhere, keeps its
  progress consistent and what was reported, and either gives a result with `Q` or gives up as `E`
  allows.
* `Yields x a` : there is progress from which `x` gives `a`.
* `Gives x Q` : from any progress, what `x` gives has `Q`.

The rules follow the way decoders are put together. A decoder then has one lemma, named after it.
-/

namespace Dxil

/-- The flag says what the reports say. -/
def Progress.Consistent (p : Progress) : Prop :=
  p.failed = p.reports.any fun r => r.finding.isError

theorem Progress.Consistent.add {p : Progress} (h : p.Consistent) (r : Report) :
    (p.add r).Consistent := by
  unfold Progress.Consistent at h ⊢
  simp [Progress.add, h]

/-- A condition on how a decoder gives up: whether decoding counts as failed, and the type of the
value that is not defined. To give up after an error and without a type is always allowed. -/
structure GivesUp where
  allows : (failed : Bool) → (type : Option TypeId) → Prop
  rejected : allows true none

namespace GivesUp

def anyhow : GivesUp := ⟨fun _ _ => True, trivial⟩

def loudly : GivesUp := ⟨fun failed _ => failed = true, rfl⟩

end GivesUp

/-- From `p` to `p'`, reports on the same source were only added, and the flag says what they
say. -/
structure Progress.Continues (p p' : Progress) : Prop where
  consistent : p'.Consistent
  source : p'.location.source = p.location.source
  reports : p.reports.toList <+: p'.reports.toList

namespace Progress.Continues

variable {p p' p'' : Progress}

theorem refl (h : p.Consistent) : p.Continues p := ⟨h, rfl, List.prefix_rfl⟩

theorem trans (h : p.Continues p') (h' : p'.Continues p'') : p.Continues p'' :=
  ⟨h'.consistent, h'.source.trans h.source, h.reports.trans h'.reports⟩

theorem not_failed (h : p.Continues p') (hp : p.Consistent) (hok : p'.failed = false) :
    p.failed = false := by
  obtain ⟨later, hlater⟩ := h.reports
  rw [h.consistent, ← Array.any_toList, ← hlater, List.any_append, Bool.or_eq_false_iff] at hok
  rw [hp, ← Array.any_toList]
  exact hok.1

theorem add (h : p.Consistent) (r : Report) : p.Continues (p.add r) :=
  ⟨h.add r, rfl, ⟨[r], by simp [Progress.add]⟩⟩

end Progress.Continues

def Meets {α : Type} (E : GivesUp) (Q : α → Prop) (p : Progress) :
    EStateM.Result Stop Progress α → Prop
  | .ok a p' => p.Continues p' ∧ Q a
  | .error (.invalid type) p' => p.Continues p' ∧ E.allows p'.failed type
  | .error .dangling _ => False

/-- `x` makes no access that leads nowhere, and its outcome is as `E` and `Q` say. -/
def Ensures {α : Type} (E : GivesUp) (x : Decoder α) (Q : α → Prop) : Prop :=
  ∀ p : Progress, p.Consistent → Meets E Q p (x p)

namespace Ensures

variable {α β σ : Type} {E E' : GivesUp} {x : Decoder α} {P Q : α → Prop}

theorem pure {a : α} (h : Q a) : Ensures E (Pure.pure a) Q := fun _ hp => ⟨.refl hp, h⟩

theorem bind {f : α → Decoder β} {R : β → Prop} (hx : Ensures E x P)
    (hf : ∀ a, P a → Ensures E (f a) R) : Ensures E (x >>= f) R := by
  intro p hp
  have h := hx p hp
  change Meets E R p (EStateM.bind x f p)
  unfold EStateM.bind
  generalize x p = r at h
  match r, h with
  | .ok a p', ⟨hp', ha⟩ =>
    have h' := hf a ha p' hp'.consistent
    dsimp only
    generalize f a p' = r at h'
    match r, h' with
    | .ok _ _, h' => exact ⟨hp'.trans h'.1, h'.2⟩
    | .error (.invalid _) _, h' => exact ⟨hp'.trans h'.1, h'.2⟩
  | .error (.invalid _) _, h => exact h

theorem mono (hx : Ensures E x P) (h : ∀ a, P a → Q a) : Ensures E x Q := by
  intro p hp
  have hq := hx p hp
  generalize x p = r at hq
  match r, hq with
  | .ok a _, hq => exact ⟨hq.1, h a hq.2⟩
  | .error (.invalid _) _, hq => exact hq

theorem map {f : α → β} {R : β → Prop} (hx : Ensures E x P) (hf : ∀ a, P a → R (f a)) :
    Ensures E (f <$> x) R := by
  rw [← bind_pure_comp]
  exact hx.bind fun a ha => .pure (hf a ha)

theorem modify {f : Progress → Progress}
    (h : ∀ p : Progress, p.Consistent → p.Continues (f p)) :
    Ensures E (modify f) fun _ => True := fun p hp => ⟨h p hp, trivial⟩

theorem setLine (line : UInt32) : Ensures E (Dxil.setLine line) fun _ => True :=
  modify fun _ hp => ⟨hp, rfl, List.prefix_rfl⟩

theorem setColumn (column : Nat) : Ensures E (Dxil.setColumn column) fun _ => True :=
  modify fun _ hp => ⟨hp, rfl, List.prefix_rfl⟩

theorem here : Ensures E Dxil.here fun _ => True := fun _ hp => ⟨.refl hp, trivial⟩

theorem report (f : Finding) : Ensures E (Dxil.report f) fun _ => True :=
  modify fun _ hp => .add hp _

theorem reportIf (c : Prop) [Decidable c] (f : Finding) :
    Ensures E (Dxil.reportIf c f) fun _ => True := by
  unfold Dxil.reportIf
  split
  · exact .report f
  · exact .pure trivial

/-! ## Giving up -/

theorem reject {f : Finding} (hf : f.isError = true) : Ensures E (Dxil.reject f : Decoder α) Q := by
  intro p hp
  have hfailed : (p.add ⟨p.location, f⟩).failed = true := by simp [Progress.add, hf]
  exact ⟨.add hp _, hfailed ▸ E.rejected⟩

theorem abandon (h : ∀ failed, E.allows failed none) : Ensures E (Dxil.abandon : Decoder α) Q :=
  fun p hp => ⟨.refl hp, h p.failed⟩

theorem rejectIf {c : Prop} [Decidable c] {f : Finding} (hf : f.isError = true) :
    Ensures E (Dxil.rejectIf c f) fun _ => ¬ c := by
  unfold Dxil.rejectIf
  split
  · exact .reject hf
  · exact .pure ‹_›

theorem orReject {o : Option α} {f : Finding} (hf : f.isError = true) :
    Ensures E (Dxil.orReject o f) fun a => o = some a := by
  cases o with
  | none => exact .reject hf
  | some a => exact .pure rfl

theorem present {o : Option α} (h : ∃ a, o = some a) :
    Ensures E (Dxil.present o) fun a => o = some a := by
  obtain ⟨a, rfl⟩ := h
  exact .pure rfl

theorem orReport {f : Decoder Unit} (hx : Ensures .anyhow x Q)
    (hf : ∀ p, ∃ r : Report, r.finding.isError = true ∧ f p = .ok () (p.add r)) :
    Ensures .loudly (Dxil.orReport x f) Q := by
  intro p hp
  have hq := hx p hp
  unfold Dxil.orReport
  generalize x p = r at hq
  match r, hq with
  | .ok _ _, hq => exact hq
  | .error (.invalid _) p', hq =>
    obtain ⟨r, herr, hrun⟩ := hf p'
    simp only [hrun]
    exact ⟨hq.1.trans (.add hq.1.consistent r), by simp [GivesUp.loudly, Progress.add, herr]⟩

/-! ## Operands -/

theorem requireOperands (r : Record) (least : Nat) :
    Ensures E (Dxil.requireOperands r least) fun _ => least ≤ r.operands.length :=
  (rejectIf rfl).mono fun _ h => Nat.le_of_not_lt h

theorem operand {r : Record} {i : Nat} (h : i < r.operands.length) :
    Ensures E (Dxil.operand r i) fun v => r.operands[i]? = some v :=
  .present ⟨_, List.getElem?_eq_getElem h⟩

/-! ## Loops -/

/-- What holds of the state when some records are left holds with one less after each step. -/
theorem foldRecords {step : σ → Nat → Record → Decoder σ} (I : Nat → List Record → σ → Prop)
    (hstep : ∀ i r rs s, I i (r :: rs) s → Ensures E (step s i r) (I (i + 1) rs))
    {records : List Record} {i : Nat} {s : σ} (h : I i records s) :
    Ensures E (Dxil.foldRecords step i s records) (I (i + records.length) []) := by
  induction records generalizing i s with
  | nil => exact .pure h
  | cons r rs ih =>
    refine (setColumn i).bind fun _ _ => (hstep i r rs s h).bind fun s' hs' => ?_
    rw [List.length_cons, show i + (rs.length + 1) = i + 1 + rs.length by omega]
    exact ih hs'

/-- What holds of the state after some records holds after one more, and so after all. -/
theorem foldRecords_done {step : σ → Nat → Record → Decoder σ} (I : List Record → σ → Prop)
    (hstep : ∀ done i r s, I done s → Ensures E (step s i r) (I (done ++ [r])))
    {i : Nat} {s : σ} (h : I [] s) (records : List Record) :
    Ensures E (Dxil.foldRecords step i s records) (I records) := by
  refine (foldRecords (fun _ rs s => ∃ done, done ++ rs = records ∧ I done s)
    (fun i r rs s hs => ?_) ⟨[], rfl, h⟩).mono fun s' hs' => ?_
  · obtain ⟨done, rfl, hdone⟩ := hs
    exact (hstep done i r s hdone).mono fun s' hs' => ⟨done ++ [r], by simp, hs'⟩
  · obtain ⟨done, rfl, hdone⟩ := hs'
    rwa [List.append_nil]

theorem mapM_inOrder {l : List α} {f : α → Decoder β} {R : Nat → α → β → Prop}
    (h : ∀ k a, l[k]? = some a → Ensures E (f a) (R k a)) :
    Ensures E (l.mapM f) fun bs =>
      bs.length = l.length ∧ ∀ k a b, l[k]? = some a → bs[k]? = some b → R k a b := by
  induction l generalizing R with
  | nil =>
    rw [List.mapM_nil]
    exact .pure (by simp)
  | cons a l ih =>
    rw [List.mapM_cons]
    refine (h 0 a rfl).bind fun b hb => ?_
    refine (ih (R := fun k => R (k + 1)) fun k a ha => h (k + 1) a ha).bind
      fun bs ⟨hlength, hbs⟩ => .pure ⟨by simp [hlength], fun k a' b' ha' hb' => ?_⟩
    cases k with
    | zero =>
      cases ha'
      cases hb'
      exact hb
    | succ k => exact hbs k a' b' ha' hb'

theorem mapM {l : List α} {f : α → Decoder β} {R : α → β → Prop}
    (h : ∀ a ∈ l, Ensures E (f a) (R a)) :
    Ensures E (l.mapM f) fun bs => ∀ b ∈ bs, ∃ a ∈ l, R a b := by
  refine (mapM_inOrder fun k a ha => h a (List.mem_of_getElem? ha)).mono
    fun bs ⟨hlength, hbs⟩ b hb => ?_
  obtain ⟨k, hk⟩ := List.mem_iff_getElem?.mp hb
  have hlt : k < l.length := hlength ▸ (List.getElem?_eq_some_iff.mp hk).1
  exact ⟨l[k], List.getElem_mem hlt, hbs k _ b (List.getElem?_eq_getElem hlt) hk⟩

theorem mapM_all {l : List α} {f : α → Decoder β} {R : β → Prop}
    (h : ∀ a ∈ l, Ensures E (f a) R) : Ensures E (l.mapM f) fun bs => ∀ b ∈ bs, R b := by
  refine (mapM h).mono fun bs hbs b hb => ?_
  obtain ⟨_, _, hR⟩ := hbs b hb
  exact hR

theorem forM {l : List α} {f : α → Decoder PUnit} (h : ∀ a ∈ l, Ensures E (f a) fun _ => True) :
    Ensures E (l.forM f) fun _ => True := by
  induction l with
  | nil => exact .pure trivial
  | cons a l ih =>
    rw [List.forM]
    exact (h a List.mem_cons_self).bind fun _ _ => ih fun a ha => h a (List.mem_cons_of_mem _ ha)

end Ensures

/-! ## Results -/

/-- From some consistent progress, `x` gives `a`. -/
def Yields {α : Type} (x : Decoder α) (a : α) : Prop :=
  ∃ p p' : Progress, p.Consistent ∧ x p = .ok a p'

namespace Ensures

variable {α : Type} {E : GivesUp} {x : Decoder α} {Q : α → Prop}

theorem yields (hx : Ensures E x Q) : Ensures E x fun a => Q a ∧ Yields x a := by
  intro p hp
  have h := hx p hp
  match hr : x p, h with
  | .ok _ p', h => exact ⟨h.1, h.2, p, p', hp, hr⟩
  | .error (.invalid _) _, h => exact h

theorem of_ok (hx : Ensures E x Q) {p p' : Progress} {a : α} (hp : p.Consistent)
    (h : x p = .ok a p') : p.Continues p' ∧ Q a := by
  have hq := hx p hp
  rw [h] at hq
  exact hq

theorem of_yields (hx : Ensures E x Q) {a : α} (h : Yields x a) : Q a := by
  obtain ⟨p, p', hp, hr⟩ := h
  exact (hx.of_ok hp hr).2

end Ensures

section

variable {α : Type} {x : Decoder α} {o : Option α} {f : Finding} {a : α} {p p' : Progress}

theorem of_present_ok (h : present o p = .ok a p') : p = p' := by
  cases o with
  | none => cases h
  | some _ =>
    cases h
    rfl

theorem of_orReject_ok (h : orReject o f p = .ok a p') : p = p' := by
  cases o with
  | none => cases h
  | some _ =>
    cases h
    rfl

theorem of_rejectIf_ok {c : Prop} [Decidable c] (h : rejectIf c f p = .ok () p') : p = p' := by
  unfold rejectIf at h
  by_cases hc : c
  · rw [if_pos hc] at h
    cases h
  · rw [if_neg hc] at h
    cases h
    rfl

theorem of_attempt_ok {result : Except (Option TypeId) α} (h : attempt x p = .ok result p') :
    (∃ a, x p = .ok a p' ∧ result = .ok a) ∨
      ∃ type, x p = .error (.invalid type) p' ∧ result = .error type := by
  unfold attempt at h
  cases hx : x p with
  | ok a p₁ =>
    rw [hx] at h
    cases h
    exact .inl ⟨a, rfl, rfl⟩
  | error e p₁ =>
    rw [hx] at h
    cases e with
    | invalid type =>
      cases h
      exact .inr ⟨type, rfl, rfl⟩
    | dangling => cases h

theorem of_orReport_ok {g : Decoder Unit} (h : orReport x g p = .ok a p') : x p = .ok a p' := by
  unfold orReport at h
  cases hx : x p with
  | ok b p₁ =>
    rw [hx] at h
    exact h
  | error e p₁ =>
    simp only [hx] at h
    cases e with
    | dangling => cases h
    | invalid type => cases hg : g p₁ <;> simp [hg] at h

end

/-- Whatever `x` gives has `Q`, from any progress. Nothing is said of how `x` gives up. -/
def Gives {α : Type} (x : Decoder α) (Q : α → Prop) : Prop :=
  ∀ p a p', x p = .ok a p' → Q a

namespace Gives

variable {α β σ : Type} {x : Decoder α} {P Q : α → Prop}

theorem pure {a : α} (h : Q a) : Gives (Pure.pure a) Q := by
  intro p b p' hrun
  cases hrun
  exact h

theorem any : Gives x fun _ => True := fun _ _ _ _ => trivial

theorem throw (e : Stop) : Gives (throw e : Decoder α) Q := by
  intro p a p' hrun
  cases hrun

theorem bind {f : α → Decoder β} {R : β → Prop} (hx : Gives x P)
    (hf : ∀ a, P a → Gives (f a) R) : Gives (x >>= f) R := by
  intro p b p' hrun
  change EStateM.bind x f p = _ at hrun
  unfold EStateM.bind at hrun
  cases hxp : x p with
  | ok a p₁ =>
    rw [hxp] at hrun
    exact hf a (hx p a p₁ hxp) p₁ b p' hrun
  | error e p₁ =>
    rw [hxp] at hrun
    cases hrun

theorem after {f : α → Decoder β} {R : β → Prop} (hf : ∀ a, Gives (f a) R) :
    Gives (x >>= f) R :=
  any.bind fun a _ => hf a

theorem mono (hx : Gives x P) (h : ∀ a, P a → Q a) : Gives x Q :=
  fun p a p' hrun => h a (hx p a p' hrun)

theorem reject {f : Finding} : Gives (Dxil.reject f : Decoder α) Q := after fun _ => .throw _

theorem foldRecords {step : σ → Nat → Record → Decoder σ} (I : List Record → σ → Prop)
    (hstep : ∀ i r rs s, I (r :: rs) s → Gives (step s i r) (I rs))
    {records : List Record} {i : Nat} {s : σ} (h : I records s) :
    Gives (Dxil.foldRecords step i s records) (I []) := by
  induction records generalizing i s with
  | nil => exact .pure h
  | cons r rs ih => exact after fun _ => (hstep i r rs s h).bind fun s' hs' => ih hs'

theorem foldRecords_done {step : σ → Nat → Record → Decoder σ} (I : List Record → σ → Prop)
    (hstep : ∀ done i r s, I done s → Gives (step s i r) (I (done ++ [r])))
    {i : Nat} {s : σ} (h : I [] s) (records : List Record) :
    Gives (Dxil.foldRecords step i s records) (I records) := by
  refine (foldRecords (fun rs s => ∃ done, done ++ rs = records ∧ I done s)
    (fun i r rs s hs => ?_) ⟨[], rfl, h⟩).mono fun s' hs' => ?_
  · obtain ⟨done, rfl, hdone⟩ := hs
    exact (hstep done i r s hdone).mono fun s' hs' => ⟨done ++ [r], by simp, hs'⟩
  · obtain ⟨done, rfl, hdone⟩ := hs'
    rwa [List.append_nil]

theorem forM {l : List α} {f : α → Decoder PUnit} (h : ∀ a, Gives (f a) fun _ => P a) :
    Gives (l.forM f) fun _ => ∀ a ∈ l, P a := by
  induction l with
  | nil => exact .pure (by simp)
  | cons a l ih =>
    rw [List.forM]
    exact (h a).bind fun _ ha => ih.mono fun _ hl => List.forall_mem_cons.mpr ⟨ha, hl⟩

end Gives

end Dxil
