import Dxil.Proofs.Module.Abides

/-!
# Dxil.Proofs.Module.Settles

Decoders whose outcome is settled by what they decode, and not by the progress they start from.

* `Settles counts x o` : `x` gives the value of `o`, and gives up if there is none. It warns of
  operands only if `counts`.
* `Denotes x o` : the same of a pass over many records, whatever it reports.

They lead from a decoder to a function into `Option` that no longer speaks of progress.
-/

namespace Dxil

/-! ## Records -/

/-- Only that operands are ignored may be found on the way. -/
def Terms.settled (counts refused : Prop) : Terms where
  notes _ := counts
  blames f := f.isError = true
  silent := True
  leaves type := type = none ∧ refused
  dangles := False
  error _ h := h

def Settles {α : Type} (counts : Prop) (x : Decoder α) (o : Option α) : Prop :=
  Abides (.settled counts (o = none)) x fun a => o = some a

namespace Settles

variable {α β : Type} {c : Prop} {x : Decoder α} {o : Option α} {r : Record} {i least most : Nat}

theorem pure (a : α) : Settles c (Pure.pure a) (some a) := Abides.pure rfl

theorem abandon : Settles c (Dxil.abandon : Decoder α) none := Abides.abandon trivial ⟨rfl, rfl⟩

theorem reject {f : Finding} (hf : f.isError = true) :
    Settles c (Dxil.reject f : Decoder α) none :=
  Abides.reject hf ⟨rfl, rfl⟩

theorem of_eq {o' : Option α} (h : Settles c x o) (ho : o = o') : Settles c x o' := ho ▸ h

theorem bind {f : α → Decoder β} {g : α → Option β} (hx : Settles c x o)
    (hf : ∀ a, o = some a → Settles c (f a) (g a)) : Settles c (x >>= f) (o.bind g) := by
  refine Abides.bind (P := fun a => o = some a) (hx.weaken ?_ fun _ h => h)
    fun a ha => (hf a ha).weaken ?_ fun b hb => ?_
  · refine ⟨fun _ h => h, fun _ h => h, fun h => h, ?_, fun h => h⟩
    rintro _ ⟨rfl, rfl⟩
    exact ⟨rfl, rfl⟩
  · refine ⟨fun _ h => h, fun _ h => h, fun h => h, ?_, fun h => h⟩
    rintro _ ⟨rfl, hnone⟩
    exact ⟨rfl, by rw [ha, Option.bind_some, hnone]⟩
  · rw [ha, Option.bind_some, hb]

theorem ite {p : Prop} [Decidable p] {y : Decoder α} {o' : Option α} (hx : Settles c x o)
    (hy : Settles c y o') : Settles c (if p then x else y) (if p then o else o') := by
  split
  · exact hx
  · exact hy

theorem requireOperands_bind {f : Unit → Decoder α} (h : least ≤ r.operands.length →
    Settles c (f ()) o) :
    Settles c (requireOperands r least >>= f) (if least ≤ r.operands.length then o else none) := by
  unfold Dxil.requireOperands Dxil.rejectIf
  by_cases hlen : r.operands.length < least
  · rw [if_pos hlen, if_neg (by omega)]
    exact (reject rfl).bind (g := fun _ => o) nofun
  · rw [if_neg hlen, if_pos (by omega), pure_bind]
    exact h (by omega)

theorem ignoreBeyond_bind {f : Unit → Decoder α} (hcounts : most < r.operands.length → c)
    (h : Settles c (f ()) o) : Settles c (ignoreBeyond r most >>= f) o :=
  Settles.bind (o := some ()) ((Abides.ignoreBeyond r most fun hmore _ => hcounts hmore).mono
    fun _ _ => rfl) fun _ _ => h

theorem checkOperands_bind {f : Unit → Decoder α} (hcounts : most < r.operands.length → c)
    (h : least ≤ r.operands.length → Settles c (f ()) o) :
    Settles c (checkOperands r least most >>= f)
      (if least ≤ r.operands.length then o else none) := by
  unfold Dxil.checkOperands
  rw [bind_assoc]
  exact requireOperands_bind fun hlen => ignoreBeyond_bind hcounts (h hlen)

theorem operand (h : i < r.operands.length) : Settles c (Dxil.operand r i) r.operands[i]? :=
  Abides.operand h

theorem skipOperand (h : i < r.operands.length) : Settles c (Dxil.skipOperand r i) (some ()) :=
  (Abides.skipOperand h).mono fun _ _ => rfl

theorem operandsFrom (h : i ≤ r.operands.length) :
    Settles c (Dxil.operandsFrom r i) (some (r.operands.drop i)) :=
  (Abides.operandsFrom h).mono fun _ h => congrArg some h.symm

theorem mapM {f : α → Decoder β} {g : α → Option β} (h : ∀ a, Settles c (f a) (g a))
    (l : List α) : Settles c (l.mapM f) (l.mapM g) := by
  induction l with
  | nil =>
    rw [List.mapM_nil, List.mapM_nil]
    exact pure []
  | cons a l ih =>
    rw [List.mapM_cons, List.mapM_cons]
    exact (h a).bind fun b _ => ih.bind fun bs _ => pure (b :: bs)

theorem ensures (hx : Settles c x o) : Ensures .anyhow x fun a => o = some a :=
  Abides.ensures hx ⟨fun _ _ _ _ _ _ => trivial, fun _ _ _ _ => trivial, id⟩

end Settles

/-! ## Passes -/

section

variable {α : Type} {x : Decoder α} {a : α} {e : Stop} {p p' : Progress}

theorem run'_of_ok (h : x p = .ok a p') : x.run' p = some a := by
  delta EStateM.run'
  rw [show x.run p = .ok a p' from h]

theorem run'_of_error (h : x p = .error e p') : x.run' p = none := by
  delta EStateM.run'
  rw [show x.run p = .error e p' from h]

end

/-- From any progress, `x` gives the value of `o`, and gives up if there is none. -/
def Denotes {α : Type} (x : Decoder α) (o : Option α) : Prop := ∀ p, x.run' p = o

theorem Settles.denotes {α : Type} {c : Prop} {x : Decoder α} {o : Option α} (hx : Settles c x o) :
    Denotes x o := by
  intro p
  cases h : x p with
  | ok a p' =>
    obtain ⟨_, _, _, ha⟩ := Abides.of_ok hx h
    exact (run'_of_ok h).trans ha.symm
  | error e p' =>
    rw [run'_of_error h]
    cases e with
    | invalid type =>
      obtain ⟨_, _, ⟨-, hnone⟩, _⟩ := Abides.of_invalid hx h
      exact hnone.symm
    | dangling => exact (Abides.of_dangling hx h).elim

namespace Denotes

variable {α β σ : Type} {x : Decoder α} {o : Option α}

theorem pure (a : α) : Denotes (Pure.pure a) (some a) := fun _ => rfl

theorem bind {f : α → Decoder β} {g : α → Option β} (hx : Denotes x o)
    (hf : ∀ a, Denotes (f a) (g a)) : Denotes (x >>= f) (o.bind g) := by
  intro p
  rw [← hx p]
  cases hrun : x p with
  | error e p' => rw [run'_of_error hrun, run'_of_error (bind_of_error hrun), Option.bind_none]
  | ok a p' =>
    rw [run'_of_ok hrun, Option.bind_some, ← hf a p']
    cases hrest : f a p' with
    | ok b p'' => rw [run'_of_ok hrest, run'_of_ok ((bind_of_ok hrun).trans hrest)]
    | error e p'' => rw [run'_of_error hrest, run'_of_error ((bind_of_ok hrun).trans hrest)]

theorem modify_bind (f : Progress → Progress) {g : Unit → Decoder β} {o' : Option β}
    (hg : Denotes (g ()) o') : Denotes (modify f >>= g) o' :=
  bind (o := some ()) (fun _ => rfl) fun _ => hg

theorem foldRecords {step : σ → Nat → Record → Decoder σ} {g : σ → Record → Option σ}
    (h : ∀ s i r, Denotes (step s i r) (g s r)) (i : Nat) (s : σ) (records : List Record) :
    Denotes (Dxil.foldRecords step i s records) (records.foldlM g s) := by
  induction records generalizing i s with
  | nil => exact pure s
  | cons r rs ih =>
    rw [List.foldlM_cons]
    exact modify_bind _ ((h s i r).bind fun s' => ih (i + 1) s')

end Denotes

end Dxil
