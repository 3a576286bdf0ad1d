import Dxil.Proofs.Stream.Definition
import Dxil.Proofs.Stream.Moves

/-!
# Dxil.Proofs.Stream.Widths

The widths of fields come from the stream itself, through definitions and block headers, and are
checked where they are read. A reading therefore never asks for a field that there cannot be.

* `Abbreviation.legal` : every field of an abbreviation has a width that can be read.
* `Avoids` : a reader fails for no reason of a kind, and what it gives is as it should be.
* `Moves.legal` : widths stay legal from item to item.
* `visit_widths_legal` : they are legal throughout, and no reading fails for the width of a field.
-/

namespace Dxil

/-! ## Legal widths -/

def Payload.legal : Payload → Bool
  | blob => true
  | array element => element.wellFormed && !element.isLiteral

def Abbreviation.legal (a : Abbreviation) : Bool :=
  a.fields.all Encoding.wellFormed && a.payload.all Payload.legal

def AbbreviationOp.legal : AbbreviationOp → Bool
  | scalar encoding => encoding.wellFormed
  | _ => true

def Item.legal : Item → Bool
  | .define a => a.legal
  | _ => true

/-! ## Failures -/

/-- There is no field of the width that was asked for. -/
def BitError.isWidth : BitError → Bool
  | .invalidWidth _ => true
  | _ => false

def StreamError.isWidth : StreamError → Bool
  | .bits e => e.isWidth
  | _ => false

/-- Whatever state it starts in, `x` gives a result with `Q` or fails in a way that is not `bad`. -/
structure Avoids {ε σ α : Type} (bad : ε → Bool) (x : EStateM ε σ α) (Q : α → Prop) : Prop where
  result : ∀ {s a s'}, x s = .ok a s' → Q a
  failure : ∀ {s e s'}, x s = .error e s' → bad e = false

abbrev Fits {α : Type} (x : StreamReader α) (Q : α → Prop) : Prop := Avoids StreamError.isWidth x Q

namespace Avoids

section

variable {ε σ α β : Type} {bad : ε → Bool} {x : EStateM ε σ α} {P Q : α → Prop}

theorem pure {a : α} (h : Q a) : Avoids bad (Pure.pure a : EStateM ε σ α) Q := by
  constructor
  · intro s b s' hrun
    cases hrun
    exact h
  · intro s e s' hrun
    cases hrun

theorem throw {e : ε} (h : bad e = false) : Avoids bad (MonadExcept.throw e : EStateM ε σ α) Q := by
  constructor
  · intro s b s' hrun
    cases hrun
  · intro s e' s' hrun
    cases hrun
    exact h

theorem bind {f : α → EStateM ε σ β} {R : β → Prop} (hx : Avoids bad x P)
    (hf : ∀ a, P a → Avoids bad (f a) R) : Avoids bad (x >>= f) R := by
  constructor
  · intro s b s' hrun
    obtain ⟨a, s₁, hfirst, hrest⟩ := exists_of_bind_ok hrun
    exact (hf a (hx.result hfirst)).result hrest
  · intro s e s' hrun
    cases hfirst : x s with
    | ok a s₁ =>
      rw [bind_of_ok hfirst] at hrun
      exact (hf a (hx.result hfirst)).failure hrun
    | error e₁ s₁ =>
      rw [bind_of_error hfirst] at hrun
      cases hrun
      exact hx.failure hfirst

theorem map {f : α → β} {R : β → Prop} (hx : Avoids bad x P) (hf : ∀ a, P a → R (f a)) :
    Avoids bad (f <$> x) R := by
  rw [← bind_pure_comp]
  exact hx.bind fun a ha => .pure (hf a ha)

end

/-! ## Fields -/

section

variable {width : Nat}

theorem read (h : width ≤ 32) :
    Avoids BitError.isWidth (Cursor.read width) fun _ => True := by
  refine ⟨fun _ => trivial, ?_⟩
  intro c e c' hrun
  unfold Cursor.read at hrun
  split at hrun
  · omega
  split at hrun
  · cases hrun
  · cases hrun
    rfl

theorem readFixed (h : width ≤ 64) :
    Avoids BitError.isWidth (Cursor.readFixed width) fun _ => True := by
  unfold Cursor.readFixed
  split
  · omega
  split
  · exact read ‹_›
  · exact (read (by omega)).bind fun _ _ => (read (by omega)).bind fun _ _ => .pure trivial

theorem readChunks (h : width ≤ 32) (chunks shift sum : Nat) :
    Avoids BitError.isWidth (Cursor.readChunks width chunks shift sum) fun _ => True := by
  induction chunks generalizing shift sum with
  | zero => exact .throw rfl
  | succ chunks ih =>
    refine (read h).bind fun chunk _ => ?_
    dsimp only
    split
    · exact .throw rfl
    split
    · exact .pure trivial
    · exact ih _ _

theorem readVbr (h : 2 ≤ width) (h' : width ≤ 32) :
    Avoids BitError.isWidth (Cursor.readVbr width) fun _ => True := by
  rw [Cursor.readVbr, if_neg (by omega)]
  exact readChunks h' _ _ _

theorem skipWords (count : Nat) :
    Avoids BitError.isWidth (Cursor.skipWords count) fun _ => True := by
  refine ⟨fun _ => trivial, ?_⟩
  intro c e c' hrun
  unfold Cursor.skipWords at hrun
  split at hrun
  · cases hrun
  · cases hrun
    rfl

theorem liftBits {α : Type} {x : BitReader α} {Q : α → Prop}
    (hx : Avoids BitError.isWidth x Q) : Fits (Dxil.liftBits x) Q := by
  constructor
  · intro c a c' hrun
    exact hx.result (of_lift_ok hrun)
  · intro c e c' hrun
    unfold Dxil.liftBits at hrun
    split at hrun
    · cases hrun
    · rename_i hfail
      cases hrun
      exact hx.failure hfail

end

/-! ## Definitions -/

theorem ofFixedWidth (width : Nat) :
    Fits (MonadExcept.ofExcept (Encoding.ofFixedWidth width)) fun e => e.wellFormed := by
  unfold Encoding.ofFixedWidth
  split
  · exact .throw rfl
  split
  · exact .pure rfl
  · refine .pure ?_
    simp only [Encoding.wellFormed, decide_eq_true_eq]
    omega

theorem ofVbrWidth (width : Nat) :
    Fits (MonadExcept.ofExcept (Encoding.ofVbrWidth width)) fun e => e.wellFormed := by
  unfold Encoding.ofVbrWidth
  split
  · exact .throw rfl
  split
  · exact .pure rfl
  · refine .pure ?_
    simp only [Encoding.wellFormed, decide_eq_true_eq]
    omega

theorem readAbbreviationOp : Fits Dxil.readAbbreviationOp fun op => op.legal := by
  unfold Dxil.readAbbreviationOp
  refine (read (by decide)).liftBits.bind fun isLiteral _ => ?_
  split
  · exact (readVbr (by decide) (by decide)).liftBits.bind fun _ _ => .pure rfl
  refine (read (by decide)).liftBits.bind fun kind _ => ?_
  split
  · exact (readVbr (by decide) (by decide)).liftBits.bind fun width _ =>
      (ofFixedWidth width).map fun _ h => h
  · exact (readVbr (by decide) (by decide)).liftBits.bind fun width _ =>
      (ofVbrWidth width).map fun _ h => h
  · exact .pure rfl
  · exact .pure rfl
  · exact .pure rfl
  · exact .throw rfl

theorem readElement : Fits Dxil.readElement fun e => (Payload.array e).legal := by
  refine readAbbreviationOp.bind fun op hop => ?_
  split
  · exact .throw rfl
  · rename_i element hliteral
    refine .pure ?_
    cases element with
    | literal value => exact absurd rfl (hliteral value)
    | fixed width | vbr width | char6 =>
      simpa [AbbreviationOp.legal, Payload.legal, Encoding.isLiteral] using hop
  · exact .throw rfl

theorem readAbbreviation (count : Nat) : Fits (Dxil.readAbbreviation count) fun a => a.legal := by
  induction count with
  | zero => exact .pure rfl
  | succ count ih =>
    refine readAbbreviationOp.bind fun op hop => ?_
    split
    · refine ih.bind fun rest hrest => .pure ?_
      simp only [Abbreviation.legal, List.all_cons, Bool.and_eq_true] at hrest ⊢
      exact ⟨⟨hop, hrest.1⟩, hrest.2⟩
    · split
      · exact readElement.bind fun element helement => .pure helement
      · exact .throw rfl
    · split
      · exact .pure rfl
      · exact .throw rfl

/-! ## Records -/

theorem readScalar {e : Encoding} (h : e.wellFormed) : Fits (Dxil.readScalar e) fun _ => True := by
  cases e with
  | literal value => exact .pure trivial
  | fixed width =>
    simp only [Encoding.wellFormed, decide_eq_true_eq] at h
    exact (readFixed h.2).liftBits.bind fun _ _ => .pure trivial
  | vbr width =>
    simp only [Encoding.wellFormed, decide_eq_true_eq] at h
    exact (readVbr h.1 h.2).liftBits.bind fun _ _ => .pure trivial
  | char6 => exact (read (by decide)).liftBits.bind fun _ _ => .pure trivial

theorem readScalars {es : List Encoding} (h : ∀ e ∈ es, e.wellFormed) :
    Fits (Dxil.readScalars es) fun _ => True := by
  induction es with
  | nil => exact .pure trivial
  | cons e es ih =>
    obtain ⟨he, hes⟩ := List.forall_mem_cons.mp h
    exact (readScalar he).bind fun _ _ => (ih hes).bind fun _ _ => .pure trivial

theorem readArray {element : Encoding} (h : element.wellFormed) (count : Nat) :
    Fits (Dxil.readArray element count) fun _ => True := by
  induction count with
  | zero => exact .pure trivial
  | succ count ih => exact (readScalar h).bind fun _ _ => ih.bind fun _ _ => .pure trivial

theorem readLength (minBits : Nat) : Fits (Dxil.readLength minBits) fun _ => True := by
  refine ⟨fun _ => trivial, ?_⟩
  intro c e c' hrun
  unfold Dxil.readLength at hrun
  split at hrun
  · rename_i hfail
    cases hrun
    exact (readVbr (by decide) (by decide)).failure hfail
  · split at hrun
    · cases hrun
    · cases hrun
      rfl

theorem skipBlob (size : Nat) : Fits (Dxil.skipBlob size) fun _ => True := by
  refine ⟨fun _ => trivial, ?_⟩
  intro c e c' hrun
  exact (skipWords _).liftBits.failure hrun

theorem readPayload {payload : Option Payload} (h : payload.all Payload.legal) :
    Fits (Dxil.readPayload payload) fun _ => True := by
  match payload with
  | none => exact .pure trivial
  | some (.array element) =>
    simp only [Option.all_some, Payload.legal, Bool.and_eq_true] at h
    exact (readLength _).bind fun count _ => readArray h.1 count
  | some .blob =>
    exact (readLength _).bind fun size _ => (skipBlob size).bind fun _ _ => .pure trivial

theorem readAbbreviated {a : Abbreviation} (h : a.legal) :
    Fits (Dxil.readAbbreviated a) fun _ => True := by
  obtain ⟨fields, payload⟩ := a
  simp only [Abbreviation.legal, Bool.and_eq_true, List.all_eq_true] at h
  cases fields with
  | nil =>
    cases payload with
    | none => exact .pure trivial
    | some payload => exact .throw rfl
  | cons code fields =>
    obtain ⟨hcode, hfields⟩ := List.forall_mem_cons.mp h.1
    exact (readScalar hcode).bind fun _ _ => (readScalars hfields).bind fun _ _ =>
      (readPayload h.2).bind fun _ _ => .pure trivial

theorem readUnabbreviated : Fits Dxil.readUnabbreviated fun _ => True :=
  (readVbr (by decide) (by decide)).liftBits.bind fun _ _ => (readLength 6).bind fun count _ =>
    (readArray rfl count).bind fun _ _ => .pure trivial

/-! ## Items and headers -/

variable {inScope : List Abbreviation}

theorem itemOfId (block : UInt32) (h : ∀ a ∈ inScope, a.legal) (id : Nat) :
    Fits (Dxil.itemOfId block inScope id) fun item => item.legal := by
  unfold Dxil.itemOfId
  split
  · exact ⟨fun hrun => by cases hrun; rfl, fun hrun => by cases hrun⟩
  · exact .pure rfl
  · exact (readVbr (by decide) (by decide)).liftBits.bind fun count _ =>
      (readAbbreviation count).bind fun _ ha => .pure ha
  · exact readUnabbreviated.bind fun _ _ => .pure rfl
  · split
    · exact .throw rfl
    · rename_i a ha
      exact (readAbbreviated (h a (List.mem_of_getElem? ha))).bind fun _ _ => .pure rfl

theorem readItem (block : UInt32) {width : Nat} (hwidth : width ≤ 32)
    (h : ∀ a ∈ inScope, a.legal) :
    Fits (Dxil.readItem block width inScope) fun item => item.legal :=
  (read hwidth).liftBits.bind fun id _ => itemOfId block h id

theorem readBlockHeader (level : Nat) :
    Fits (Dxil.readBlockHeader level) fun h => 1 ≤ h.width ∧ h.width ≤ 32 := by
  refine (readVbr (by decide) (by decide)).liftBits.bind fun id _ => ?_
  split
  · exact .throw rfl
  refine (readVbr (by decide) (by decide)).liftBits.bind fun width _ => ?_
  split
  · exact .throw rfl
  have hwidth : 1 ≤ width ∧ width ≤ 32 := by omega
  have halign : Fits (modify Cursor.align) fun _ => True :=
    ⟨fun _ => trivial, fun hrun => by cases hrun⟩
  have hget : Fits (get : StreamReader Cursor) fun _ => True :=
    ⟨fun _ => trivial, fun hrun => by cases hrun⟩
  exact halign.bind fun _ _ => (read (by decide)).liftBits.bind fun _ _ =>
    hget.bind fun _ _ => .pure hwidth

end Avoids

/-! ## Readings -/

def Place.frames : Place → List Frame
  | .opening _ stack | .info _ _ stack | .within stack => stack

/-- The headers of the blocks that were entered and have not ended, block info included. -/
def Place.headers : Place → List BlockHeader
  | .info header _ stack => header :: stack.map Frame.header
  | .opening _ stack | .within stack => stack.map Frame.header

/-- Everything that fields are read by. -/
structure Place.Legal (p : Place) (r : Reader) : Prop where
  registered : ∀ id, ∀ a ∈ r.abbreviationsFor id, a.legal
  inScope : ∀ frame ∈ p.frames, ∀ a ∈ frame.inScope, a.legal
  widths : ∀ header ∈ p.headers, 1 ≤ header.width ∧ header.width ≤ 32

section

variable {policy : EntryPolicy} {p p' : Place} {r r' : Reader} {e : StreamError}

theorem Place.Legal.fits_item {frame : Frame} {rest : List Frame}
    (h : (Place.within (frame :: rest)).Legal r) :
    Fits (readItem frame.header.id frame.header.width frame.inScope) fun item => item.legal :=
  .readItem _ (h.widths frame.header (by simp [Place.headers])).2
    (h.inScope frame (by simp [Place.frames]))

theorem Place.Legal.fits_infoItem {header : BlockHeader} {selected : Option UInt32}
    {stack : List Frame} (h : (Place.info header selected stack).Legal r) :
    Fits (readItem header.id header.width (r.abbreviationsFor header.id)) fun item => item.legal :=
  .readItem _ (h.widths header (by simp [Place.headers])).2 (h.registered header.id)

theorem Moves.legal (h : Moves policy p r p' r') (hp : p.Legal r) : p'.Legal r' := by
  cases h with
  | informed hheader =>
    refine ⟨hp.registered, hp.inScope, List.forall_mem_cons.mpr ⟨?_, hp.widths⟩⟩
    exact (Avoids.readBlockHeader _).result hheader
  | entered hheader =>
    refine ⟨hp.registered, List.forall_mem_cons.mpr ⟨hp.registered _, hp.inScope⟩,
      List.forall_mem_cons.mpr ⟨?_, hp.widths⟩⟩
    exact (Avoids.readBlockHeader _).result hheader
  | skipped => exact ⟨hp.registered, hp.inScope, hp.widths⟩
  | info hstep =>
    refine ⟨?_, hp.inScope, hp.widths⟩
    cases hstep with
    | @defined a id c hitem =>
      intro id' b hb
      rw [Reader.abbreviationsFor_register] at hb
      rcases List.mem_append.mp hb with hb | hb
      · exact hp.registered id' b hb
      · -- The new one was read by what was legal before.
        have hba : b = a := by
          split at hb <;> simp_all
        exact hba ▸ hp.fits_infoItem.result hitem
    | nothing => exact hp.registered
    | recorded => exact hp.registered
  | infoEnded hstep =>
    refine ⟨?_, hp.inScope, (List.forall_mem_cons.mp hp.widths).2⟩
    cases hstep with
    | ended => exact hp.registered
  | nested => exact ⟨hp.registered, hp.inScope, hp.widths⟩
  | ended =>
    exact ⟨hp.registered, (List.forall_mem_cons.mp hp.inScope).2,
      (List.forall_mem_cons.mp hp.widths).2⟩
  | defined hitem =>
    obtain ⟨hframe, hrest⟩ := List.forall_mem_cons.mp hp.inScope
    refine ⟨hp.registered, List.forall_mem_cons.mpr ⟨?_, hrest⟩, hp.widths⟩
    intro b hb
    rcases List.mem_append.mp hb with hb | hb
    · exact hframe b hb
    · rw [List.mem_singleton.mp hb]
      exact hp.fits_item.result hitem
  | nothing => exact ⟨hp.registered, hp.inScope, hp.widths⟩
  | recorded => exact ⟨hp.registered, hp.inScope, hp.widths⟩

theorem Fails.not_isWidth (h : Fails policy p r e r') (hp : p.Legal r) : e.isWidth = false := by
  cases h with
  | header hheader => exact (Avoids.readBlockHeader _).failure hheader
  | misplaced => rfl
  | skip _ _ _ hskip => exact (Avoids.skipWords _).failure hskip
  | infoItem hitem => exact hp.fits_infoItem.failure hitem
  | @infoRefused _ selected _ _ item _ _ _ hrefused =>
    match item with
    | .endBlock => cases hrefused
    | .subBlock =>
      cases hrefused
      rfl
    | .define a =>
      simp only [Item.refusal] at hrefused
      split at hrefused
      · cases hrefused
        rfl
      · split at hrefused <;> cases hrefused
        rfl
    | .record none => cases hrefused
    | .record (some record) =>
      simp only [Item.refusal] at hrefused
      split at hrefused <;> cases hrefused
      rfl
  | item hitem => exact hp.fits_item.failure hitem
  | child => rfl

end

/-! ## Whole streams -/

theorem legal_start (c : Cursor) : (Place.opening 0 []).Legal { cursor := c } := by
  refine ⟨?_, ?_, ?_⟩ <;> simp [Reader.abbreviationsFor, Place.frames, Place.headers]

theorem visitWords_not_isWidth {policy : EntryPolicy} {words : Array UInt32} {events : Array Event}
    {e : StreamError} (h : visitWords policy words = (events, .error e)) : e.isWidth = false := by
  unfold visitWords at h
  split at h
  · cases h
    rfl
  split at h
  · cases h
    rfl
  split at h
  · cases h
    rfl
  rename_i cursor _
  have hend := ending_finish (E := fun e _ => e.isWidth = false) policy (legal_start cursor)
    (fun _ _ _ _ hmoves hp => hmoves.legal hp) (fun _ _ _ _ hfails hp => hfails.not_isWidth hp)
  rw [← readSubBlock_eq_finish] at hend
  cases hread : readSubBlock policy 0 { cursor } with
  | ok u r =>
    rw [hread] at h
    cases h
  | error e r =>
    rw [hread] at h hend
    cases h
    exact hend

/-- Fields are read by widths that there are. Of every byte string and under every policy, wherever
the reading comes by, the abbreviations that are registered and those in scope in the open blocks
are legal, and the ids in these blocks have a width that can be read. So no reading fails for the
width of a field. -/
theorem visit_widths_legal (bytes : List UInt8) :
    (∀ policy width, (visit policy bytes).2 ≠ .error (.bits (.invalidWidth width))) ∧
    (∀ width, Bitcode.ofBytes bytes ≠ .error (.bits (.invalidWidth width))) ∧
    ∀ policy c p r, Opens (wordsOfBytes bytes).toArray c →
      Reached policy (.opening 0 []) { cursor := c } p r →
      (∀ id, ∀ a ∈ r.abbreviationsFor id, a.legal) ∧
      (∀ frame ∈ p.frames, ∀ a ∈ frame.inScope, a.legal) ∧
      ∀ header ∈ p.headers, 1 ≤ header.width ∧ header.width ≤ 32 := by
  refine ⟨?_, ?_, ?_⟩
  · intro policy width h
    rcases hvisit : visit policy bytes with ⟨events, outcome⟩
    rw [hvisit] at h
    subst h
    cases visitWords_not_isWidth hvisit
  · intro width h
    unfold Bitcode.ofBytes Bitcode.ofWords at h
    split at h
    · rename_i hvisit
      cases h
      cases visitWords_not_isWidth hvisit
    · split at h <;> cases h
  · intro policy c p r _ hreached
    have hlegal := hreached.invariant (legal_start c) fun _ _ _ _ hmoves hp => hmoves.legal hp
    exact ⟨hlegal.registered, hlegal.inScope, hlegal.widths⟩

/-- Block info with the widest field and the narrowest chunks, and a module with an abbreviation of
its own. -/
theorem visit_widths_legal_nested :
    let words : List UInt32 := [0xdec04342, 0xc21, 0xd, 0x1001, 0x3, 0x18a44107, 0x48389020, 0x218,
      0xa080312, 0x1e, 0x6224, 0x3, 0x2c, 0x0, 0x0, 0x0]
    let bytes := words.flatMap bytesOfWord
    ∃ c r, Opens (wordsOfBytes bytes).toArray c ∧
      Reached .all (.opening 0 []) { cursor := c } (.within []) r ∧
      r.abbreviationsFor BlockKind.type.id = [{ fields := [.literal 1, .fixed 64] },
        { fields := [.vbr 2], payload := some (.array .char6) }] ∧
      (∀ id, ∀ a ∈ r.abbreviationsFor id, a.legal) ∧
      ∀ width, (visit .all bytes).2 ≠ .error (.bits (.invalidWidth width)) := by
  intro words bytes
  let c : Cursor := ⟨(wordsOfBytes bytes).toArray, 34, by decide +kernel⟩
  have hopens : Opens (wordsOfBytes bytes).toArray c := ⟨⟨0xc21, by decide +kernel⟩, rfl, rfl⟩
  have hok : (visit .all bytes).2.isOk = true := by decide +kernel
  have hlist : (finalState (readSubBlock .all 0 { cursor := c })).abbreviationsFor
      BlockKind.type.id = [{ fields := [.literal 1, .fixed 64] },
        { fields := [.vbr 2], payload := some (.array .char6) }] := by decide +kernel
  have hend := ending_reached .all (.opening 0 []) { cursor := c }
  rw [← readSubBlock_eq_finish] at hend
  rw [visit, visitWords_of_opens hopens] at hok
  obtain ⟨hvisit, -, hlegal⟩ := visit_widths_legal bytes
  cases hread : readSubBlock .all 0 { cursor := c } with
  | error e r =>
    rw [hread] at hok
    cases hok
  | ok u r =>
    rw [hread] at hend hlist
    exact ⟨c, r, hopens, hend, hlist, (hlegal .all c _ r hopens hend).1, hvisit .all⟩

end Dxil
