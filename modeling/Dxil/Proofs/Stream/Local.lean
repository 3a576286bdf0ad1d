import Dxil.Proofs.Stream.Run

/-!
# Dxil.Proofs.Stream.Local

Reading a stream depends on the words it passes and on nothing behind them, although element counts
are checked against all that is left and blobs and blocks are skipped by their declared length.

* `Local.bindReadLength` : a count that was too large for what is left would have failed anyway.
* `Local.readItem`, `Local.enterBlock`, `Local.step` : the parts of a run.
* `Local.run` : a whole run, with what it has delivered by the time it fails.
-/

namespace Dxil

open Positioned

section

variable {α : Type} {x : BitReader α} {c c' : Cursor} {a : α}

theorem Passes.liftBits (h : Passes .bufferOverflow x c a c') :
    Passes (.bits .bufferOverflow) (Dxil.liftBits x) c a c' := by
  refine ⟨h.words, h.forward, trivial, ?_, ?_⟩
  · intro new d d' hagree hd hd'
    have hx := h.same new d d' hagree hd hd'
    exact lift_of_ok hx
  · intro new d hagree hd hshort
    obtain ⟨q, hx, -⟩ := h.short new d hagree hd hshort
    refine ⟨q, ?_, trivial⟩
    rw [Dxil.liftBits, hx]

theorem Local.liftBits (hx : Local .bufferOverflow x) :
    Local (.bits .bufferOverflow) (Dxil.liftBits x) := by
  intro c a c' h
  exact (hx c a c' (of_lift_ok h)).liftBits

theorem Advances.liftBits {n : Nat} (hx : Advances x n) : Advances (Dxil.liftBits x) n := by
  intro c a c' h
  exact hx c a c' (of_lift_ok h)

end

/-! ## Abbreviations -/

namespace Local

theorem readAbbreviationOp : Local (.bits .bufferOverflow) Dxil.readAbbreviationOp := by
  unfold Dxil.readAbbreviationOp
  refine .bind (.liftBits (.read _)) fun _ => ?_
  split
  · exact .bind (.liftBits (.readVbr _)) fun _ => .pure _
  · refine .bind (.liftBits (.read _)) fun _ => ?_
    split
    · refine .bind (.liftBits (.readVbr _)) fun _ => .map _ ?_
      cases Encoding.ofFixedWidth _
      · exact .throw _
      · exact .pure _
    · refine .bind (.liftBits (.readVbr _)) fun _ => .map _ ?_
      cases Encoding.ofVbrWidth _
      · exact .throw _
      · exact .pure _
    · exact .pure _
    · exact .pure _
    · exact .pure _
    · exact .throw _

theorem readElement : Local (.bits .bufferOverflow) Dxil.readElement := by
  refine .bind .readAbbreviationOp fun op => ?_
  split
  · exact .throw _
  · exact .pure _
  · exact .throw _

theorem readAbbreviation (count : Nat) :
    Local (.bits .bufferOverflow) (Dxil.readAbbreviation count) := by
  induction count with
  | zero => exact .pure _
  | succ count ih =>
    refine .bind .readAbbreviationOp fun op => ?_
    split
    · exact .bind ih fun _ => .pure _
    · split
      · exact .bind .readElement fun _ => .pure _
      · exact .throw _
    · split
      · exact .pure _
      · exact .throw _

/-! ## Values -/

theorem readScalar (e : Encoding) : Local (.bits .bufferOverflow) (Dxil.readScalar e) := by
  cases e with
  | literal value => exact .pure _
  | fixed width => exact .bind (.liftBits (.readFixed _)) fun _ => .pure _
  | vbr width => exact .bind (.liftBits (.readVbr _)) fun _ => .pure _
  | char6 => exact .bind (.liftBits (.read _)) fun _ => .pure _

theorem readScalars (es : List Encoding) :
    Local (.bits .bufferOverflow) (Dxil.readScalars es) := by
  induction es with
  | nil => exact .pure _
  | cons e es ih => exact .bind (.readScalar e) fun _ => .bind ih fun _ => .pure _

theorem readArray (element : Encoding) (count : Nat) :
    Local (.bits .bufferOverflow) (Dxil.readArray element count) := by
  induction count with
  | zero => exact .pure _
  | succ count ih => exact .bind (.readScalar element) fun _ => .bind ih fun _ => .pure _

end Local

namespace Advances

theorem readScalar (e : Encoding) : Advances (Dxil.readScalar e) e.minBits := by
  cases e with
  | literal value => exact .pure _
  | fixed width => exact (liftBits (readFixed width)).bind fun _ => .pure _
  | vbr width => exact (liftBits (readVbr width)).bind fun _ => .pure _
  | char6 => exact (liftBits (read 6)).bind fun _ => .pure _

theorem readArray (element : Encoding) (count : Nat) :
    Advances (Dxil.readArray element count) (count * element.minBits) := by
  induction count with
  | zero =>
    rw [Nat.zero_mul]
    exact .pure _
  | succ count ih =>
    have hboth := (readScalar element).bind fun value => ih.bind fun values =>
      .pure (value :: values)
    rw [Nat.succ_mul, Nat.add_comm (count * element.minBits)]
    exact hboth

theorem skipBlob (size : Nat) : Advances (Dxil.skipBlob size) (size * 8) := by
  intro c u c' h
  have hend := (Cursor.of_skipWords_ok (of_lift_ok h)).2
  simp only [hend, Cursor.word, Cursor.align]
  omega

end Advances

/-! ## Records -/

theorem bind_readLength_cases {α : Type} (minBits : Nat) (f : Nat → StreamReader α) (c : Cursor) :
    (readLength minBits >>= f) c = (liftBits (Cursor.readVbr 6) >>= f) c ∨
      ∃ n c₁, liftBits (Cursor.readVbr 6) c = .ok n c₁ ∧ c₁.left < n * minBits ∧
        (readLength minBits >>= f) c = .error (.bits .bufferOverflow) c₁ := by
  cases hread : Cursor.readVbr 6 c with
  | error e c₁ =>
    left
    have hcount : liftBits (Cursor.readVbr 6) c = .error (.bits e) c₁ := by rw [liftBits, hread]
    have hlength : readLength minBits c = .error (.bits e) c₁ := by rw [readLength, hread]
    rw [bind_of_error hcount, bind_of_error hlength]
  | ok n c₁ =>
    have hcount : liftBits (Cursor.readVbr 6) c = .ok n c₁ := lift_of_ok hread
    by_cases hroom : n * minBits ≤ c₁.left
    · left
      have hlength : readLength minBits c = .ok n c₁ := by
        rw [readLength, hread]
        exact if_pos hroom
      rw [bind_of_ok hcount, bind_of_ok hlength]
    · right
      have hlength : readLength minBits c = .error (.bits .bufferOverflow) c₁ := by
        rw [readLength, hread]
        exact if_neg hroom
      exact ⟨n, c₁, hcount, by omega, bind_of_error hlength⟩

namespace Local

variable {α : Type}

theorem skipBlob (size : Nat) : Local (.bits .bufferOverflow) (Dxil.skipBlob size) := by
  intro c u c' h
  have halign : Passes (.bits .bufferOverflow) (modify Cursor.align : StreamReader PUnit) c ()
      c.align := align c () c.align rfl
  have hskip := (Passes.skipWords (bit_align c) (of_lift_ok h)).liftBits
  exact halign.bind (f := fun _ => Dxil.liftBits (Cursor.skipWords ((size + 3) / 4))) hskip

/-- Elements that were read had room, so the check has no part in a success. -/
theorem bindReadLength_eq_ok_iff {minBits : Nat} {f : Nat → StreamReader α}
    (hf : ∀ n, Local (.bits .bufferOverflow) (f n)) (hadv : ∀ n, Advances (f n) (n * minBits))
    {c c' : Cursor} {a : α} :
    (readLength minBits >>= f) c = .ok a c' ↔
      (Dxil.liftBits (Cursor.readVbr 6) >>= f) c = .ok a c' := by
  obtain heq | ⟨n, c₁, hcount, hshort, herror⟩ := bind_readLength_cases minBits f c
  · rw [heq]
  · rw [herror, bind_of_ok hcount]
    constructor
    · intro h
      cases h
    · intro h
      have hfar := hadv n c₁ a c' h
      have hend := c'.pos_le
      have hwords : c'.words = c₁.words := (hf n c₁ a c' h).words
      rw [hwords] at hend
      simp only [Cursor.left] at hshort
      omega

theorem bindReadLength {minBits : Nat} {f : Nat → StreamReader α}
    (hf : ∀ n, Local (.bits .bufferOverflow) (f n)) (hadv : ∀ n, Advances (f n) (n * minBits)) :
    Local (.bits .bufferOverflow) (readLength minBits >>= f) := by
  -- The count is a number like any other, but for the check.
  have hplain : Local (.bits .bufferOverflow) (Dxil.liftBits (Cursor.readVbr 6) >>= f) :=
    .bind (.liftBits (.readVbr 6)) hf
  intro c a c' h
  have hpass := hplain c a c' ((bindReadLength_eq_ok_iff hf hadv).mp h)
  refine ⟨hpass.words, hpass.forward, trivial, ?_, ?_⟩
  · intro new d d' hagree hd hd'
    exact (bindReadLength_eq_ok_iff hf hadv).mpr (hpass.same new d d' hagree hd hd')
  · intro new d hagree hd hend
    obtain heq | ⟨n, d₁, -, -, herror⟩ := bind_readLength_cases minBits f d
    · obtain ⟨q, hq, -⟩ := hpass.short new d hagree hd hend
      exact ⟨q, heq.trans hq, trivial⟩
    · exact ⟨d₁, herror, trivial⟩

theorem readPayload (p : Option Payload) :
    Local (.bits .bufferOverflow) (Dxil.readPayload p) := by
  match p with
  | none => exact .pure _
  | some (.array element) =>
    exact .bindReadLength (fun n => .readArray element n) fun n => .readArray element n
  | some .blob =>
    exact .bindReadLength (fun n => .bind (.skipBlob n) fun _ => .pure _) fun n =>
      (Advances.skipBlob n).bind fun _ => .pure _

theorem readAbbreviated (a : Abbreviation) :
    Local (.bits .bufferOverflow) (Dxil.readAbbreviated a) := by
  unfold Dxil.readAbbreviated
  split
  · exact .pure _
  · exact .throw _
  · exact .bind (.readScalar _) fun _ => .bind (.readScalars _) fun _ =>
      .bind (.readPayload _) fun _ => .pure _

theorem readUnabbreviated : Local (.bits .bufferOverflow) Dxil.readUnabbreviated :=
  .bind (.liftBits (.readVbr _)) fun _ =>
    .bindReadLength (fun n => .bind (.readArray _ n) fun _ => .pure _) fun n =>
      (Advances.readArray (.vbr 6) n).bind fun _ => .pure _

/-! ## Items and headers -/

theorem itemOfId (block : UInt32) (inScope : List Abbreviation) (id : Nat) :
    Local (.bits .bufferOverflow) (Dxil.itemOfId block inScope id) := by
  unfold Dxil.itemOfId
  split
  · exact .bind .align fun _ => .pure _
  · exact .pure _
  · exact .bind (.liftBits (.readVbr _)) fun _ => .bind (.readAbbreviation _) fun _ => .pure _
  · exact .bind .readUnabbreviated fun _ => .pure _
  · split
    · exact .throw _
    · exact .bind (.readAbbreviated _) fun _ => .pure _

theorem readItem (block : UInt32) (width : Nat) (inScope : List Abbreviation) :
    Local (.bits .bufferOverflow) (Dxil.readItem block width inScope) :=
  .bind (.liftBits (.read width)) fun id => .itemOfId block inScope id

theorem readBlockHeader (level : Nat) :
    Local (.bits .bufferOverflow) (Dxil.readBlockHeader level) := by
  refine .bind (.liftBits (.readVbr 8)) fun id => ?_
  split
  · exact .throw _
  refine .bind (.liftBits (.readVbr 4)) fun width => ?_
  split
  · exact .throw _
  refine .bind .align fun _ => .bind (.liftBits (.read 32)) fun length => ?_
  refine .getPos (fun c : Cursor =>
    BlockHeader.mk (UInt32.ofNat id) width c.word (UInt32.ofNat length) level) ?_
  intro c d hpos
  simp only [Cursor.word, hpos]

end Local

/-! ## Blocks -/

instance : Positioned Reader where
  cursor := Reader.cursor
  moveTo := Reader.moveTo
  Precedes r q := r.events.toList <+: q.events.toList
  refl _ := List.prefix_rfl
  trans := List.IsPrefix.trans

theorem Passes.onCursor {α : Type} {x : StreamReader α} {r : Reader} {a : α} {c : Cursor}
    (h : Passes (.bits .bufferOverflow) x r.cursor a c) :
    Passes (.bits .bufferOverflow) (Dxil.onCursor x) r a (r.moveTo c) := by
  refine ⟨h.words, h.forward, List.prefix_rfl, ?_, ?_⟩
  · intro new d d' hagree hd hd'
    have hx := h.same new d d' hagree hd hd'
    exact onCursor_of_ok (r := r.moveTo d) hx
  · intro new d hagree hd hshort
    obtain ⟨q, hx, -⟩ := h.short new d hagree hd hshort
    refine ⟨r.moveTo q, ?_, List.prefix_rfl⟩
    have hx' : x (r.moveTo d).cursor = .error (.bits .bufferOverflow) q := hx
    change Dxil.onCursor x (r.moveTo d) = _
    rw [Dxil.onCursor, hx']
    rfl

namespace Local

theorem onCursor {α : Type} {x : StreamReader α} (hx : Local (.bits .bufferOverflow) x) :
    Local (.bits .bufferOverflow) (Dxil.onCursor x) := by
  intro r a r' h
  obtain ⟨c, hread, rfl⟩ := of_onCursor_ok h
  exact (hx r.cursor a c hread).onCursor

theorem emit (e : Event) : Local (.bits .bufferOverflow) (Dxil.emit e) := by
  intro r u r' h
  cases h
  refine .still rfl ?_ fun d => rfl
  exact ⟨[e], by simp [Reader.emit]⟩

theorem registeredFor (id : UInt32) : Local (.bits .bufferOverflow) (Dxil.registeredFor id) := by
  intro r a r' h
  cases h
  exact .still rfl List.prefix_rfl fun d => rfl

theorem registerFor (selected : Option UInt32) (a : Abbreviation) :
    Local (.bits .bufferOverflow) (Dxil.registerFor selected a) := by
  intro r u r' h
  obtain ⟨id, rfl, hid, rfl⟩ := of_registerFor_ok h
  refine .still rfl List.prefix_rfl fun d => ?_
  change Dxil.registerFor (some id) a (r.moveTo d) = _
  simp only [Dxil.registerFor, Reader.registerFor, if_neg hid]
  rfl

theorem infoStep (header : BlockHeader) (selected : Option UInt32) :
    Local (.bits .bufferOverflow) (Dxil.infoStep header selected) := by
  refine .bind (.registeredFor _) fun inScope => .bind (.onCursor (.readItem _ _ _)) fun item => ?_
  split
  · exact .pure _
  · exact .throw _
  · exact .bind (.registerFor _ _) fun _ => .pure _
  · exact .pure _
  · split
    · exact .throw _
    · exact .pure _

theorem infoRest (header : BlockHeader) (selected : Option UInt32) :
    Local (.bits .bufferOverflow) (Dxil.infoRest header (some selected)) := by
  intro r u r' h
  have heq : ∀ selected, Dxil.infoRest header (some selected) =
      Dxil.infoStep header selected >>= Dxil.infoRest header :=
    fun selected => funext (readBlockInfoItems_eq header selected)
  refine info_induction (motive := fun selected r r' =>
    Passes (.bits .bufferOverflow) (Dxil.infoRest header (some selected)) r () r') ?_ ?_ h
  · intro selected r r' hstep
    rw [heq]
    exact (infoStep header selected r none r' (infoStep_eq_ok.mpr hstep)).bind
      (Local.pure () r' () r' rfl)
  · intro selected r next r₁ r' hstep _ hrest
    rw [heq]
    exact (infoStep header selected r (some next) r₁ (infoStep_eq_ok.mpr hstep)).bind hrest

theorem readBlockInfo (header : BlockHeader) :
    Local (.bits .bufferOverflow) (Dxil.readBlockInfo header) := by
  unfold Dxil.readBlockInfo
  by_cases hlevel : 1 < header.level
  · simp only [if_pos hlevel]
    exact .throw (StreamError.misplacedBlockInfo header.level)
  · simp only [if_neg hlevel]
    exact .infoRest header none

theorem admits (policy : EntryPolicy) (header : BlockHeader) :
    Local (.bits .bufferOverflow) (Dxil.admits policy header) := by
  intro r admitted r' h
  cases h
  exact .still rfl List.prefix_rfl fun d => rfl

theorem frameFor (header : BlockHeader) : Local (.bits .bufferOverflow) (Dxil.frameFor header) := by
  intro r frame r' h
  cases h
  exact .still rfl List.prefix_rfl fun d => rfl

end Local

theorem Passes.enterWith {policy : EntryPolicy} {header : BlockHeader} {r r' : Reader}
    {opened : Option Frame} (hbit : r.cursor.bit = 0)
    (h : Dxil.enterWith policy header r = .ok opened r') :
    Passes (.bits .bufferOverflow) (Dxil.enterWith policy header) r opened r' := by
  unfold Dxil.enterWith at h ⊢
  split at h
  · rename_i hid
    rw [if_pos hid]
    exact Local.bind (.readBlockInfo header) (fun _ => .pure _) r opened r' h
  rename_i hid
  rw [if_neg hid]
  obtain ⟨admitted, r₁, hadmits, h⟩ := exists_of_bind_ok h
  refine (Local.admits policy header r admitted r₁ hadmits).bind ?_
  cases hadmits
  obtain ⟨u, r₂, hemit, h⟩ := exists_of_bind_ok h
  refine (Local.emit _ _ u r₂ hemit).bind ?_
  cases hemit
  split at h <;> rename_i hpolicy
  · rw [if_pos hpolicy]
    exact Local.map some (.frameFor header) _ opened r' h
  rw [if_neg hpolicy]
  obtain ⟨u, r₃, hcursor, h⟩ := exists_of_bind_ok h
  obtain ⟨c, hskip, rfl⟩ := of_onCursor_ok hcursor
  have hpass := (Passes.skipWords hbit (of_lift_ok hskip)).liftBits
  exact (Passes.onCursor (r := r.emit (.enter header)) hpass).bind (Local.pure none _ opened r' h)

namespace Local

theorem enterBlock (policy : EntryPolicy) (level : Nat) :
    Local (.bits .bufferOverflow) (Dxil.enterBlock policy level) := by
  intro r opened r' h
  rw [show Dxil.enterBlock policy level = _ from funext (enterBlock_eq policy level)] at h ⊢
  obtain ⟨header, r₁, hcursor, h⟩ := exists_of_bind_ok h
  obtain ⟨c, hheader, rfl⟩ := of_onCursor_ok hcursor
  have hpass := (readBlockHeader level _ _ _ hheader).onCursor
  exact hpass.bind (.enterWith (left_lt_of_readBlockHeader hheader).2 h)

theorem applyItem (policy : EntryPolicy) (frame : Frame) (rest : List Frame) (item : Item) :
    Local (.bits .bufferOverflow) (Dxil.applyItem policy frame rest item) := by
  unfold Dxil.applyItem
  split
  · exact .bind (.emit _) fun _ => .pure _
  · split
    · refine .bind (.enterBlock policy _) fun opened => ?_
      split
      · exact .pure _
      · exact .pure _
    · exact .throw _
  · exact .pure _
  · exact .pure _
  · exact .bind (.emit _) fun _ => .pure _

theorem step (policy : EntryPolicy) (frame : Frame) (rest : List Frame) :
    Local (.bits .bufferOverflow) (Dxil.step policy frame rest) :=
  .bind (.onCursor (.readItem _ _ _)) fun item => .applyItem policy frame rest item

theorem runM (policy : EntryPolicy) (stack : List Frame) :
    Local (.bits .bufferOverflow) (Dxil.runM policy stack) := by
  intro r u r' h
  refine run_induction (motive := fun stack r r' =>
    Passes (.bits .bufferOverflow) (Dxil.runM policy stack) r () r') ?_ ?_ h
  · intro r
    rw [show Dxil.runM policy [] = Pure.pure () from funext fun _ => run_nil]
    exact Local.pure () r () r rfl
  · intro frame rest r stack r₁ r' hstep _ hrest
    rw [show Dxil.runM policy (frame :: rest) = _ from funext (run_cons policy frame rest)]
    exact (step policy frame rest r stack r₁ (step_eq_ok.mpr hstep)).bind hrest

theorem readSubBlock (policy : EntryPolicy) (level : Nat) :
    Local (.bits .bufferOverflow) (Dxil.readSubBlock policy level) := by
  rw [show Dxil.readSubBlock policy level = _ from funext (readSubBlock_eq policy level)]
  exact .bind (.enterBlock policy level) fun opened => .runM policy opened.toList

end Local

end Dxil
