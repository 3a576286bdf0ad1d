import Dxil.Proofs.Stream.Local

/-!
# Dxil.Proofs.Stream.SelfDelimiting

A stream says itself where it ends: what follows the root block has no influence, and a stream that
breaks off before its end is always noticed as such.

* `visitWords_of_agree`, `visitWords_of_short` : words that are alike up to the end of the root
  block, whole or broken off.
* `Bitcode.ofWords_selfDelimiting` : the tree of blocks.
-/

namespace Dxil

section

variable {policy : EntryPolicy} {old new : Array UInt32} {events : Array Event} {c : Cursor}

/-- A stream that starts like `old` opens like it, if it is long enough to open at all. -/
theorem Opens.of_agree {start : Cursor} (h : Opens old start) (hagree : Agree old new 34)
    (hsize : 2 ≤ new.size) : ∃ d, Opens new d ∧ start.inWords new = some d := by
  obtain ⟨⟨first, hfirst, hid⟩, rfl, hpos⟩ := h
  have hsame : new[1]? = start.words[1]? := hagree 1 (by omega) (by omega)
  refine ⟨⟨new, 34, by omega⟩, ⟨⟨first, hsame.trans hfirst, hid⟩, rfl, rfl⟩, ?_⟩
  exact Cursor.inWords_eq_some.mpr ⟨rfl, hpos.symm⟩

theorem passes_of_visitWords_ok (h : visitWords policy old = (events, .ok c)) :
    ∃ start r, Opens old start ∧ r.events = events ∧ r.cursor = c ∧
      Passes (.bits .bufferOverflow) (readSubBlock policy 0) { cursor := start } () r := by
  obtain ⟨start, r, hopens, hread, hevents, hcursor⟩ := opens_of_visitWords_ok h
  exact ⟨start, r, hopens, hevents, hcursor, Local.readSubBlock policy 0 _ () r hread⟩

theorem visitWords_of_agree (h : visitWords policy old = (events, .ok c))
    (hagree : Agree old new c.pos) (hlen : c.pos ≤ 32 * new.size) :
    ∃ d : Cursor, d.pos = c.pos ∧ visitWords policy new = (events, .ok d) := by
  obtain ⟨start, r, hopens, rfl, rfl, hpass⟩ := passes_of_visitWords_ok h
  have hforward : start.pos ≤ r.cursor.pos := hpass.forward
  have hstart := hopens.pos
  obtain ⟨d, hopens', hd⟩ := hopens.of_agree (hagree.mono (by omega)) (by omega)
  have hd' : r.cursor.inWords new = some ⟨new, r.cursor.pos, hlen⟩ :=
    Cursor.inWords_eq_some.mpr ⟨rfl, rfl⟩
  have hread := hpass.same new d _ (hopens.words ▸ hagree) hd hd'
  refine ⟨⟨new, r.cursor.pos, hlen⟩, rfl, ?_⟩
  rw [visitWords_of_opens hopens']
  exact congrArg outcome hread

theorem visitWords_of_short (h : visitWords policy old = (events, .ok c))
    (hagree : Agree old new c.pos) (hlen : 32 * new.size < c.pos) :
    ∃ delivered, visitWords policy new = (delivered, .error (.bits .bufferOverflow)) ∧
      delivered.toList <+: events.toList := by
  obtain ⟨start, r, hopens, rfl, rfl, hpass⟩ := passes_of_visitWords_ok h
  by_cases hsize : 2 ≤ new.size
  · have hforward : start.pos ≤ r.cursor.pos := hpass.forward
    have hstart := hopens.pos
    obtain ⟨d, hopens', hd⟩ := hopens.of_agree (hagree.mono (by omega)) hsize
    obtain ⟨q, hread, hbegin⟩ :=
      hpass.short new d (hopens.words ▸ hagree) hd (Cursor.inWords_eq_none.mpr hlen)
    refine ⟨q.events, ?_, hbegin⟩
    rw [visitWords_of_opens hopens']
    exact congrArg outcome hread
  · -- Not even the word that opens the root block is there.
    refine ⟨#[], ?_, List.nil_prefix⟩
    have hnone : new[1]? = none := Array.getElem?_eq_none (by omega)
    simp only [visitWords, hnone]

theorem end_of_visitWords_ok (h : visitWords policy old = (events, .ok c)) :
    c.words = old ∧ c.bit = 0 ∧ 34 ≤ c.pos := by
  obtain ⟨start, r, hopens, hread, -, rfl⟩ := opens_of_visitWords_ok h
  have hpass := Local.readSubBlock policy 0 _ () r hread
  exact ⟨hpass.words.trans hopens.words, bit_of_readSubBlock hread, hopens.pos ▸ hpass.forward⟩

end

theorem agree_take_append {w : List UInt32} {k : Nat} (hk : k ≤ w.length) (x : List UInt32) :
    Agree w.toArray (w.take k ++ x).toArray (32 * k) := by
  intro i _ hlt
  have hi : i < (w.take k).length := by
    rw [List.length_take]
    omega
  rw [List.getElem?_toArray, List.getElem?_toArray, List.getElem?_append_left hi,
    List.getElem?_take_of_lt (by omega)]

theorem agree_take (w : List UInt32) (k limit : Nat) :
    Agree w.toArray (w.take k).toArray limit := by
  intro i hi _
  rw [List.size_toArray, List.length_take] at hi
  rw [List.getElem?_toArray, List.getElem?_toArray, List.getElem?_take_of_lt (by omega)]

theorem Bitcode.ofWords_eq_ok {words : Array UInt32} {b : Bitcode} :
    Bitcode.ofWords words = .ok b ↔ ∃ events c, visitWords .all words = (events, .ok c) ∧
      Block.ofEvents? events = some b.root ∧ b.magic = words.getD 0 0 ∧ b.endPosition = c.word ∧
      b.wordCount = words.size := by
  unfold ofWords
  constructor
  · intro h
    split at h
    · cases h
    · rename_i events c hvisit
      cases hroot : Block.ofEvents? events with
      | none =>
        rw [hroot] at h
        cases h
      | some root =>
        rw [hroot] at h
        cases h
        exact ⟨events, c, hvisit, hroot, rfl, rfl, rfl⟩
  · rintro ⟨events, c, hvisit, hroot, hmagic, hend, hcount⟩
    simp only [hvisit, hroot, ← hmagic, ← hend, ← hcount]

/-- A stream ends where its root block ends. What is put behind that is left alone. A stream that is
cut off before that runs past its end, after a beginning of the same events. -/
theorem Bitcode.ofWords_selfDelimiting {w : List UInt32} {b : Bitcode}
    (h : Bitcode.ofWords w.toArray = .ok b) :
    (∀ x, Bitcode.ofWords (w.take b.endPosition ++ x).toArray =
      .ok { b with wordCount := b.endPosition + x.length }) ∧
    ∀ k < b.endPosition, Bitcode.ofWords (w.take k).toArray = .error (.bits .bufferOverflow) ∧
      (visitWords .all (w.take k).toArray).1.toList <+: (visitWords .all w.toArray).1.toList := by
  obtain ⟨events, c, hvisit, hroot, hmagic, hend, hcount⟩ := Bitcode.ofWords_eq_ok.mp h
  obtain ⟨hwords, hbit, hstart⟩ := end_of_visitWords_ok hvisit
  -- The root block ends at the start of word `endPosition`.
  have hpos : c.pos = 32 * b.endPosition := by
    rw [hend]
    simp only [Cursor.bit, Cursor.word] at hbit ⊢
    omega
  have hle : b.endPosition ≤ w.length := by
    have hle := c.pos_le
    rw [hwords, List.size_toArray] at hle
    omega
  constructor
  · intro x
    have hagree := agree_take_append hle x
    have hlen : (w.take b.endPosition ++ x).length = b.endPosition + x.length := by
      rw [List.length_append, List.length_take, Nat.min_eq_left hle]
    obtain ⟨d, hd, hvisit'⟩ := visitWords_of_agree hvisit (hpos ▸ hagree)
      (by rw [List.size_toArray]; omega)
    refine Bitcode.ofWords_eq_ok.mpr ⟨events, d, hvisit', hroot, ?_, ?_, ?_⟩
    · -- The magic word stands before the end.
      have hfirst := hagree 0 (by rw [List.size_toArray]; omega) (by omega)
      rw [hmagic, Array.getD_eq_getD_getElem?, Array.getD_eq_getD_getElem?, hfirst]
    · rw [Cursor.word, hd, hend, Cursor.word]
    · exact hlen.symm
  · intro k hk
    have hlen : 32 * (w.take k).toArray.size < c.pos := by
      rw [List.size_toArray, List.length_take]
      omega
    obtain ⟨delivered, hvisit', hbegin⟩ := visitWords_of_short hvisit (agree_take w k _) hlen
    rw [hvisit', hvisit]
    refine ⟨?_, hbegin⟩
    simp only [Bitcode.ofWords, hvisit']

/-- A module with an abbreviated record and a block inside, and a word behind its end. -/
theorem Bitcode.ofWords_selfDelimiting_nested :
    let w : List UInt32 := [0xdec04342, 0xc21, 8, 0x390c0f1a, 0x8908100, 1, 3, 0x82080107,
      0x60820820, 0, 0, 0xffffffff]
    ∃ b, Bitcode.ofWords w.toArray = .ok b ∧ b.endPosition = 11 ∧
      (∀ x, Bitcode.ofWords (w.take b.endPosition ++ x).toArray =
        .ok { b with wordCount := b.endPosition + x.length }) ∧
      ∀ k < b.endPosition, Bitcode.ofWords (w.take k).toArray = .error (.bits .bufferOverflow) ∧
        (visitWords .all (w.take k).toArray).1.toList <+:
          (visitWords .all w.toArray).1.toList := by
  intro w
  have hend : (Bitcode.ofWords w.toArray).toOption.map Bitcode.endPosition = some 11 := by
    decide +kernel
  cases h : Bitcode.ofWords w.toArray with
  | error e =>
    rw [h] at hend
    cases hend
  | ok b =>
    rw [h] at hend
    exact ⟨b, rfl, Option.some.inj hend, Bitcode.ofWords_selfDelimiting h⟩

end Dxil
