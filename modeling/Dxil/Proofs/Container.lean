import Dxil.Bits.Cursor
import Dxil.Container
import Dxil.ProgramHeader

/-!
# Dxil.Proofs.Container

Accesses to the bytes of a source. Once the size of a header is checked, every word and every slice
that is taken lies inside the bytes.

* `Confined` : reading never runs out of bytes, and a result is as said.
* `Container.ofBytes_confined` : all parts of a container are parts of its bytes.
* `ProgramHeader.locate_confined` : so is the bitcode of a program.
* `Cursor.word_lt_of_read` : a field that is read lies in words that exist.
-/

namespace Dxil

theorem isInfix_slice (bytes : List UInt8) (start size : Nat) :
    (bytes.drop start).take size <:+: bytes :=
  (List.take_prefix _ _).isInfix.trans (List.drop_suffix _ _).isInfix

theorem wordAt?_of_le {bytes : List UInt8} {offset : Nat} (h : offset + 4 ≤ bytes.length) :
    ∃ w, wordAt? bytes offset = some w := by
  have hlen : 4 ≤ (bytes.drop offset).length := by
    rw [List.length_drop]
    omega
  unfold wordAt?
  match bytes.drop offset, hlen with
  | _ :: _ :: _ :: _ :: _, _ => exact ⟨_, rfl⟩

def ContainerError.isShort : ContainerError → Bool
  | tooSmall _ => true
  | _ => false

def HeaderError.isShort : HeaderError → Bool
  | tooSmall _ => true
  | _ => false

/-- No error is one of those with `short`, and a result is as `Q` says. -/
def Confined {ε α : Type} (short : ε → Bool) (Q : α → Prop) : Except ε α → Prop
  | .ok a => Q a
  | .error e => short e = false

namespace Confined

variable {ε α β : Type} {short : ε → Bool} {P : α → Prop} {Q : β → Prop}

theorem bind {x : Except ε α} {f : α → Except ε β} (hx : Confined short P x)
    (hf : ∀ a, P a → Confined short Q (f a)) : Confined short Q (x >>= f) := by
  match x, hx with
  | .ok a, ha => exact hf a ha
  | .error _, h => exact h

theorem mapM {l : List α} {f : α → Except ε β} (h : ∀ a ∈ l, Confined short Q (f a)) :
    Confined short (fun bs => ∀ b ∈ bs, Q b) (l.mapM f) := by
  induction l with
  | nil =>
    rw [List.mapM_nil]
    exact fun _ hb => nomatch hb
  | cons a l ih =>
    rw [List.mapM_cons]
    refine (h a List.mem_cons_self).bind fun b hb =>
      (ih fun a ha => h a (List.mem_cons_of_mem _ ha)).bind fun bs hbs b' hb' => ?_
    rcases List.mem_cons.mp hb' with rfl | hb'
    · exact hb
    · exact hbs b' hb'

end Confined

/-! ## Containers -/

namespace Container

variable {bytes : List UInt8}

theorem word_confined {offset : Nat} (h : offset + 4 ≤ bytes.length) :
    Confined ContainerError.isShort (fun _ => True) (word bytes offset) := by
  obtain ⟨w, hw⟩ := wordAt?_of_le h
  rw [word, hw]
  exact trivial

theorem slice_confined {start size : Nat} (h : start + size ≤ bytes.length) :
    Confined ContainerError.isShort (· <:+: bytes) (slice bytes start size) := by
  rw [slice, slice?, if_pos h]
  exact isInfix_slice bytes start size

theorem chunkAt_confined {entry : Nat} (h : entry + 4 ≤ bytes.length) :
    Confined ContainerError.isShort (fun chunk => chunk.data <:+: bytes) (chunkAt bytes entry) := by
  refine (word_confined h).bind fun offset _ => ?_
  dsimp only
  split
  · exact rfl
  · rename_i hstart
    simp only [chunkHeaderSize, Nat.not_lt] at hstart
    refine (word_confined (by omega)).bind fun tag _ =>
      (word_confined (by omega)).bind fun size _ => ?_
    split
    · rename_i data hdata
      unfold slice? at hdata
      split at hdata
      · cases hdata
        exact isInfix_slice bytes _ _
      · cases hdata
    · exact rfl

theorem ofBytes_of_lt (h : bytes.length < headerSize) :
    ofBytes bytes = .error (.tooSmall bytes.length) := by
  unfold ofBytes
  rw [if_pos h]
  rfl

/-- Past the size of its header, a container has every word that is read of it, and consists of
slices of its bytes. -/
theorem ofBytes_confined (h : headerSize ≤ bytes.length) :
    Confined ContainerError.isShort
      (fun c => c.checksum <:+: bytes ∧ ∀ chunk ∈ c.chunks, chunk.data <:+: bytes)
      (ofBytes bytes) := by
  have h' : 32 ≤ bytes.length := h
  unfold ofBytes
  rw [if_neg (Nat.not_lt.mpr h)]
  refine (word_confined (by omega)).bind fun found _ => ?_
  split
  · exact rfl
  refine (slice_confined (by omega)).bind fun checksum hchecksum =>
    (word_confined (by omega)).bind fun version _ => ?_
  split
  · exact rfl
  refine (word_confined (by omega)).bind fun totalSize _ =>
    (word_confined (by omega)).bind fun count _ => ?_
  split
  · exact rfl
  · rename_i htable
    refine Confined.bind (Confined.mapM fun i hi => chunkAt_confined ?_) fun chunks hchunks =>
      ⟨hchecksum, hchunks⟩
    have := List.mem_range.mp hi
    omega

theorem infix_of_ofBytes {c : Container} (h : ofBytes bytes = .ok c) :
    c.checksum <:+: bytes ∧ ∀ chunk ∈ c.chunks, chunk.data <:+: bytes := by
  by_cases hlt : bytes.length < headerSize
  · rw [ofBytes_of_lt hlt] at h
    cases h
  · have hconfined := ofBytes_confined (Nat.le_of_not_lt hlt)
    rw [h] at hconfined
    exact hconfined

theorem lt_of_ofBytes_tooSmall {n : Nat} (h : ofBytes bytes = .error (.tooSmall n)) :
    bytes.length < headerSize := by
  refine Nat.lt_of_not_le fun hle => ?_
  have hconfined := ofBytes_confined hle
  rw [h] at hconfined
  cases hconfined

end Container

/-! ## Programs -/

theorem length_wordsOfBytes (bytes : List UInt8) :
    (wordsOfBytes bytes).length = (bytes.length + 3) / 4 := by
  fun_induction wordsOfBytes bytes with
  | case1 a b c d rest ih =>
    simp only [List.length_cons, ih]
    omega
  | case2 => rfl
  | case3 tail hshort hne =>
    match tail with
    | [] => exact absurd rfl hne
    | [_] | [_, _] | [_, _, _] => simp
    | a :: b :: c :: d :: rest => exact absurd rfl (hshort a b c d rest)

namespace ProgramHeader

theorem ofBytes?_of_le {bytes : List UInt8} (h : wordCount ≤ bytes.length / 4) :
    ∃ header, ofBytes? bytes = some header := by
  have h' : 6 ≤ bytes.length / 4 := h
  have hlen : (wordsOfBytes (bytes.take (4 * wordCount))).length = 6 := by
    rw [length_wordsOfBytes, List.length_take]
    simp only [wordCount]
    omega
  unfold ofBytes?
  match wordsOfBytes (bytes.take (4 * wordCount)), hlen with
  | [_, _, _, _, _, _], _ => exact ⟨_, rfl⟩

theorem locate_of_lt {bytes : List UInt8} (h : bytes.length / 4 < wordCount) :
    locate bytes = .error (.tooSmall bytes.length) := by
  unfold locate
  dsimp only
  rw [if_pos h]
  rfl

/-- Past the size of its header, a program has a header, and its bitcode is a slice of it with room
for two words. -/
theorem locate_confined {bytes : List UInt8} (h : wordCount ≤ bytes.length / 4) :
    Confined HeaderError.isShort (fun e => e.2 <:+: bytes ∧ 8 ≤ e.2.length) (locate bytes) := by
  obtain ⟨header, hheader⟩ := ofBytes?_of_le h
  unfold locate
  dsimp only
  rw [if_neg (Nat.not_lt.mpr h), hheader]
  dsimp only
  split
  · exact rfl
  split
  · exact rfl
  split
  · exact rfl
  split
  · exact rfl
  · exact ⟨isInfix_slice bytes _ _, Nat.le_of_not_lt ‹_›⟩

theorem infix_of_locate {bytes stream : List UInt8} {header : ProgramHeader}
    (h : locate bytes = .ok (header, stream)) : stream <:+: bytes ∧ 8 ≤ stream.length := by
  by_cases hlt : bytes.length / 4 < wordCount
  · rw [locate_of_lt hlt] at h
    cases h
  · have hconfined := locate_confined (Nat.le_of_not_lt hlt)
    rw [h] at hconfined
    exact hconfined

theorem lt_of_locate_tooSmall {bytes : List UInt8} {n : Nat}
    (h : locate bytes = .error (.tooSmall n)) : bytes.length / 4 < wordCount := by
  refine Nat.lt_of_not_le fun hle => ?_
  have hconfined := locate_confined hle
  rw [h] at hconfined
  cases hconfined

end ProgramHeader

/-! ## Words -/

namespace Cursor

theorem word_lt_of_read {width : Nat} {c c' : Cursor} {v : Nat}
    (h : read width c = .ok v c') {i : Nat} (hi : i < width) : (c.pos + i) / 32 < c.words.size := by
  unfold read at h
  split at h
  · cases h
  split at h
  · rename_i hleft
    unfold left at hleft
    omega
  · cases h

end Cursor

end Dxil
