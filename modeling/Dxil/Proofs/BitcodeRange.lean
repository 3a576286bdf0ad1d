import Dxil.Proofs.Container
import Dxil.Proofs.ContainerLayout

/-!
# Dxil.Proofs.BitcodeRange

The bitcode that a header locates, against the range of bytes that it declares. The range begins
eight bytes into the program and the offset after that, but its size is compared with what is left
after the offset alone, so that up to eight bytes of it may lie beyond the end. These are left out.

* `ProgramHeader.Within` : the declared range lies inside the program.
* `ProgramHeader.Accepted` : what is checked of a header.
* `ProgramHeader.locate_eq_ok_iff` : nothing else is.
* `ProgramHeader.locate_bitcode` : which bytes are located, and how many of the range are missing.
* `ProgramHeader.locate_not_always_whole` : some may be.
-/

namespace Dxil

namespace ProgramHeader

/-- Where the declared range begins. The offset is counted from the magic word. -/
def start (h : ProgramHeader) : Nat := 8 + h.bitcodeOffset.toNat

def Within (h : ProgramHeader) (size : Nat) : Prop := h.start + h.bitcodeSize.toNat ≤ size

instance (h : ProgramHeader) (size : Nat) : Decidable (h.Within size) :=
  inferInstanceAs (Decidable (_ ≤ _))

structure Accepted (h : ProgramHeader) (size : Nat) : Prop where
  tokens : wordCount ≤ h.tokenCount.toNat
  words : h.tokenCount.toNat ≤ size / 4
  offset : 16 ≤ h.bitcodeOffset.toNat
  -- The eight bytes before the magic word are not counted here.
  fits : h.bitcodeOffset.toNat + h.bitcodeSize.toNat ≤ size
  least : 8 ≤ h.bitcodeSize.toNat
  room : h.start + 8 ≤ size

variable {bytes stream : List UInt8} {h : ProgramHeader}

theorem length_bitcode (h : ProgramHeader) (bytes : List UInt8) :
    (h.bitcode bytes).length = min h.bitcodeSize.toNat (bytes.length - h.start) := by
  rw [bitcode, List.length_take, List.length_drop, start]

theorem locate_of_ofBytes? (hsize : wordCount ≤ bytes.length / 4)
    (hheader : ofBytes? bytes = some h) : locate bytes =
      if h.tokenCount.toNat < wordCount ∨ bytes.length / 4 < h.tokenCount.toNat then
        .error (.invalidTokenCount h.tokenCount (bytes.length / 4))
      else if h.bitcodeOffset.toNat < 16 ∨ bytes.length ≤ h.bitcodeOffset.toNat then
        .error (.invalidOffset h.bitcodeOffset bytes.length)
      else if bytes.length - h.bitcodeOffset.toNat < h.bitcodeSize.toNat then
        .error (.invalidSize h.bitcodeSize bytes.length h.bitcodeOffset)
      else if (h.bitcode bytes).length < 8 then
        .error (.invalidSize h.bitcodeSize bytes.length h.bitcodeOffset)
      else .ok (h, h.bitcode bytes) := by
  unfold locate
  dsimp only
  rw [if_neg (Nat.not_lt.mpr hsize), hheader]
  dsimp only
  split
  · rfl
  split
  · rfl
  split
  · rfl
  split
  · rfl
  · rfl

theorem locate_of_accepted (haccepted : h.Accepted bytes.length)
    (hheader : ofBytes? bytes = some h) : locate bytes = .ok (h, h.bitcode bytes) := by
  obtain ⟨htokens, hwords, hoffset, hfits, hleast, hroom⟩ := haccepted
  have hlength := h.length_bitcode bytes
  unfold start at hroom hlength
  rw [locate_of_ofBytes? (Nat.le_trans htokens hwords) hheader, if_neg (by omega),
    if_neg (by omega), if_neg (by omega), if_neg (by omega)]

theorem accepted_of_locate (hlocate : locate bytes = .ok (h, stream)) :
    ofBytes? bytes = some h ∧ h.Accepted bytes.length ∧ stream = h.bitcode bytes := by
  by_cases hsize : bytes.length / 4 < wordCount
  · rw [locate_of_lt hsize] at hlocate
    cases hlocate
  obtain ⟨h', hheader⟩ := ofBytes?_of_le (Nat.le_of_not_lt hsize)
  rw [locate_of_ofBytes? (Nat.le_of_not_lt hsize) hheader] at hlocate
  split at hlocate
  · cases hlocate
  split at hlocate
  · cases hlocate
  split at hlocate
  · cases hlocate
  split at hlocate
  · cases hlocate
  · rename_i htokens hoffset hfits hleast
    cases hlocate
    rw [length_bitcode] at hleast
    refine ⟨hheader, ⟨?_, ?_, ?_, ?_, ?_, ?_⟩, rfl⟩
    all_goals omega

theorem locate_eq_ok_iff :
    locate bytes = .ok (h, stream) ↔
      ofBytes? bytes = some h ∧ h.Accepted bytes.length ∧ stream = h.bitcode bytes := by
  constructor
  · exact accepted_of_locate
  · rintro ⟨hheader, haccepted, rfl⟩
    exact locate_of_accepted haccepted hheader

/-- The bitcode of a program begins where its header declares, and goes to the end of the declared
range or of the program, whichever comes first. So it has the declared size exactly if the range
lies inside the program. If not, what lies beyond the end is missing, which is eight bytes at the
most: a program with less of the range is rejected. -/
theorem locate_bitcode (bytes : List UInt8) :
    (∀ h stream, locate bytes = .ok (h, stream) →
      ofBytes? bytes = some h ∧
      stream = (bytes.drop h.start).take h.bitcodeSize.toNat ∧
      (stream.length = h.bitcodeSize.toNat ↔ h.Within bytes.length) ∧
      stream.length + (h.start + h.bitcodeSize.toNat - bytes.length) = h.bitcodeSize.toNat ∧
      h.bitcodeSize.toNat ≤ stream.length + 8) ∧
    ∀ h, ofBytes? bytes = some h → bytes.length + 8 < h.start + h.bitcodeSize.toNat →
      ∃ e, locate bytes = .error e := by
  constructor
  · intro h stream hlocate
    obtain ⟨hheader, haccepted, rfl⟩ := locate_eq_ok_iff.mp hlocate
    have hlength := h.length_bitcode bytes
    have hfits := haccepted.fits
    have hroom := haccepted.room
    unfold Within
    refine ⟨hheader, rfl, ?_, ?_, ?_⟩
    · omega
    · omega
    · unfold start at hlength
      omega
  · intro h hheader hbeyond
    cases hlocate : locate bytes with
    | error e => exact ⟨e, rfl⟩
    | ok found =>
      obtain ⟨hheader', haccepted, -⟩ := locate_eq_ok_iff.mp hlocate
      rw [hheader] at hheader'
      cases hheader'
      have hfits := haccepted.fits
      unfold start at hbeyond
      omega

/-- A header that declares four words of bitcode, for a program that has two. -/
def overlong : ProgramHeader := { ofVersion 0 6 0 8 with bitcodeSize := 16 }

def overlongProgram : List UInt8 := overlong.bytes ++ [0x42, 0x43, 0xc0, 0xde, 0x21, 0, 0, 0]

theorem locate_overlongProgram :
    locate overlongProgram = .ok (overlong, [0x42, 0x43, 0xc0, 0xde, 0x21, 0, 0, 0]) := by
  have haccepted : overlong.Accepted overlongProgram.length := by
    constructor <;> decide
  exact locate_eq_ok_iff.mpr ⟨ofBytes?_bytes overlong _, haccepted, rfl⟩

/-- Half of the range is missing. -/
theorem locate_bitcode_overlong :
    ∃ stream, locate overlongProgram = .ok (overlong, stream) ∧
      ¬ overlong.Within overlongProgram.length ∧
      stream.length + 8 = overlong.bitcodeSize.toNat := by
  have hlocate := locate_overlongProgram
  obtain ⟨-, -, hwhole, -, -⟩ := (locate_bitcode overlongProgram).1 _ _ hlocate
  exact ⟨_, hlocate, mt hwhole.mpr (by decide), rfl⟩

/-- So less may be located than is declared, and a range need not lie inside the program. -/
theorem locate_not_always_whole :
    ¬ ((∀ (bytes stream : List UInt8) (h : ProgramHeader), locate bytes = .ok (h, stream) →
        stream.length = h.bitcodeSize.toNat ∧
          stream = (bytes.drop h.start).take h.bitcodeSize.toNat) ∧
      ∀ (bytes : List UInt8) (h : ProgramHeader), ofBytes? bytes = some h →
        ¬ h.Within bytes.length → ∃ e, locate bytes = .error e) := by
  rintro ⟨hwhole, -⟩
  have hlength := (hwhole _ _ _ locate_overlongProgram).1
  revert hlength
  decide

end ProgramHeader

end Dxil
