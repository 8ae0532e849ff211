import PagedMemory.Address

/-!
# Table words

Both levels of the page table consist of 32-bit words of one layout:

| Bits  | Field        | Meaning                         |
|-------|--------------|---------------------------------|
| 0     | valid        | the frame number is meaningful  |
| 1–11  | reserved     | zero in every word written here |
| 12–31 | frame number | the frame the word points at    |

Changing one field leaves the others as they are, the reserved one included.
-/

namespace PagedMemory

/-- A word of a page table or page directory. -/
structure TableWord where
  bits : UInt32
  deriving DecidableEq

namespace TableWord

/-- The word of an empty slot. -/
def empty : TableWord := ⟨0⟩

/-- Whether the frame number is meaningful. -/
def isValid (word : TableWord) : Bool :=
  word.bits.toNat % 2 == 1

/-- The address formed by the upper bits, taken as a frame. -/
def target (word : TableWord) : Frame :=
  Address.block ⟨word.bits⟩

/-- The number in the upper twenty bits. -/
def frameNumber (word : TableWord) : Nat :=
  word.target.number

/-- The frame the word points at, if it is valid. -/
def frame? (word : TableWord) : Option Frame :=
  if word.isValid then some word.target else none

/-- Change the valid bit only. -/
def withValid (word : TableWord) (valid : Bool) : TableWord :=
  ⟨UInt32.ofNat (word.bits.toNat / 2 * 2 + valid.toNat)⟩

/-- Change the frame number only. -/
def withFrame (word : TableWord) (frame : Frame) : TableWord :=
  ⟨UInt32.ofNat (frame.number * pageSize + word.bits.toNat % pageSize)⟩

/-- Change the frame number only, if the new one fits its field. -/
def withFrameNumber (word : TableWord) (number : Nat) : Checked TableWord :=
  (Block.ofNumber number).map word.withFrame

/-- The valid word that points at a frame. -/
def ofFrame (frame : Frame) : TableWord :=
  (empty.withValid true).withFrame frame

/-- The word as it stands in diagnostic text; the reserved bits are not shown. -/
def inspect (word : TableWord) : String :=
  s!"PageEntryBits \x7b valid: {word.isValid}, frame_number: {word.frameNumber} \x7d"

/-! ## Reading back what was written -/

theorem toNat_bits_ofFrame (frame : Frame) :
    (ofFrame frame).bits.toNat = frame.number * pageSize + 1 := by
  have bounded := frame.number_lt
  have flagged : (empty.withValid true).bits.toNat = 1 := rfl
  simp only [ofFrame, withFrame, flagged, pageSize, blockLimit] at *
  exact UInt32.toNat_ofNat_of_lt' (by simpa [UInt32.size] using by omega)

@[simp]
theorem isValid_empty : empty.isValid = false :=
  rfl

@[simp]
theorem frame?_empty : empty.frame? = none :=
  rfl

@[simp]
theorem frame?_ofFrame (frame : Frame) : (ofFrame frame).frame? = some frame := by
  have value := toNat_bits_ofFrame frame
  have valid : (ofFrame frame).isValid = true := by
    simp only [isValid, value, pageSize, beq_iff_eq]
    omega
  simp only [frame?, valid, if_true, Option.some.injEq, ← Block.number_inj]
  simp only [target, Address.number_block, Address.toNat, value, pageSize]
  omega

end TableWord

end PagedMemory
