import PagedMemory.Table.Slots

/-!
# Physical memory

RAM is a run of consecutive frames.  Reading or writing a frame outside it
panics; merely talking about such a frame does not.
-/

namespace PagedMemory

/-- The physical memory of the machine. -/
structure Ram where
  /-- The number of the lowest frame. -/
  first : Nat
  frames : Array FrameContents
  deriving DecidableEq

namespace Ram

/-- Memory in which every byte has the same value. -/
def filled (first count : Nat) (byte : UInt8) : Ram :=
  ⟨first, Array.replicate count (.filled byte)⟩

/-- Whether a frame lies in RAM. -/
def holds (ram : Ram) (frame : Frame) : Bool :=
  decide (ram.first ≤ frame.number) && decide (frame.number - ram.first < ram.frames.size)

/-- The contents of a frame. -/
def read (ram : Ram) (frame : Frame) : Checked FrameContents :=
  if held : ram.holds frame then
    have inside : frame.number - ram.first < ram.frames.size := by
      simpa [holds] using And.right (by simpa [holds] using held)
    .ok ram.frames[frame.number - ram.first]
  else
    .error .unreachableFrame

/-- Change the contents of a frame. -/
def modify (ram : Ram) (frame : Frame) (change : FrameContents → FrameContents) : Checked Ram :=
  if ram.holds frame then
    match ram with
    | ⟨first, frames⟩ => .ok ⟨first, frames.modify (frame.number - first) change⟩
  else
    .error .unreachableFrame

/-- Replace the contents of a frame. -/
def write (ram : Ram) (frame : Frame) (contents : FrameContents) : Checked Ram :=
  ram.modify frame fun _ => contents

/-- The word at an index in a frame. -/
def readWord (ram : Ram) (frame : Frame) (index : Nat) : Checked UInt32 := do
  (← ram.read frame).get index

/-- Replace the word at an index in a frame. -/
def writeWord (ram : Ram) (frame : Frame) (index : Nat) (word : UInt32) : Checked Ram :=
  if bounded : index < slotsPerTable then
    ram.modify frame fun contents => contents.put index word bounded
  else
    .error .indexOutOfBounds

/-- Copy the contents of a frame; the two frames must differ. -/
def copy (ram : Ram) (source target : Frame) : Checked Ram := do
  Checked.require (source ≠ target) .selfCopy
  let contents ← ram.read source
  ram.write target contents

/-! ## Reading after writing -/

@[simp]
theorem holds_modify {ram after : Ram} {frame : Frame} {change : FrameContents → FrameContents}
    (modified : ram.modify frame change = .ok after) (other : Frame) :
    after.holds other = ram.holds other := by
  unfold modify at modified
  split at modified
  · simp only [Except.ok.injEq] at modified
    subst modified
    simp [holds]
  · simp at modified

theorem modify_eq_ok {ram : Ram} {frame : Frame} {change : FrameContents → FrameContents}
    (held : ram.holds frame = true) : ∃ after, ram.modify frame change = .ok after := by
  simp [modify, held]

/-- A change reaches the frame it is meant for and no other. -/
theorem read_modify {ram after : Ram} {frame : Frame} {change : FrameContents → FrameContents}
    (modified : ram.modify frame change = .ok after) (other : Frame) :
    after.read other =
      if other = frame then (ram.read frame).map change else ram.read other := by
  have same := holds_modify modified other
  unfold modify at modified
  split at modified
  · rename_i held
    simp only [Except.ok.injEq] at modified
    subst modified
    by_cases target : other = frame
    · subst target
      simp [read, same, held, Except.map, Array.getElem_modify]
    · by_cases reached : ram.holds other = true
      · have apart : frame.number - ram.first ≠ other.number - ram.first := by
          intro equal
          apply target
          rw [← Block.number_inj]
          simp only [holds, Bool.and_eq_true, decide_eq_true_eq] at held reached
          omega
        simp [read, same, reached, target, Array.getElem_modify, apart]
      · simp [read, same, reached, target]
  · simp at modified

end Ram

end PagedMemory
