import PagedMemory.Proofs.Memory.Ensures
import PagedMemory.Proofs.Table.Tree

/-!
# Reading and writing frames

What the steps on RAM do, for frames that are in RAM.  Reading a slot answers
what the frame names there; writing replaces the contents of one frame and
leaves pool, allowance and log alone.
-/

namespace PagedMemory.Memory

variable {memory : Memory} {frame : Frame} {index : Nat}

/-- Only one frame of RAM has been given other contents. -/
structure Writes (before : Memory) (frame : Frame) (contents : FrameContents)
    (after : Memory) : Prop where
  replaced : Ram.Replaced before.ram frame contents after.ram
  pool : after.pool = before.pool
  allowance : after.allowance = before.allowance
  log : after.log = before.log

theorem changeRam_ensures {change : Ram → Checked Ram} {contents : FrameContents}
    (changed : ∃ ram, change memory.ram = .ok ram ∧
      Ram.Replaced memory.ram frame contents ram) :
    Ensures (changeRam change) memory
      fun _ after => Writes memory frame contents after := by
  rcases changed with ⟨ram, success, replaced⟩
  exact Ensures.changeRam success ⟨replaced, rfl, rfl, rfl⟩

theorem zeroFrame_ensures (held : memory.ram.holds frame = true) :
    Ensures (zeroFrame frame) memory fun _ after => Writes memory frame .zero after :=
  changeRam_ensures (Ram.write_of_holds held .zero)

theorem fillFrame_ensures (held : memory.ram.holds frame = true) (byte : UInt8) :
    Ensures (fillFrame frame byte) memory
      fun _ after => Writes memory frame (.filled byte) after :=
  changeRam_ensures (Ram.write_of_holds held (.filled byte))

theorem copyFrame_ensures {source : Frame} (apart : source ≠ frame)
    (readable : memory.ram.holds source = true) (held : memory.ram.holds frame = true) :
    Ensures (copyFrame source frame) memory
      fun _ after => Writes memory frame (memory.ram.contentsOf source) after :=
  changeRam_ensures (Ram.copy_of_holds apart readable held)

/-- Whatever is to be copied, a copy that is made is written into the one frame. -/
theorem copyFrame_leaves (source frame : Frame) :
    Leaves (copyFrame source frame) memory
      fun _ after => Writes memory frame (memory.ram.contentsOf source) after := by
  intro _ after returns
  rcases changeRam_eq_ok.mp returns with ⟨ram, copied, rfl⟩
  rcases Ram.holds_of_copy copied with ⟨apart, readable, held⟩
  exact (copyFrame_ensures apart readable held).of_returns returns

theorem writeWord_ensures (held : memory.ram.holds frame = true)
    (bounded : index < slotsPerTable) (word : UInt32) :
    Ensures (writeWord frame index word) memory fun _ after =>
      Writes memory frame ((memory.ram.contentsOf frame).put index word bounded) after :=
  changeRam_ensures (Ram.writeWord_of_holds held bounded word)

theorem setDirectorySlot_ensures (held : memory.ram.holds frame = true)
    (bounded : index < slotsPerTable) (slot : DirectorySlot) :
    Ensures (setDirectorySlot frame index slot) memory fun _ after =>
      Writes memory frame
        ((memory.ram.contentsOf frame).put index slot.encode.bits bounded) after :=
  writeWord_ensures held bounded slot.encode.bits

theorem setPageSlot_ensures (held : memory.ram.holds frame = true)
    (bounded : index < slotsPerTable) (slot : PageSlot) :
    Ensures (setPageSlot frame index slot) memory fun _ after =>
      Writes memory frame
        ((memory.ram.contentsOf frame).put index slot.encode.bits bounded) after :=
  writeWord_ensures held bounded slot.encode.bits

/-! ## Reading -/

theorem contents_ensures (held : memory.ram.holds frame = true) :
    Ensures (contents frame) memory fun found after =>
      after = memory ∧ found = memory.ram.contentsOf frame :=
  Ensures.inspectRam (Ram.read_of_holds held) ⟨rfl, rfl⟩

theorem readWord_ensures (held : memory.ram.holds frame = true)
    (bounded : index < slotsPerTable) :
    Ensures (readWord frame index) memory fun word after =>
      after = memory ∧ (memory.ram.contentsOf frame).get index = .ok word := by
  rcases Ram.readWord_of_holds held bounded with ⟨word, read, found⟩
  exact Ensures.inspectRam read ⟨rfl, found⟩

theorem directorySlot_ensures (held : memory.ram.holds frame = true)
    (bounded : index < slotsPerTable) :
    Ensures (directorySlot frame index) memory fun slot after =>
      after = memory ∧ slot = .ofFrame? (memory.ram.slot frame index) := by
  refine (readWord_ensures held bounded).bind ?_
  rintro word after ⟨rfl, found⟩
  exact Ensures.pure ⟨rfl, FrameContents.decode_directory found⟩

theorem slotFrame?_ensures (held : memory.ram.holds frame = true)
    (bounded : index < slotsPerTable) :
    Ensures (slotFrame? frame index) memory fun found after =>
      after = memory ∧ found = memory.ram.slot frame index := by
  refine (readWord_ensures held bounded).bind ?_
  rintro word after ⟨rfl, found⟩
  exact Ensures.pure ⟨rfl, (FrameContents.slot_of_get found).symm⟩

/-- Looking at a slot changes nothing, wherever it is. -/
theorem slotFrame?_leaves (frame : Frame) (index : Nat) :
    Leaves (slotFrame? frame index) memory fun _ after => after = memory := by
  refine Leaves.bind (fun _ after read => (inspectRam_eq_ok.mp read).2) ?_
  rintro word after rfl
  exact Leaves.pure rfl

/-- The slots of a clean table can be read. -/
theorem pageSlot_ensures (held : memory.ram.holds frame = true)
    (bounded : index < slotsPerTable) (clean : (memory.ram.contentsOf frame).Clean) :
    Ensures (pageSlot frame index) memory fun slot after =>
      after = memory ∧ slot = .ofFrame? (memory.ram.slot frame index) := by
  refine (readWord_ensures held bounded).bind ?_
  rintro word after ⟨rfl, found⟩
  refine ⟨.ofFrame? (after.ram.slot frame index), after, ?_, rfl, rfl⟩
  rw [clean.decode found]
  rfl

theorem tables_ensures (held : memory.ram.holds frame = true) :
    Ensures (tables frame) memory fun found after =>
      after = memory ∧ found = (memory.ram.contentsOf frame).frames := by
  refine (contents_ensures held).bind ?_
  rintro found after ⟨rfl, rfl⟩
  exact Ensures.pure ⟨rfl, rfl⟩

theorem backed_ensures (held : memory.ram.holds frame = true) :
    Ensures (backed frame) memory fun found after =>
      after = memory ∧ found = (memory.ram.contentsOf frame).frames := by
  refine (contents_ensures held).bind ?_
  rintro found after ⟨rfl, rfl⟩
  exact Ensures.pure ⟨rfl, rfl⟩

end PagedMemory.Memory
