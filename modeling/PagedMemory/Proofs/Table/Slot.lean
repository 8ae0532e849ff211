import PagedMemory.Table.Session
import Mathlib.Data.List.Perm.Basic
import Mathlib.Data.List.Nodup

/-!
# Slots of a frame

Read as a table, a frame is a partial map from slots to frames.  Writing one
word changes the map at one slot, and the list of all entries by one entry.

A frame is *clean* if each of its words is that of a page slot.  The slots of a
clean frame can be decoded as page slots, and encoded slots keep it clean.
-/

namespace PagedMemory.FrameContents

/-- The frame that a slot names, whatever the other bits of its word are. -/
def slot (contents : FrameContents) (index : Nat) : Option Frame :=
  contents.words[index]?.bind fun word => (TableWord.mk word).frame?

theorem slot_of_get {contents : FrameContents} {index : Nat} {word : UInt32}
    (read : contents.get index = .ok word) :
    contents.slot index = (TableWord.mk word).frame? := by
  unfold get at read
  split at read
  · rename_i bounded
    cases read
    simp [slot, bounded]
  · cases read

theorem get_of_slot {contents : FrameContents} {index : Nat} {frame : Frame}
    (named : contents.slot index = some frame) :
    index < slotsPerTable ∧ ∃ word, contents.get index = .ok word ∧
      (TableWord.mk word).frame? = some frame := by
  rcases Option.bind_eq_some_iff.mp named with ⟨word, found, points⟩
  rcases Vector.getElem?_eq_some_iff.mp found with ⟨bounded, rfl⟩
  exact ⟨bounded, _, get_of_lt contents bounded, points⟩

theorem slot_put (contents : FrameContents) {index : Nat} (word : UInt32)
    (bounded : index < slotsPerTable) (other : Nat) :
    (contents.put index word bounded).slot other =
      if other = index then (TableWord.mk word).frame? else contents.slot other := by
  unfold slot put
  by_cases same : other = index
  · subst same
    simp [bounded]
  · simp [same, Vector.getElem?_set_ne bounded (Ne.symm same)]

@[simp]
theorem slot_zero (index : Nat) : zero.slot index = none := by
  by_cases bounded : index < slotsPerTable
  · rw [slot_of_get (get_zero bounded)]
    exact TableWord.frame?_empty
  · simp [slot, bounded]

/-! ## Entries -/

theorem mem_frames_iff {contents : FrameContents} {index : Nat} {frame : Frame} :
    (index, frame) ∈ contents.frames ↔ contents.slot index = some frame := by
  rw [mem_frames]
  constructor
  · rintro ⟨word, read, points⟩
    rw [slot_of_get read, points]
  · intro named
    exact (get_of_slot named).2

theorem frames_eq (contents : FrameContents) :
    contents.frames = (List.range slotsPerTable).filterMap
      fun index => (contents.slot index).map (index, ·) := by
  apply List.filterMap_congr
  intro index member
  have bounded := List.mem_range.mp member
  cases points : (TableWord.mk contents.words[index]).frame? <;>
    simp [slot, bounded, points]

@[simp]
theorem frames_zero : zero.frames = [] := by
  apply List.eq_nil_iff_forall_not_mem.mpr
  rintro ⟨index, frame⟩ member
  have named := mem_frames_iff.mp member
  simp at named

theorem map_fst_frames_sublist (contents : FrameContents) :
    (contents.frames.map Prod.fst).Sublist (List.range slotsPerTable) := by
  rw [frames_eq, List.map_filterMap]
  have narrowed : ∀ indices : List Nat,
      (indices.filterMap fun index =>
        ((contents.slot index).map (index, ·)).map Prod.fst).Sublist indices := by
    intro indices
    induction indices with
    | nil => exact List.Sublist.slnil
    | cons index rest induction =>
        cases named : contents.slot index with
        | none => simpa [named] using induction.cons index
        | some frame => simpa [named] using induction.cons_cons index
  exact narrowed _

theorem nodup_frames (contents : FrameContents) : contents.frames.Nodup :=
  List.Nodup.of_map Prod.fst
    (List.nodup_range.sublist contents.map_fst_frames_sublist)

/-- The entries at all slots but one. -/
def framesExcept (contents : FrameContents) (index : Nat) : List (Nat × Frame) :=
  contents.frames.filter fun entry => entry.1 ≠ index

/-- The entry at a slot, if it has one, can be put in front of the others. -/
theorem frames_perm (contents : FrameContents) (index : Nat) :
    contents.frames.Perm
      (((contents.slot index).map (index, ·)).toList ++ contents.framesExcept index) := by
  rw [List.perm_ext_iff_of_nodup contents.nodup_frames]
  · rintro ⟨other, frame⟩
    by_cases same : other = index
    · subst same
      cases named : contents.slot other <;>
        simp [framesExcept, mem_frames_iff, named, eq_comm]
    · simp [framesExcept, mem_frames_iff, same, Ne.symm same]
  · apply List.Nodup.append
    · cases contents.slot index <;> simp
    · exact contents.nodup_frames.filter _
    · intro entry here there
      rcases Option.map_eq_some_iff.mp (Option.mem_toList.mp here) with ⟨frame, -, rfl⟩
      simp [framesExcept] at there

theorem framesExcept_put (contents : FrameContents) {index : Nat} (word : UInt32)
    (bounded : index < slotsPerTable) :
    (contents.put index word bounded).framesExcept index =
      contents.framesExcept index := by
  unfold framesExcept
  rw [frames_eq, frames_eq, List.filter_filterMap, List.filter_filterMap]
  apply List.filterMap_congr
  intro other member
  by_cases same : other = index
  · subst same
    rw [slot_put]
    cases contents.slot other <;> cases (TableWord.mk word).frame? <;>
      simp [Option.filter]
  · rw [slot_put, if_neg same]

/-- Filling an empty slot adds one entry. -/
theorem frames_put_of_empty {contents : FrameContents} {index : Nat}
    (bounded : index < slotsPerTable) (empty : contents.slot index = none)
    (frame : Frame) :
    (contents.put index (TableWord.ofFrame frame).bits bounded).frames.Perm
      ((index, frame) :: contents.frames) := by
  have before := contents.frames_perm index
  have after :=
    (contents.put index (TableWord.ofFrame frame).bits bounded).frames_perm index
  rw [framesExcept_put, slot_put, if_pos rfl, TableWord.frame?_ofFrame] at after
  rw [empty] at before
  exact after.trans (before.symm.cons _)

/-- Emptying a slot removes its entry. -/
theorem frames_of_put_empty {contents : FrameContents} {index : Nat} {frame : Frame}
    (bounded : index < slotsPerTable) (named : contents.slot index = some frame) :
    contents.frames.Perm
      ((index, frame) :: (contents.put index TableWord.empty.bits bounded).frames) := by
  have before := contents.frames_perm index
  have after := (contents.put index TableWord.empty.bits bounded).frames_perm index
  rw [framesExcept_put, slot_put, if_pos rfl, TableWord.frame?_empty] at after
  rw [named] at before
  exact before.trans (after.symm.cons _)

/-! ## Clean tables -/

/-- Every word is the one of a page slot: it is zero, or it points at a frame and nothing else. -/
def Clean (contents : FrameContents) : Prop :=
  ∀ index word, contents.get index = .ok word → ∃ slot : PageSlot, word = slot.encode.bits

theorem clean_zero : zero.Clean := by
  intro index word read
  by_cases bounded : index < slotsPerTable
  · rw [get_zero bounded] at read
    cases read
    exact ⟨.unmapped, rfl⟩
  · simp [get, bounded] at read

theorem Clean.put {contents : FrameContents} (clean : contents.Clean) {index : Nat}
    (bounded : index < slotsPerTable) (slot : PageSlot) :
    (contents.put index slot.encode.bits bounded).Clean := by
  intro other word read
  rw [get_put] at read
  split at read
  · cases read
    exact ⟨slot, rfl⟩
  · exact clean other word read

/-- A slot of a clean table can be decoded. -/
theorem Clean.decode {contents : FrameContents} (clean : contents.Clean)
    {index : Nat} {word : UInt32} (read : contents.get index = .ok word) :
    PageSlot.decode ⟨word⟩ = .ok (.ofFrame? (contents.slot index)) := by
  rw [slot_of_get read]
  rcases clean index word read with ⟨slot, rfl⟩
  have encoded : TableWord.mk slot.encode.bits = slot.encode := rfl
  rw [encoded, PageSlot.decode_encode]
  cases slot with
  | unmapped => rfl
  | backed frame =>
      have points : (PageSlot.backed frame).encode.frame? = some frame :=
        TableWord.frame?_ofFrame frame
      rw [points]
      rfl

theorem decode_directory {contents : FrameContents} {index : Nat} {word : UInt32}
    (read : contents.get index = .ok word) :
    DirectorySlot.decode ⟨word⟩ = .ofFrame? (contents.slot index) := by
  rw [slot_of_get read]
  cases points : (TableWord.mk word).frame? <;>
    simp [DirectorySlot.decode, points, DirectorySlot.ofFrame?]

end PagedMemory.FrameContents
