import PagedMemory.Table.Word

/-!
# Contents of a frame

A frame holds `slotsPerTable` words of 32 bits, least significant byte first.
The same words are plain data or the slots of a page table, depending on who
reads them.
-/

namespace PagedMemory

/-- The words stored in one frame. -/
structure FrameContents where
  words : Vector UInt32 slotsPerTable
  deriving DecidableEq

namespace FrameContents

/-- The bytes of a word, least significant first. -/
def wordBytes (word : UInt32) : List UInt8 :=
  [word.toUInt8, (word >>> 8).toUInt8, (word >>> 16).toUInt8, (word >>> 24).toUInt8]

/-- A frame in which every byte has the same value. -/
def filled (byte : UInt8) : FrameContents :=
  ⟨Vector.replicate slotsPerTable (byte.toUInt32 * 0x01010101)⟩

/-- A frame of zeros. -/
def zero : FrameContents :=
  filled 0

/-- The bytes of a frame in order of address. -/
def bytes (contents : FrameContents) : List UInt8 :=
  contents.words.toList.flatMap wordBytes

/-- One step of the 32-bit FNV-1a hash. -/
def mixByte (hash : UInt32) (byte : UInt8) : UInt32 :=
  (hash ^^^ byte.toUInt32) * 0x01000193

/-- The 32-bit FNV-1a hash of all bytes of a frame. -/
def hash (contents : FrameContents) : UInt32 :=
  contents.bytes.foldl mixByte 0x811C9DC5

/-- The word at an index. -/
def get (contents : FrameContents) (index : Nat) : Checked UInt32 :=
  if bounded : index < slotsPerTable then
    .ok contents.words[index]
  else
    .error .indexOutOfBounds

/-- Replace the word at an index inside the frame. -/
def put (contents : FrameContents) (index : Nat) (word : UInt32)
    (bounded : index < slotsPerTable) : FrameContents :=
  ⟨contents.words.set index word⟩

/-- Replace the word at an index. -/
def set (contents : FrameContents) (index : Nat) (word : UInt32) : Checked FrameContents :=
  if bounded : index < slotsPerTable then
    .ok (contents.put index word bounded)
  else
    .error .indexOutOfBounds

/-- The frames that valid words point at, with the index of each word. -/
def frames (contents : FrameContents) : List (Nat × Frame) :=
  (List.range slotsPerTable).filterMap fun index => do
    let word ← contents.words[index]?
    let frame ← (TableWord.mk word).frame?
    return (index, frame)

@[simp]
theorem get_zero {index : Nat} (bounded : index < slotsPerTable) :
    zero.get index = .ok 0 := by
  simp [get, bounded, zero, filled]

theorem get_of_lt (contents : FrameContents) {index : Nat} (bounded : index < slotsPerTable) :
    contents.get index = .ok contents.words[index] := by
  simp [get, bounded]

/-- A word reads back as it was written, and no other word changes. -/
theorem get_put (contents : FrameContents) {index other : Nat} (word : UInt32)
    (bounded : index < slotsPerTable) :
    (contents.put index word bounded).get other =
      if other = index then .ok word else contents.get other := by
  by_cases inside : other < slotsPerTable
  · by_cases same : other = index
    · subst same
      simp [get, put, inside]
    · simp [get, put, inside, same, Vector.getElem_set_ne bounded inside (Ne.symm same)]
  · have differs : other ≠ index := by omega
    simp [get, inside, differs]

theorem mem_frames {contents : FrameContents} {index : Nat} {frame : Frame} :
    (index, frame) ∈ contents.frames ↔
      ∃ word, contents.get index = .ok word ∧ (TableWord.mk word).frame? = some frame := by
  simp only [frames, List.mem_filterMap, List.mem_range]
  constructor
  · rintro ⟨position, bounded, found⟩
    simp only [bounded, Vector.getElem?_eq_getElem, Option.bind_eq_bind, Option.bind_some,
      Option.pure_def, Option.bind_eq_some_iff, Option.some.injEq, Prod.mk.injEq] at found
    obtain ⟨_, points, rfl, rfl⟩ := found
    exact ⟨_, get_of_lt contents bounded, points⟩
  · rintro ⟨word, read, points⟩
    by_cases bounded : index < slotsPerTable
    · rw [get_of_lt contents bounded, Except.ok.injEq] at read
      exact ⟨index, bounded, by simp [bounded, read, points]⟩
    · simp [get, bounded] at read

end FrameContents

end PagedMemory
