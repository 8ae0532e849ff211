import PagedMemory.Table.Contents

/-!
# Page directories and page tables

The page table of an address space has two levels.  The root frame holds a
*directory*, whose slots are absent or name a second-level table.  A
*table* holds the slots of `slotsPerTable` consecutive pages; a page slot is
unmapped or names the data frame behind its page.

Any word is a directory slot, but an empty page slot must be all zeros:
reading one with leftover bits panics.
-/

namespace PagedMemory

/-- A slot of a page directory. -/
inductive DirectorySlot where
  /-- No table covers these pages. -/
  | absent
  /-- The frame of the table that covers these pages. -/
  | table (frame : Frame)
  deriving DecidableEq

/-- A slot of a second-level table. -/
inductive PageSlot where
  /-- Declared, with no frame behind it yet. -/
  | unmapped
  /-- The data frame behind the page. -/
  | backed (frame : Frame)
  deriving DecidableEq

namespace DirectorySlot

/-- The slot as a table word. -/
def encode : DirectorySlot → TableWord
  | .absent => .empty
  | .table frame => .ofFrame frame

/-- The slot that a table word stands for. -/
def decode (word : TableWord) : DirectorySlot :=
  match word.frame? with
  | some frame => .table frame
  | none => .absent

@[simp]
theorem decode_encode (slot : DirectorySlot) : decode slot.encode = slot := by
  cases slot <;> simp [encode, decode]

/-- The frame of the table, if there is one. -/
def frame? : DirectorySlot → Option Frame
  | .absent => none
  | .table frame => some frame

@[simp]
theorem frame?_decode (word : TableWord) : (decode word).frame? = word.frame? := by
  cases found : word.frame? <;> simp [decode, found, frame?]

end DirectorySlot

namespace PageSlot

/-- The slot as a table word. -/
def encode : PageSlot → TableWord
  | .unmapped => .empty
  | .backed frame => .ofFrame frame

/-- The slot that a table word stands for. -/
def decode (word : TableWord) : Checked PageSlot :=
  match word.frame? with
  | some frame => .ok (.backed frame)
  | none => do
      Checked.require (word = .empty) .staleBits
      return .unmapped

@[simp]
theorem decode_encode (slot : PageSlot) : decode slot.encode = .ok slot := by
  cases slot with
  | unmapped => rfl
  | backed frame => simp [encode, decode]

/-- The data frame, if there is one. -/
def frame? : PageSlot → Option Frame
  | .unmapped => none
  | .backed frame => some frame

end PageSlot

/-- A frame read as the root of an address space. -/
structure PageDirectory where
  contents : FrameContents
  deriving DecidableEq

namespace PageDirectory

/-- The directory without tables. -/
def empty : PageDirectory := ⟨.zero⟩

def get (directory : PageDirectory) (index : Nat) : Checked DirectorySlot := do
  let word ← directory.contents.get index
  return .decode ⟨word⟩

def set (directory : PageDirectory) (index : Nat) (slot : DirectorySlot) :
    Checked PageDirectory := do
  let contents ← directory.contents.set index slot.encode.bits
  return ⟨contents⟩

/-- All tables with the slots that name them, in ascending order of slot. -/
def tables (directory : PageDirectory) : List (Nat × Frame) :=
  directory.contents.frames

end PageDirectory

/-- A frame read as a second-level table. -/
structure PageTable where
  contents : FrameContents
  deriving DecidableEq

namespace PageTable

/-- The table that backs no page. -/
def empty : PageTable := ⟨.zero⟩

def get (table : PageTable) (index : Nat) : Checked PageSlot := do
  let word ← table.contents.get index
  PageSlot.decode ⟨word⟩

def set (table : PageTable) (index : Nat) (slot : PageSlot) : Checked PageTable := do
  let contents ← table.contents.set index slot.encode.bits
  return ⟨contents⟩

/-- All data frames with the slots that name them, in ascending order of slot. -/
def backed (table : PageTable) : List (Nat × Frame) :=
  table.contents.frames

end PageTable

end PagedMemory
