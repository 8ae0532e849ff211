import PagedMemory.Table.Slots

/-!
# Using a table by itself

A table that is not part of any address space can be read and written by slot
index.  An index past the last slot, or a slot that cannot be decoded, panics;
the table then stays as it was.
-/

namespace PagedMemory

/-- One use of a table of either level. -/
inductive TableCommand where
  | get (index : Nat)
  /-- Make a slot name a frame, or empty it. -/
  | set (index : Nat) (frame : Option Frame)
  | list
  deriving DecidableEq

/-- What a table answers. -/
inductive TableAnswer where
  | done
  /-- The frame that a slot names. -/
  | slot (frame : Option Frame)
  | listing (frames : List (Nat × Frame))
  deriving DecidableEq

namespace DirectorySlot

/-- The slot that names a frame, or the empty one. -/
def ofFrame? : Option Frame → DirectorySlot
  | some frame => .table frame
  | none => .absent

@[simp]
theorem frame?_ofFrame? (frame : Option Frame) : (ofFrame? frame).frame? = frame := by
  cases frame <;> rfl

end DirectorySlot

namespace PageSlot

/-- The slot that names a frame, or the empty one. -/
def ofFrame? : Option Frame → PageSlot
  | some frame => .backed frame
  | none => .unmapped

@[simp]
theorem frame?_ofFrame? (frame : Option Frame) : (ofFrame? frame).frame? = frame := by
  cases frame <;> rfl

end PageSlot

namespace PageDirectory

def execute (directory : PageDirectory) : TableCommand → Checked (TableAnswer × PageDirectory)
  | .get index => do
      let slot ← directory.get index
      return (.slot slot.frame?, directory)
  | .set index frame => do
      let directory ← directory.set index (.ofFrame? frame)
      return (.done, directory)
  | .list => return (.listing directory.tables, directory)

/-- The answers to some commands; a panic leaves the directory as it was. -/
def transcript (directory : PageDirectory) : List TableCommand → List (Checked TableAnswer)
  | [] => []
  | command :: rest =>
      match directory.execute command with
      | .error panic => .error panic :: directory.transcript rest
      | .ok (answer, directory) => .ok answer :: directory.transcript rest

end PageDirectory

namespace PageTable

def execute (table : PageTable) : TableCommand → Checked (TableAnswer × PageTable)
  | .get index => do
      let slot ← table.get index
      return (.slot slot.frame?, table)
  | .set index frame => do
      let table ← table.set index (.ofFrame? frame)
      return (.done, table)
  | .list => return (.listing table.backed, table)

/-- The answers to some commands; a panic leaves the table as it was. -/
def transcript (table : PageTable) : List TableCommand → List (Checked TableAnswer)
  | [] => []
  | command :: rest =>
      match table.execute command with
      | .error panic => .error panic :: table.transcript rest
      | .ok (answer, table) => .ok answer :: table.transcript rest

end PageTable

end PagedMemory
