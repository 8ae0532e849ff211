import PagedMemory.Memory

/-!
# Address spaces

An address space is a root frame, which holds its page directory, and a list
of declared regions.  Its second-level tables and data frames are found by
walking RAM from the root.

Looking an address up takes two steps, from the directory slot of its page to
the table named there, and on to the page's slot in that table.  The rights at
an address are decided without any walk, by the region list and the fixed
bounds of the user stack.
-/

namespace PagedMemory

/-- A user address space. -/
structure AddressSpace where
  /-- The frame of the directory. -/
  root : Frame
  regions : RegionList
  /-- Whether the load window is open. -/
  loading : Bool
  /--
  How many data frames were lost by declaring backed pages again.  Each loss costs a frame
  that clients held and never get back, so this count stays far below the end of a word.
  -/
  leakedFrames : Nat
  /-- Whether the frames of the space have been given back. -/
  released : Bool
  deriving DecidableEq

namespace AddressSpace

open Memory

/-- A new space with a zeroed directory and no regions. -/
def create : MemoryM (Except SpaceError AddressSpace) := do
  match ← takeZeroed with
  | .error refusal => return .error (.ofTake refusal)
  | .ok root =>
      record (.spaceCreated root)
      return .ok ⟨root, .empty, false, 0, false⟩

/-- Whether an address lies in the user stack. -/
def inStack (address : VirtAddr) : Bool :=
  decide (stackBottom ≤ address.toNat) && decide (address.toNat < stackTop)

/--
The rights in force at an address: those of the earliest declared region around
it, else those of the user stack.  An access without any is illegal.
-/
def rightsAt? (space : AddressSpace) (address : VirtAddr) : Option Rights :=
  match space.regions.find? address with
  | some region => some region.rights
  | none => if inStack address then some .readWrite else none

/-- The data frame behind an address, if its page is backed. -/
def frameBehind (space : AddressSpace) (address : VirtAddr) : MemoryM (Option Frame) := do
  let page : Page := address.block
  match ← directorySlot space.root page.directoryIndex with
  | .absent => return none
  | .table table =>
      match ← pageSlot table page.tableIndex with
      | .unmapped => return none
      | .backed frame => return some frame

/-- Put a data frame behind the page of an address; the space owns it from now on. -/
def attach (space : AddressSpace) (address : VirtAddr) (frame : Frame) :
    MemoryM (Except SpaceError Unit) := do
  let page : Page := address.block
  match ← directorySlot space.root page.directoryIndex with
  | .absent => return .error (.undeclared address)
  | .table table =>
      match ← pageSlot table page.tableIndex with
      | .backed _ => return .error (.alreadyBacked address)
      | .unmapped =>
          setPageSlot table page.tableIndex (.backed frame)
          return .ok ()

/-- A second-level table as a walk finds it. -/
structure TableLayout where
  /-- The directory slot that names the table. -/
  slot : Nat
  table : Frame
  /-- The backed pages of the table: slot and data frame. -/
  backed : List (Nat × Frame)
  deriving DecidableEq

/-- All tables of a space and all data frames, in ascending order. -/
def layout (space : AddressSpace) : MemoryM (List TableLayout) := do
  let found ← tables space.root
  found.mapM fun (slot, table) => do
    return ⟨slot, table, ← backed table⟩

/-- The space as it stands in diagnostic text. -/
def inspect (space : AddressSpace) : String :=
  let regions := ", ".intercalate (space.regions.entries.map Region.inspect)
  let fields := s!"root: {space.root.inspect}, regions: [{regions}], loading: {space.loading}"
  s!"AddressSpace \x7b {fields}, .. \x7d"

end AddressSpace

end PagedMemory
