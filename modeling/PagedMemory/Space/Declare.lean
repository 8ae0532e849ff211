import PagedMemory.Space.Basic

/-!
# Declaring pages

To declare a page is to make sure that a second-level table covers it and that
no data frame is behind it.  A page that was backed loses its frame: the
lookaside cache may still name it, so it is leaked and never handed to a new
owner.

A region is recorded before its pages are declared.  If the frames for its
tables run out halfway, the region stays recorded together with the tables
built so far.
-/

namespace PagedMemory.AddressSpace

open Memory

/-- The table that covers a page, built on demand. -/
def tableFor (root : Frame) (page : Page) : MemoryM (Except TakeError Frame) := do
  let slot := page.directoryIndex
  match ← directorySlot root slot with
  | .table table => return .ok table
  | .absent =>
      match ← takeZeroed with
      | .error refusal => return .error refusal
      | .ok table =>
          setDirectorySlot root slot (.table table)
          record (.tableAdded table slot)
          return .ok table

/-- Detach the data frame of a page, if it has one, and count it as leaked. -/
def clearPage (table : Frame) (page : Page) (leaked : Nat) : MemoryM Nat := do
  match ← pageSlot table page.tableIndex with
  | .unmapped => return leaked
  | .backed frame =>
      setPageSlot table page.tableIndex .unmapped
      record (.pageRedeclared page frame (leaked + 1))
      return leaked + 1

/-- Declare pages in order, up to the first table that cannot be built. -/
def declarePages (root : Frame) : List Page → Nat → MemoryM (Except SpaceError Unit × Nat)
  | [], leaked => return (.ok (), leaked)
  | page :: rest, leaked => do
      match ← tableFor root page with
      | .error refusal => return (.error (.ofTake refusal), leaked)
      | .ok table =>
          let leaked ← clearPage table page leaked
          declarePages root rest leaked

/-- Declare pages of a space, which keeps count of the frames it leaks. -/
def declareAll (space : AddressSpace) (pages : List Page) :
    MemoryM (Except SpaceError Unit × AddressSpace) := do
  let (outcome, leaked) ← declarePages space.root pages space.leakedFrames
  return (outcome, { space with leakedFrames := leaked })

/--
The pages from an address over a number of bytes, widened to whole pages: the
first of them and how many.  There are none if the range is empty or runs past
the top of the address space.
-/
def pageRange? (start : VirtAddr) (size : UInt32) : Checked (Option (Page × Nat)) := do
  let base := start.block
  let count ← pagesFor (size.toUInt64 + UInt64.ofNat start.offset)
  if size = 0 ∨ UInt32.size < base.base.toNat + count.toNat * pageSize then
    return none
  else
    return some (base, count.toNat)

/-- Declare a range of addresses with the given rights. -/
def declare (space : AddressSpace) (start : VirtAddr) (size : UInt32) (rights : Rights)
    (heap : Heap) : MemoryM (Except SpaceError Unit × AddressSpace) := do
  match ← pageRange? start size with
  | none => return (.error (.invalidRange start size), space)
  | some (base, count) =>
      match space.regions.reserve? heap with
      | none => return (.error .outOfHeap, space)
      | some roomy =>
          let region ← Region.new base count rights
          record (.regionDeclared region)
          declareAll { space with regions := roomy.push region } region.pages

/-- The pages of the user stack. -/
def stackRun : List Page :=
  (Address.block ⟨UInt32.ofNat stackBottom⟩ : Page).run stackPages

/-- Declare the user stack, which is not a region; the answer is the stack pointer. -/
def declareStack (space : AddressSpace) :
    MemoryM (Except SpaceError VirtAddr × AddressSpace) := do
  let (outcome, space) ← declareAll space stackRun
  match outcome with
  | .error refusal => return (.error refusal, space)
  | .ok () =>
      record .stackDeclared
      return (.ok ⟨UInt32.ofNat stackTop⟩, space)

end PagedMemory.AddressSpace
