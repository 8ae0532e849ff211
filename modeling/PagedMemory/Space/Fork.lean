import PagedMemory.Space.Teardown

/-!
# Forking a space

A fork is a deep copy: it has its own root, its own tables, and for every
backed page a frame of its own with the same bytes.  Regions are copied with
the rights in force and the rights kept aside.

A space without regions forks to an empty space, even if its stack was declared.

The source is read slot by slot while the copy grows.  When a frame cannot be
taken, whatever the unfinished copy has taken so far is given back.
-/

namespace PagedMemory.AddressSpace

open Memory

/-- Copy the data frames in some slots of a table, counting them. -/
def forkPages (source target : Frame) : List Nat → Nat → MemoryM (Except TakeError Nat)
  | [], copied => return .ok copied
  | slot :: rest, copied => do
      match ← slotFrame? source slot with
      | none => forkPages source target rest copied
      | some data =>
          match ← takeCopy data with
          | .error refusal => return .error refusal
          | .ok frame =>
              setPageSlot target slot (.backed frame)
              forkPages source target rest (copied + 1)

/-- Copy the tables in some slots of a directory, counting data frames. -/
def forkTables (source target : Frame) : List Nat → Nat → MemoryM (Except TakeError Nat)
  | [], copied => return .ok copied
  | slot :: rest, copied => do
      match ← slotFrame? source slot with
      | none => forkTables source target rest copied
      | some sourceTable =>
          match ← takeZeroed with
          | .error refusal => return .error refusal
          | .ok table =>
              setDirectorySlot target slot (.table table)
              match ← forkPages sourceTable table (List.range slotsPerTable) copied with
              | .error refusal => return .error refusal
              | .ok copied => forkTables source target rest copied

/-- Let an unfinished copy go. -/
def abandon (copy : AddressSpace) (refusal : SpaceError) :
    MemoryM (Except SpaceError AddressSpace) := do
  copy.discard
  return .error refusal

/-- A deep copy of a space. -/
def fork (space : AddressSpace) (heap : Heap) : MemoryM (Except SpaceError AddressSpace) := do
  match ← create with
  | .error refusal => return .error refusal
  | .ok copy =>
      if space.regions.entries.isEmpty then
        record (.emptyForked space.root copy.root)
        return .ok copy
      else
        match space.regions.copy? heap with
        | none => copy.abandon .outOfHeap
        | some regions =>
            let copy := { copy with regions, loading := space.loading }
            match ← forkTables space.root copy.root (List.range slotsPerTable) 0 with
            | .error refusal => copy.abandon (.ofTake refusal)
            | .ok frames =>
                record (.forked space.root copy.root regions.length frames)
                return .ok copy

end PagedMemory.AddressSpace
