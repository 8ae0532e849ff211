import PagedMemory.Layout
import PagedMemory.Rights

/-!
# Regions

A region is a declared range of whole pages with its access rights.  While the
load window of a space is open, its regions are writable whatever was declared;
the declared rights are kept aside and come back when the window closes.

The regions of a space form a list in order of declaration.  The list lives on
the kernel heap: it grows by reserving room, and reserving fails while the heap
is exhausted.
-/

namespace PagedMemory

/-- A declared range of pages. -/
structure Region where
  base : Page
  pageCount : Nat
  /-- The rights in force. -/
  rights : Rights
  /-- The declared rights, while other ones are in force. -/
  saved : Option Rights
  deriving DecidableEq

namespace Region

/-- A region with its declared rights in force; it must have a page. -/
def new (base : Page) (pageCount : Nat) (rights : Rights) : Checked Region := do
  Checked.require (0 < pageCount) .emptyRegion
  return ⟨base, pageCount, rights, none⟩

/-- The rights as declared, whether or not they are in force. -/
def declaredRights (region : Region) : Rights :=
  region.saved.getD region.rights

/-- Whether an address lies inside a region. -/
def contains (region : Region) (address : VirtAddr) : Bool :=
  decide (region.base.base.toNat ≤ address.toNat) &&
    decide ((address.toNat - region.base.base.toNat) / pageSize < region.pageCount)

/-- The pages of a region, lowest first. -/
def pages (region : Region) : List Page :=
  region.base.run region.pageCount

/-- Keep the declared rights aside and grant writing. -/
def openWindow (region : Region) : Checked Region := do
  Checked.require (region.saved = none) .rightsSavedTwice
  return { region with
    rights := region.rights.set .write true
    saved := some region.rights }

/-- Bring back the rights that were kept aside. -/
def closeWindow (region : Region) : Region :=
  match region.saved with
  | some declared => { region with rights := declared, saved := none }
  | none => region

/-- The region as it stands in diagnostic text. -/
def inspect (region : Region) : String :=
  s!"Region({region.base}+{region.pageCount} pages, {region.rights.text})"

end Region

/-- Whether the kernel heap can serve requests. -/
inductive Heap where
  | available
  | exhausted
  deriving DecidableEq

/-- The regions of a space, with the room that the heap has set aside for them. -/
structure RegionList where
  /-- In order of declaration. -/
  entries : List Region
  /-- How many regions fit without another request to the heap. -/
  capacity : Nat
  deriving DecidableEq

namespace RegionList

/-- No regions, and no room for any. -/
def empty : RegionList := ⟨[], 0⟩

def length (list : RegionList) : Nat :=
  list.entries.length

/-- Make room for one more region; a full list doubles its room, to at least four. -/
def reserve? (list : RegionList) (heap : Heap) : Option RegionList :=
  if list.length < list.capacity then
    some list
  else
    match heap with
    | .available => some { list with capacity := max 4 (2 * list.capacity) }
    | .exhausted => none

/-- A copy with room for exactly the regions it holds. -/
def copy? (list : RegionList) (heap : Heap) : Option RegionList :=
  match heap with
  | .available => some { list with capacity := list.length }
  | .exhausted => none

/-- Add a region at the end. -/
def push (list : RegionList) (region : Region) : RegionList :=
  { list with entries := list.entries ++ [region] }

/-- Grant writing in every region. -/
def openWindow (list : RegionList) : Checked RegionList := do
  let entries ← list.entries.mapM Region.openWindow
  return { list with entries }

/-- Bring back the declared rights of every region. -/
def closeWindow (list : RegionList) : RegionList :=
  { list with entries := list.entries.map Region.closeWindow }

/-- The earliest declared region around an address. -/
def find? (list : RegionList) (address : VirtAddr) : Option Region :=
  list.entries.find? fun region => region.contains address

end RegionList

end PagedMemory
