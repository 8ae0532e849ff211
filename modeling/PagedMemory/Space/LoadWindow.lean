import PagedMemory.Space.Basic

/-!
# The load window

While an executable image is loaded, its regions have to be writable whatever
rights were declared for them.  The loader opens the window before it starts
and closes it when it is done.  Windows do not nest.
-/

namespace PagedMemory.AddressSpace

open Memory

/-- Make every region writable until the window is closed. -/
def openWindow (space : AddressSpace) : MemoryM (Except SpaceError Unit × AddressSpace) := do
  if space.loading then
    return (.error (.invariant .loadWindowAlreadyOpen), space)
  else
    let regions ← space.regions.openWindow
    record (.windowOpened regions.length)
    return (.ok (), { space with regions, loading := true })

/-- Put the declared rights back in force. -/
def closeWindow (space : AddressSpace) : MemoryM (Except SpaceError Unit × AddressSpace) := do
  if space.loading then
    record .windowClosed
    return (.ok (), { space with regions := space.regions.closeWindow, loading := false })
  else
    return (.error (.invariant .loadWindowNotOpen), space)

end PagedMemory.AddressSpace
