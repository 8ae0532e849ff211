import PagedMemory.Space.Basic

/-!
# Page faults

The first touch of a declared page finds no data frame.  The handler takes a
frame, zeroes it and attaches it.  If the page turns out to have a frame
already, or no table covers it, the new frame goes straight back.
-/

namespace PagedMemory.AddressSpace

open Memory

/-- Why a page fault could not be served. -/
inductive FaultError where
  /-- Nothing grants access to the address. -/
  | illegalAccess
  | noFrame (cause : TakeError)
  | notAttached (cause : SpaceError)
  deriving DecidableEq

/-- Serve the first touch of a page; the answer is its new data frame. -/
def serveFault (space : AddressSpace) (address : VirtAddr) :
    MemoryM (Except FaultError Frame) := do
  match space.rightsAt? address with
  | none => return .error .illegalAccess
  | some _ =>
      match ← takeZeroed with
      | .error refusal => return .error (.noFrame refusal)
      | .ok frame =>
          match ← space.attach address frame with
          | .ok () => return .ok frame
          | .error refusal =>
              let _ ← releaseFrame frame
              return .error (.notAttached refusal)

end PagedMemory.AddressSpace
