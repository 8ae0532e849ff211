import PagedMemory.Space.Basic

/-!
# Tearing a space down

Everything that can be reached from the root goes back to the frame pool: table
by table, first the data frames and then the table itself, and the root last.
A frame that the pool rejects does not stop the walk; the first rejection is
remembered and reported at the end.

A space is torn down once.  Doing it again gives nothing back.
-/

namespace PagedMemory.AddressSpace

open Memory

/-- How far a teardown has come. -/
structure Teardown where
  /-- The first rejection, if there was one. -/
  outcome : Except ReleaseError Unit
  /-- How many data frames were given back or rejected. -/
  dataFrames : Nat

namespace Teardown

/-- A teardown that has not begun. -/
def start : Teardown := ⟨.ok (), 0⟩

/-- Give a frame back, and remember the first rejection. -/
def release (progress : Teardown) (frame : Frame) : MemoryM Teardown := do
  let outcome ← releaseFrame frame
  match progress.outcome with
  | .ok () => return { progress with outcome }
  | .error _ => return progress

/-- Give a data frame back. -/
def releaseData (progress : Teardown) (frame : Frame) : MemoryM Teardown := do
  let progress ← progress.release frame
  return { progress with dataFrames := progress.dataFrames + 1 }

/-- Give the data frames of a table back, and then the table. -/
def releaseTable (progress : Teardown) (table : Frame) : MemoryM Teardown := do
  let found ← backed table
  let progress ← found.foldlM (fun progress (_, frame) => progress.releaseData frame) progress
  progress.release table

end Teardown

/-- Give every frame of a space back. -/
def teardown (space : AddressSpace) : MemoryM (Except SpaceError Unit × AddressSpace) := do
  if space.released then
    return (.ok (), space)
  else
    let found ← tables space.root
    let progress ←
      found.foldlM (fun progress (_, table) => progress.releaseTable table) Teardown.start
    let progress ← progress.release space.root
    record (.spaceDestroyed space.root progress.dataFrames)
    return (progress.outcome.mapError .ofRelease,
      { space with regions := .empty, released := true })

/-- Let a space go without asking for the outcome, which is logged if it is bad. -/
def discard (space : AddressSpace) : MemoryM Unit := do
  let (outcome, space) ← space.teardown
  match outcome with
  | .ok () => return ()
  | .error refusal => record (.dropFailed space.root refusal)

/-- Give every frame of a space back and let the space go. -/
def destroy (space : AddressSpace) : MemoryM (Except SpaceError Unit) := do
  let (outcome, space) ← space.teardown
  space.discard
  return outcome

end PagedMemory.AddressSpace
