import PagedMemory.Layout
import PagedMemory.Frames.BootMemory
import PagedMemory.Frames.FreeStack
import PagedMemory.Frames.Event

/-!
# The frame pool

The pool lives through two phases.  In the *early* phase runs of frames are
stolen from boot memory and nothing is ever reclaimed.  Bootstrapping builds the
frame table over the memory that is left and starts the *ready* phase, in which
single frames are popped from the free stack and pushed back.

Frames below the end of the table's own storage are reserved: giving one back
is counted and otherwise ignored.  In the early phase that is true of every
frame.

Each operation answers with a `Reply`, which carries the pool as it is
afterwards whether the operation was refused or not.
-/

namespace PagedMemory

/-- Where frames come from. -/
inductive Phase where
  | early (memory : BootMemory)
  | ready (stack : FreeStack)
  deriving DecidableEq

/-- The frame pool of the machine. -/
structure FramePool where
  phase : Phase
  /--
  How many reserved frames were given back.  Every call adds one at most, whatever became
  of the table, so unlike the count of free frames this one has no end that damage could
  bring it to.
  -/
  leakedFrees : Nat
  deriving DecidableEq

/-- The outcome of a pool operation. -/
structure Reply (ε α : Type) where
  result : Except ε α
  pool : FramePool
  /-- The log records, oldest first. -/
  events : List PoolEvent

namespace FramePool

/-- A pool in the early phase. -/
def new (memory : BootMemory) : FramePool :=
  ⟨.early memory, 0⟩

/-- A reply without log records. -/
def answer {ε α : Type} (pool : FramePool) (result : Except ε α) : Reply ε α :=
  ⟨result, pool, []⟩

/-! ## What the pool tells about itself -/

def isBootstrapped (pool : FramePool) : Bool :=
  match pool.phase with
  | .early _ => false
  | .ready _ => true

/-- How many frames the frame table covers; none before it exists. -/
def totalFrames (pool : FramePool) : Nat :=
  match pool.phase with
  | .early _ => 0
  | .ready stack => stack.total

/-- How many frames are on the free stack. -/
def freeFrames (pool : FramePool) : Nat :=
  match pool.phase with
  | .early _ => 0
  | .ready stack => stack.freeCount

/-- How many frames the frame table occupies. -/
def footprintFrames (pool : FramePool) : Nat :=
  match pool.phase with
  | .early _ => 0
  | .ready stack => stack.reserved

/-! ## Operations -/

/--
Build the frame table over the memory not yet stolen and enter the ready phase.
Memory beyond the direct map stays unmanaged.  The first frame of the table has
to be reachable.
-/
def bootstrap (pool : FramePool) (reachable : Frame → Bool) :
    Checked (Reply BootstrapError Unit) :=
  match pool with
  | ⟨.ready stack, leaked⟩ =>
      return answer ⟨.ready stack, leaked⟩ (.error .alreadyBootstrapped)
  | ⟨.early memory, leaked⟩ =>
      let early : FramePool := ⟨.early memory, leaked⟩
      let (first, last) := memory.usableRange
      if !first.isAligned || !last.isAligned then
        return early.answer (.error (.unaligned first last))
      else
        let limit : PhysAddr := ⟨UInt32.ofNat directMapLimit⟩
        let clamped := decide (directMapLimit < last.toNat)
        let top := if clamped then limit else last
        let ignored := if clamped then [PoolEvent.unreachableIgnored limit last] else []
        if top.toNat ≤ first.toNat then
          return ⟨.error .emptyRange, early, ignored⟩
        else do
          match ← FreeStack.build first.block ((top.toNat - first.toNat) / pageSize) with
          | .error refusal => return ⟨.error refusal, early, ignored⟩
          | .ok stack =>
              Checked.require (reachable first.block) .unreachableFrame
              let built :=
                PoolEvent.tableBuilt first top stack.total stack.reserved stack.freeCount
              return ⟨.ok (), ⟨.ready stack, leaked⟩, ignored ++ [built]⟩

/-- Allocate a run of frames; after bootstrap the run is a single frame. -/
def allocate (pool : FramePool) (count : Nat) : Checked (Reply AllocateError Frame) :=
  if count = 0 then
    return pool.answer (.error .zeroFrames)
  else
    match pool with
    | ⟨.early memory, leaked⟩ =>
        let (frame?, memory) := memory.steal count
        return answer ⟨.early memory, leaked⟩
          (match frame? with
            | some frame => .ok frame
            | none => .error .outOfMemory)
    | ⟨.ready stack, leaked⟩ =>
        if 1 < count then
          return answer ⟨.ready stack, leaked⟩ (.error (.multiFrameAfterBootstrap count))
        else do
          let (result, stack) ← stack.pop
          return answer ⟨.ready stack, leaked⟩ (result.mapError .ofTake)

/-- Take a single frame; damage of the frame table is reported in the log. -/
def take (pool : FramePool) : Checked (Reply TakeError Frame) :=
  match pool with
  | ⟨.early memory, leaked⟩ =>
      let (frame?, memory) := memory.steal 1
      return answer ⟨.early memory, leaked⟩
        (match frame? with
          | some frame => .ok frame
          | none => .error .exhausted)
  | ⟨.ready stack, leaked⟩ => do
      let (result, stack) ← stack.pop
      let events :=
        match result with
        | .error (.corrupt address) => [PoolEvent.takeFailed (.corrupt address)]
        | .error .exhausted | .ok _ => []
      return ⟨result, ⟨.ready stack, leaked⟩, events⟩

/-- Count a reserved frame that was given back. -/
def leak (pool : FramePool) (frame : Frame) : Reply ReleaseError Unit :=
  let leaked := pool.leakedFrees + 1
  ⟨.ok (), { pool with leakedFrees := leaked }, [.reservedReleased frame leaked]⟩

/-- Give a frame back. -/
def release (pool : FramePool) (frame : Frame) : Checked (Reply ReleaseError Unit) :=
  match pool with
  | ⟨.early memory, leaked⟩ => return leak ⟨.early memory, leaked⟩ frame
  | ⟨.ready stack, leaked⟩ => do
      let boundary ← stack.reservedEnd
      if boundary.number ≤ frame.number then
        let (result, stack) ← stack.push frame
        return answer ⟨.ready stack, leaked⟩ result
      else
        return leak ⟨.ready stack, leaked⟩ frame

/--
Allocate a run of frames and name it by its kernel address.  A run that starts
beyond the direct map is given back by its first frame.
-/
def allocateKernel (pool : FramePool) (count : Nat) :
    Checked (Reply AllocateError VirtAddr) := do
  let taken ← pool.allocate count
  match taken.result with
  | .error refusal => return ⟨.error refusal, taken.pool, taken.events⟩
  | .ok frame =>
      match frame.base.toKernel? with
      | some address => return ⟨.ok address, taken.pool, taken.events⟩
      | none =>
          let returned ← taken.pool.release frame
          let failure :=
            match returned.result with
            | .ok () => []
            | .error refusal => [PoolEvent.returnFailed frame refusal]
          return ⟨.error (.notDirectMapped frame.base), returned.pool,
            taken.events ++ returned.events ++ failure⟩

/-- Give back the frame behind a kernel address. -/
def releaseKernel (pool : FramePool) (address : VirtAddr) :
    Checked (Reply ReleaseError Unit) :=
  match address.toPhysical? with
  | none => return pool.answer (.error (.notDirectMapped address))
  | some physical => pool.release physical.block

/-- Damage the frame table: one entry takes the value of another. -/
def copyEntry? (pool : FramePool) (source target : Nat) : Option FramePool :=
  match pool with
  | ⟨.early _, _⟩ => none
  | ⟨.ready stack, leaked⟩ => (stack.copyEntry? source target).map fun stack =>
      ⟨.ready stack, leaked⟩

/-! ## Supply -/

/-- A bound on how many single frames can be allocated before the pool runs dry. -/
def supply (pool : FramePool) : Nat :=
  match pool.phase with
  | .early memory => memory.supply
  | .ready stack => stack.freeCount

/-- Allocating a frame uses up supply. -/
theorem supply_lt_of_allocate_one {pool : FramePool} {reply : Reply AllocateError Frame}
    {frame : Frame} (allocated : pool.allocate 1 = .ok reply)
    (granted : reply.result = .ok frame) : reply.pool.supply < pool.supply := by
  obtain ⟨phase, leaked⟩ := pool
  cases phase with
  | early memory =>
      cases step : memory.steal 1 with
      | mk found rest =>
          simp only [allocate, step, Nat.one_ne_zero, if_false, pure, Except.pure,
            Except.ok.injEq] at allocated
          subst allocated
          cases found with
          | none => simp [answer] at granted
          | some taken => exact BootMemory.supply_lt_of_steal_one step
  | ready stack =>
      cases step : stack.pop with
      | error panic => simp [allocate, step, bind, Except.bind] at allocated
      | ok outcome =>
          obtain ⟨result, rest⟩ := outcome
          simp only [allocate, step, Nat.one_ne_zero, Nat.lt_irrefl, if_false, bind,
            Except.bind, pure, Except.pure, Except.ok.injEq] at allocated
          subst allocated
          cases result with
          | error refusal => cases granted
          | ok taken =>
              have lower := FreeStack.freeCount_of_pop step
              simp only [answer, supply]
              omega

end FramePool

end PagedMemory
