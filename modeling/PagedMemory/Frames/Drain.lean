import PagedMemory.Frames.Pool

/-!
# Draining the pool

Draining allocates single frames until a refusal, or until no more frames than
asked for are left on the free stack.  It ends because every frame it takes
uses up supply.
-/

namespace PagedMemory

/-- What a drain took, and why it stopped. -/
structure Drained where
  count : Nat
  /-- The first and the last frame taken. -/
  ends : Option (Frame × Frame)
  /-- The refusal that ended the drain, unless enough frames were left alone. -/
  refusal : Option AllocateError
  deriving DecidableEq

namespace Drained

/-- A drain that has not taken anything. -/
def nothing : Drained := ⟨0, none, none⟩

/-- One more frame. -/
def take (drained : Drained) (frame : Frame) : Drained :=
  { drained with
    count := drained.count + 1
    ends := some (drained.ends.elim frame Prod.fst, frame) }

end Drained

namespace FramePool

/-- Go on with a drain that has already taken some frames. -/
def drainFrom (pool : FramePool) (keep : Nat) (drained : Drained) :
    Checked (Drained × FramePool) :=
  if pool.isBootstrapped && decide (pool.freeFrames ≤ keep) then
    return (drained, pool)
  else
    match allocated : pool.allocate 1 with
    | .error panic => throw panic
    | .ok reply =>
        match granted : reply.result with
        | .error refusal => return ({ drained with refusal := some refusal }, reply.pool)
        | .ok frame =>
            have := supply_lt_of_allocate_one allocated granted
            reply.pool.drainFrom keep (drained.take frame)
termination_by pool.supply

/-- Allocate single frames until only some are left. -/
def drain (pool : FramePool) (keep : Nat) : Checked (Drained × FramePool) :=
  pool.drainFrom keep .nothing

end FramePool

end PagedMemory
