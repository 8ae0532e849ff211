import PagedMemory.Frames.BumpRange

/-!
# Boot memory

The memory of the early phase: a range to steal from, or a fixed range that is
only there for the frame table to take over.
-/

namespace PagedMemory

/-- Where frames come from before the frame table exists. -/
inductive BootMemory where
  /-- Frames are stolen from the low end of a range. -/
  | bump (range : BumpRange)
  /-- Nothing can be stolen; the bounds are handed on as they were given. -/
  | fixed (first last : PhysAddr)
  deriving DecidableEq

namespace BootMemory

/-- Take frames from the low end, if that is possible. -/
def steal : BootMemory → Nat → Option Frame × BootMemory
  | .bump range, count =>
      let (frame, rest) := range.steal count
      (frame, .bump rest)
  | .fixed first last, _ => (none, .fixed first last)

/-- The bounds of the memory that has not been stolen. -/
def usableRange : BootMemory → PhysAddr × PhysAddr
  | .bump range => (range.first, range.last)
  | .fixed first last => (first, last)

/-- A bound on how many single frames can still be stolen. -/
def supply : BootMemory → Nat
  | .bump range => range.last.toNat - range.first.toNat
  | .fixed _ _ => 0

theorem supply_lt_of_steal_one {memory after : BootMemory} {frame : Frame}
    (stolen : memory.steal 1 = (some frame, after)) : after.supply < memory.supply := by
  cases memory with
  | bump range =>
      cases step : range.steal 1 with
      | mk found rest =>
          simp only [steal, step, Prod.mk.injEq] at stolen
          obtain ⟨rfl, rfl⟩ := stolen
          obtain ⟨advances, within, same⟩ := BumpRange.first_lt_of_steal_one step
          simp only [supply, same] at *
          omega
  | fixed first last => simp [steal] at stolen

end BootMemory

end PagedMemory
