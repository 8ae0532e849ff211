import PagedMemory.Proofs.Frames.Supply

/-!
# Entering the ready phase

A successful bootstrap leaves a table over the usable memory below the direct
map limit, with every frame that it manages on the free stack.  A refused one
leaves the pool as it was.  A sound pool whose memory can be reached does not
panic on the way, and every frame that is available afterwards was available
before.

The entries of the table are kept beside RAM.  Where they are stored is known all
the same: one after the other, in the reserved frames, which are never handed out.
-/

namespace PagedMemory

/-! ## Where entries are stored -/

namespace TableBounds

variable {bounds : TableBounds} {index : Nat} {frame : Frame}

/-- The reserved frames have room for all entries. -/
def Stored (bounds : TableBounds) : Prop :=
  bounds.total * entrySize ≤ bounds.reserved * pageSize

/-- A byte of an entry lies in a frame.  Entries follow one another from the first frame on. -/
def Stores (bounds : TableBounds) (index : Nat) (frame : Frame) : Prop :=
  index < bounds.total ∧ ∃ byte < entrySize,
    frame.number = (bounds.first.base.toNat + index * entrySize + byte) / pageSize

/-- Entries lie in reserved frames only. -/
theorem Stored.reserves (stored : bounds.Stored) (stores : bounds.Stores index frame) :
    bounds.first.number ≤ frame.number ∧
      frame.number < bounds.first.number + bounds.reserved := by
  obtain ⟨inside, byte, small, place⟩ := stores
  have last : (index + 1) * entrySize ≤ bounds.total * entrySize :=
    Nat.mul_le_mul_right entrySize inside
  rw [Block.toNat_base] at place
  simp only [Stored, entrySize, pageSize] at *
  omega

/-- No frame with an entry can have been handed out. -/
theorem Stored.not_accepts (stored : bounds.Stored) (stores : bounds.Stores index frame) :
    ¬ (Territory.table bounds).Accepts frame := by
  obtain ⟨above, below⟩ := stored.reserves stores
  rintro (early | ⟨past, -⟩)
  · omega
  · omega

end TableBounds

namespace FreeStack

variable {total : Nat}

/-- The least number of frames that hold the entries of a table. -/
def storage (total : Nat) : Nat :=
  (total * entrySize + (pageSize - 1)) / pageSize

theorem le_storage (total : Nat) : total * entrySize ≤ storage total * pageSize := by
  simp only [storage, entrySize, pageSize]
  omega

theorem storage_pred_lt (positive : 0 < total) :
    (storage total - 1) * pageSize < total * entrySize := by
  simp only [storage, entrySize, pageSize]
  omega

/-- Only a table of a single frame is as large as the memory that it is about. -/
theorem storage_lt (several : 1 < total) : storage total < total := by
  simp only [storage, entrySize, pageSize]
  omega

/-- The table for any number of frames that memory can hold has a size. -/
theorem footprint_of_le (fits : total ≤ blockLimit) : footprint total = .ok (storage total) := by
  have small : total * entrySize < UInt64.size := by
    simp only [entrySize, blockLimit, UInt64.size] at *
    omega
  have value : (UInt64.ofNat (total * entrySize)).toNat = total * entrySize :=
    UInt64.toNat_ofNat_of_lt' small
  have room : (UInt64.ofNat (total * entrySize)).toNat + (pageSize - 1) < UInt64.size := by
    rw [value]
    simp only [entrySize, blockLimit, pageSize, UInt64.size] at *
    omega
  obtain ⟨pages, counted, exact⟩ := pagesFor_of_fits room
  rw [value] at exact
  rw [footprint, counted, storage, ← exact]
  rfl

/-- With 8 bytes an entry, a frame has room for 512 of them. -/
example : footprint 512 = .ok 1 ∧ footprint 513 = .ok 2 := by decide +kernel

/-- A table with nothing handed out. -/
def fresh (first : Frame) (total : Nat) : FreeStack where
  first
  entries := Array.ofFn fun index : Fin total => initialEntry (storage total) total index
  reserved := storage total
  head := some (storage total)
  freeCount := total - storage total

theorem total_fresh (first : Frame) (total : Nat) : (fresh first total).total = total :=
  Array.size_ofFn

theorem build_of_one (first : Frame) :
    build first 1 = .ok (.error (.footprintExhaustsMemory 1 1)) := by
  have needed : footprint 1 = .ok 1 := footprint_of_le (by decide)
  simp only [build, needed, bind, Except.bind]
  rfl

theorem build_of_several (first : Frame) (fits : total ≤ blockLimit) (several : 1 < total) :
    build first total = .ok (.ok (fresh first total)) := by
  have small : ¬ total ≤ storage total := Nat.not_le_of_lt (storage_lt several)
  simp only [build, footprint_of_le fits, bind, Except.bind, small, if_false]
  rfl

end FreeStack

namespace BootMemory

/-- How many frames there are from the low end up to the reach of the direct map. -/
def span (memory : BootMemory) : Nat :=
  (min memory.usableRange.2.toNat directMapLimit - memory.usableRange.1.toNat) / pageSize

/--
What there is to say about memory over which a table is to be built: how many frames
the table has, or why it is refused.
-/
def verdict (memory : BootMemory) : Except BootstrapError Nat :=
  if ¬ (pageSize ∣ memory.usableRange.1.toNat ∧ pageSize ∣ memory.usableRange.2.toNat) then
    .error (.unaligned memory.usableRange.1 memory.usableRange.2)
  else if min memory.usableRange.2.toNat directMapLimit ≤ memory.usableRange.1.toNat then
    .error .emptyRange
  else if memory.span = 1 then
    .error (.footprintExhaustsMemory 1 1)
  else
    .ok memory.span

theorem span_fits {memory : BootMemory} (aligned : pageSize ∣ memory.usableRange.1.toNat) :
    memory.usableRange.1.block.number + memory.span ≤ blockLimit := by
  have bounded := memory.usableRange.1.block.number_lt
  simp only [span, Address.number_block, pageSize, blockLimit, directMapLimit, directMapEnd,
    directMapBase] at *
  omega

end BootMemory

namespace FramePool

/-- What a bootstrap makes of boot memory. -/
structure Bootstrapped (memory : BootMemory) (stack : FreeStack) : Prop where
  represents : stack.Represents stack.bounds.managed
  mapped : (stack.first.number + stack.total) * pageSize ≤ directMapLimit
  first : stack.first = memory.usableRange.1.block
  below : stack.first.number + stack.total ≤ memory.usableRange.2.block.number
  stored : stack.bounds.Stored

/-- The end of the memory that a table is built over. -/
private def managedTop (last : PhysAddr) : PhysAddr :=
  if decide (directMapLimit < last.toNat) then ⟨UInt32.ofNat directMapLimit⟩ else last

private theorem toNat_managedTop (last : PhysAddr) :
    (managedTop last).toNat = min last.toNat directMapLimit := by
  unfold managedTop
  by_cases beyond : directMapLimit < last.toNat
  · rw [if_pos (decide_eq_true beyond), Nat.min_eq_right (Nat.le_of_lt beyond)]
    rfl
  · rw [if_neg (by simp [beyond]), Nat.min_eq_left (Nat.le_of_not_lt beyond)]

theorem bootstrapped_of_verdict {memory : BootMemory} {total : Nat}
    (granted : memory.verdict = .ok total) :
    1 < total ∧ Bootstrapped memory (.fresh memory.usableRange.1.block total) := by
  unfold BootMemory.verdict at granted
  split_ifs at granted with boundaries empty single
  obtain rfl : memory.span = total := Except.ok.inj granted
  obtain ⟨aligned, ends⟩ := boundaries
  have fits := BootMemory.span_fits aligned
  have several : 1 < memory.span := by
    obtain ⟨low, start⟩ := aligned
    obtain ⟨high, stop⟩ := ends
    simp only [BootMemory.span, start, stop, pageSize, directMapLimit, directMapEnd,
      directMapBase] at *
    omega
  have built := FreeStack.build_of_several memory.usableRange.1.block
    (Nat.le_trans (Nat.le_add_left _ _) fits) several
  obtain ⟨first, size, represents⟩ := FreeStack.represents_of_build built fits
  refine ⟨several, represents, ?_, first, ?_, ?_⟩
  · rw [first, size]
    simp only [BootMemory.span, Address.number_block, pageSize] at *
    omega
  · rw [first, size]
    simp only [BootMemory.span, Address.number_block, pageSize] at *
    omega
  · show (FreeStack.fresh _ _).total * entrySize ≤ FreeStack.storage _ * pageSize
    rw [size]
    exact FreeStack.le_storage memory.span

/-- The reply once the table has been built, or not. -/
private def adopt (memory : BootMemory) (leaked : Nat) (reachable : Frame → Bool)
    (ignored : List PoolEvent) :
    Except BootstrapError FreeStack → Checked (Reply BootstrapError Unit)
  | .error refusal => return ⟨.error refusal, ⟨.early memory, leaked⟩, ignored⟩
  | .ok stack => do
      let (first, last) := memory.usableRange
      Checked.require (reachable first.block) .unreachableFrame
      let built := PoolEvent.tableBuilt first (managedTop last) stack.total
        stack.reserved stack.freeCount
      return ⟨.ok (), ⟨.ready stack, leaked⟩, ignored ++ [built]⟩

/--
In the early phase the verdict on the memory that is left decides: the pool is left
as it was, or it has a new table if the first frame of the table can be reached.
-/
theorem bootstrap_by_verdict (memory : BootMemory) (leaked : Nat)
    (reachable : Frame → Bool) :
    ∃ events, bootstrap ⟨.early memory, leaked⟩ reachable =
      match memory.verdict with
      | .error refusal => .ok ⟨.error refusal, ⟨.early memory, leaked⟩, events⟩
      | .ok total => do
          Checked.require (reachable memory.usableRange.1.block) .unreachableFrame
          return ⟨.ok (), ⟨.ready (.fresh memory.usableRange.1.block total), leaked⟩, events⟩ := by
  let first := memory.usableRange.1
  let last := memory.usableRange.2
  let ignored := if decide (directMapLimit < last.toNat) then
    [PoolEvent.unreachableIgnored ⟨UInt32.ofNat directMapLimit⟩ last] else []
  have shape : bootstrap ⟨.early memory, leaked⟩ reachable =
      if !first.isAligned || !last.isAligned then
        .ok ⟨.error (.unaligned first last), ⟨.early memory, leaked⟩, []⟩
      else if (managedTop last).toNat ≤ first.toNat then
        .ok ⟨.error .emptyRange, ⟨.early memory, leaked⟩, ignored⟩
      else
        FreeStack.build first.block (((managedTop last).toNat - first.toNat) / pageSize) >>=
          adopt memory leaked reachable ignored := rfl
  have aligned : (!first.isAligned || !last.isAligned) = true ↔
      ¬ (pageSize ∣ first.toNat ∧ pageSize ∣ last.toNat) := by
    rw [← Address.isAligned_iff, ← Address.isAligned_iff, ← Bool.not_and, Bool.not_eq_true',
      ← Bool.and_eq_true, Bool.not_eq_true]
  rw [shape, toNat_managedTop]
  cases verdict : memory.verdict with
  | error refusal =>
      unfold BootMemory.verdict at verdict
      split_ifs at verdict with boundaries empty single
      · cases verdict
        exact ⟨ignored, by rw [if_neg (mt aligned.mp (not_not.mpr boundaries)), if_pos empty]⟩
      · cases verdict
        have counted : (min last.toNat directMapLimit - first.toNat) / pageSize = 1 := single
        refine ⟨ignored, ?_⟩
        rw [if_neg (mt aligned.mp (not_not.mpr boundaries)), if_neg empty, counted,
          FreeStack.build_of_one]
        rfl
      · cases verdict
        exact ⟨[], if_pos (aligned.mpr boundaries)⟩
  | ok total =>
      have several := (bootstrapped_of_verdict verdict).1
      unfold BootMemory.verdict at verdict
      split_ifs at verdict with boundaries empty single
      have fits := BootMemory.span_fits boundaries.1
      have counted : (min last.toNat directMapLimit - first.toNat) / pageSize = memory.span := rfl
      obtain rfl : memory.span = total := Except.ok.inj verdict
      rw [if_neg (mt aligned.mp (not_not.mpr boundaries)), if_neg empty, counted,
        FreeStack.build_of_several first.block (Nat.le_trans (Nat.le_add_left _ _) fits) several]
      exact ⟨_, rfl⟩

/--
In the early phase a bootstrap is refused and changes nothing, or it builds a
table and succeeds if the first frame of the table can be reached.
-/
theorem bootstrap_early (memory : BootMemory) (leaked : Nat)
    (reachable : Frame → Bool) :
    (∃ refusal events, bootstrap ⟨.early memory, leaked⟩ reachable =
        .ok ⟨.error refusal, ⟨.early memory, leaked⟩, events⟩) ∨
      ∃ stack events, Bootstrapped memory stack ∧
        bootstrap ⟨.early memory, leaked⟩ reachable = (do
          Checked.require (reachable stack.first) .unreachableFrame
          return ⟨.ok (), ⟨.ready stack, leaked⟩, events⟩) := by
  obtain ⟨events, replied⟩ := bootstrap_by_verdict memory leaked reachable
  cases verdict : memory.verdict with
  | error refusal =>
      rw [verdict] at replied
      exact Or.inl ⟨refusal, events, replied⟩
  | ok total =>
      rw [verdict] at replied
      have bootstrapped := (bootstrapped_of_verdict verdict).2
      exact Or.inr ⟨_, events, bootstrapped, replied⟩

/-- The frames of a new table are memory that was left. -/
theorem Bootstrapped.mem_remaining {range : BumpRange} {stack : FreeStack}
    (bootstrapped : Bootstrapped (.bump range) stack) (aligned : range.Aligned) {frame : Frame}
    (lower : stack.first.number ≤ frame.number)
    (upper : frame.number < stack.first.number + stack.total) : frame ∈ range.remaining := by
  have first : stack.first = range.first.block := bootstrapped.first
  have below : stack.first.number + stack.total ≤ range.last.block.number :=
    bootstrapped.below
  apply aligned.mem_remaining.mpr
  rw [← first]
  omega

theorem Bootstrapped.first_mem_remaining {range : BumpRange} {stack : FreeStack}
    (bootstrapped : Bootstrapped (.bump range) stack) (aligned : range.Aligned) :
    stack.first ∈ range.remaining := by
  have nonempty := bootstrapped.represents.reserved_lt
  exact bootstrapped.mem_remaining aligned (Nat.le_refl _) (by omega)

/-- After a bootstrap the managed frames are available, and they were before. -/
theorem Bootstrapped.ready {range : BumpRange} {stack : FreeStack}
    (bootstrapped : Bootstrapped (.bump range) stack) (aligned : range.Aligned) (leaked : Nat) :
    Sound ⟨.ready stack, leaked⟩ ∧ available ⟨.ready stack, leaked⟩ = stack.bounds.managed ∧
      ∀ frame ∈ available ⟨.ready stack, leaked⟩, frame ∈ range.remaining := by
  rcases Sound.of_represents bootstrapped.represents bootstrapped.mapped leaked with
    ⟨sound, available⟩
  refine ⟨sound, available, ?_⟩
  intro frame member
  rw [available, TableBounds.mem_managed bootstrapped.represents.fits] at member
  have lower : stack.first.number + stack.reserved ≤ frame.number := member.1
  exact bootstrapped.mem_remaining aligned (Nat.le_of_add_right_le lower) member.2

/-- A bootstrap that succeeded. -/
theorem ready_of_bootstrap {pool : FramePool} {reachable : Frame → Bool}
    {reply : Reply BootstrapError Unit} (replied : pool.bootstrap reachable = .ok reply)
    (success : reply.result = .ok ()) :
    ∃ memory stack, pool.phase = .early memory ∧ Bootstrapped memory stack ∧
      reply.pool = ⟨.ready stack, pool.leakedFrees⟩ := by
  obtain ⟨phase, leaked⟩ := pool
  cases phase with
  | ready stack =>
      cases replied
      cases success
  | early memory =>
      rcases bootstrap_early memory leaked reachable with
        ⟨refusal, events, refused⟩ | ⟨stack, events, bootstrapped, built⟩
      · cases refused.symm.trans replied
        cases success
      · obtain ⟨-, -, finished⟩ := Checked.bind_eq_ok.mp (built.symm.trans replied)
        cases finished
        exact ⟨memory, stack, rfl, bootstrapped, rfl⟩

/-- A bootstrap that was refused. -/
theorem eq_of_bootstrap_refused {pool : FramePool} {reachable : Frame → Bool}
    {reply : Reply BootstrapError Unit} {refusal : BootstrapError}
    (replied : pool.bootstrap reachable = .ok reply) (refused : reply.result = .error refusal) :
    reply.pool = pool := by
  obtain ⟨phase, leaked⟩ := pool
  cases phase with
  | ready stack =>
      cases replied
      rfl
  | early memory =>
      rcases bootstrap_early memory leaked reachable with
        ⟨refusal, events, unchanged⟩ | ⟨stack, events, bootstrapped, built⟩
      · cases unchanged.symm.trans replied
        rfl
      · obtain ⟨-, -, finished⟩ := Checked.bind_eq_ok.mp (built.symm.trans replied)
        cases finished
        cases refused

end FramePool

end PagedMemory
