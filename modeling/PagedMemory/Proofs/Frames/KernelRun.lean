import PagedMemory.Proofs.Frames.Sharing

/-!
# Runs of frames in the direct-mapped segment

A run that is allocated for the kernel is named by the kernel address of its
first frame, and only that frame is looked at.  So the run begins in the
direct-mapped segment, and it may end outside.

What keeps the rest of a run inside is where it comes from.  A frame table
manages no frame beyond the direct map.  Boot memory may reach further, and then
a run can be stolen across the end of the segment.
-/

namespace PagedMemory

namespace Block

variable {kind : AddressKind}

/-- All frames of a run lie below a limit exactly if the run as a whole does. -/
theorem run_below_iff {first : Block kind} {count limit : Nat} (positive : 0 < count)
    (fits : first.number + count ≤ blockLimit) :
    (∀ block ∈ first.run count, block.base.toNat < limit * pageSize) ↔
      first.base.toNat + count * pageSize ≤ limit * pageSize := by
  constructor
  · intro below
    have bounded : first.number + (count - 1) < blockLimit := by omega
    have member : (⟨first.number + (count - 1), bounded⟩ : Block kind) ∈ first.run count := by
      apply mem_run.mpr
      constructor
      · exact Nat.le_add_right _ _
      · show first.number + (count - 1) < first.number + count
        omega
    have last := below _ member
    simp only [toNat_base, pageSize] at *
    omega
  · intro within block member
    have inside := mem_run.mp member
    simp only [toNat_base, pageSize] at *
    omega

end Block

namespace FramePool

variable {pool : FramePool} {count : Nat} {reply : Reply AllocateError VirtAddr}
  {pointer : VirtAddr}

/--
The kernel is given the address of the first frame of a run that is taken from
the front of the available frames.
-/
theorem Sound.allocateKernel (sound : pool.Sound)
    (allocated : pool.allocateKernel count = .ok reply) (granted : reply.result = .ok pointer) :
    ∃ first : Frame, first.base.toKernel? = some pointer ∧ 0 < count ∧
      first.number + count ≤ blockLimit ∧ Grants pool (first.run count) reply.pool := by
  rcases sound.allocate count with ⟨refusal, refused⟩ | ⟨first, after, replied, grants⟩
  · simp only [FramePool.allocateKernel, refused, bind, Except.bind] at allocated
    cases allocated
    cases granted
  · simp only [FramePool.allocateKernel, replied, bind, Except.bind] at allocated
    cases reached : first.base.toKernel? with
    | some address =>
        rw [reached] at allocated
        cases allocated
        cases granted
        refine ⟨first, reached, ?_, fits_of_allocate replied rfl, grants⟩
        apply Nat.pos_of_ne_zero
        rintro rfl
        cases replied
    | none =>
        rw [reached] at allocated
        dsimp only at allocated
        cases released : after.release first with
        | error panic =>
            rw [released] at allocated
            cases allocated
        | ok returned =>
            rw [released] at allocated
            cases allocated
            cases granted

end FramePool

namespace SharedPool

open PoolTurn

variable {reachable : Frame → Bool} {turns : List PoolTurn} {state : SharedPool}
  {range : BumpRange}

/-- What keeps available frames within reach of the direct map. -/
theorem Runs.mapped_of_available (aligned : range.Aligned)
    (runs : Runs reachable (.new (.bump range)) turns state)
    (confined : state.pool.isBootstrapped = true ∨ range.last.toNat ≤ directMapLimit)
    {frame : Frame} (listed : frame ∈ state.pool.available) :
    frame.base.toNat < directMapLimit := by
  have custody := runs.custody aligned
  rcases confined with bootstrapped | below
  · have managed := (custody.sound.manages_iff_isBootstrapped listed).mpr bootstrapped
    have mapped := custody.sound.mapped_of_manages managed
    rw [Block.toNat_base]
    simp only [pageSize] at *
    omega
  · have inside := custody.within frame (List.mem_append_right _ listed)
    have ends := (aligned.mem_remaining.mp inside).2
    have last := BumpRange.toNat_of_isAligned aligned.last
    rw [Block.toNat_base]
    simp only [pageSize] at *
    omega

/--
A kernel address that is handed out names the first frame of a fresh run of the
requested length, and that frame lies in the direct-mapped segment.  All of the run
does so exactly if the frames are all within reach of the direct map; this is so
after the bootstrap, and always if boot memory ends within that reach.
-/
theorem kernel_run_begins_in_segment {first last : PhysAddr}
    (made : BumpRange.between first last = .ok range)
    (runs : Runs reachable (.new (.bump range)) turns state) {count : Nat}
    {reply : Reply AllocateError VirtAddr} {pointer : VirtAddr}
    (allocated : state.pool.allocateKernel count = .ok reply)
    (granted : reply.result = .ok pointer) :
    ∃ lowest : Frame, 0 < count ∧
      (lowest.run count).map Block.number = List.range' lowest.number count ∧
      state.pool.available = lowest.run count ++ reply.pool.available ∧
      pointer.toNat = directMapBase + lowest.base.toNat ∧
      directMapBase ≤ pointer.toNat ∧ pointer.toNat < directMapEnd ∧
      (pointer.toNat + count * pageSize ≤ directMapEnd ↔
        ∀ frame ∈ lowest.run count, frame.base.toNat < directMapLimit) ∧
      (state.pool.isBootstrapped = true ∨ range.last.toNat ≤ directMapLimit →
        pointer.toNat + count * pageSize ≤ directMapEnd) := by
  have aligned := BumpRange.aligned_of_between made
  rcases (runs.custody aligned).sound.allocateKernel allocated granted with
    ⟨lowest, reached, positive, fits, grants⟩
  rcases Address.toKernel?_eq_some_iff.mp reached with ⟨below, located⟩
  have whole : pointer.toNat + count * pageSize ≤ directMapEnd ↔
      ∀ frame ∈ lowest.run count, frame.base.toNat < directMapLimit := by
    have limit : directMapLimit = directMapLimit / pageSize * pageSize := rfl
    rw [limit, Block.run_below_iff positive fits, ← limit]
    simp only [directMapLimit, directMapBase, directMapEnd] at *
    omega
  refine ⟨lowest, positive, Block.map_number_run fits, grants.available, ?_, ?_, ?_, whole, ?_⟩
  · omega
  · omega
  · simp only [directMapLimit, directMapBase, directMapEnd] at *
    omega
  · intro confined
    apply whole.mpr
    intro frame member
    apply runs.mapped_of_available aligned confined
    rw [grants.available]
    exact List.mem_append_left _ member

/-- Frame 0x1FFFF is the last one within reach, and a run of one frame ends there. -/
theorem kernel_run_begins_in_segment_at_its_end :
    let range : BumpRange := ⟨⟨0x1FFFF000⟩, ⟨0x20000000⟩⟩
    let pool : FramePool := .new (.bump range)
    BumpRange.between ⟨0x1FFFF000⟩ ⟨0x20000000⟩ = .ok range ∧
      ∃ reply, pool.allocateKernel 1 = .ok reply ∧ reply.result = .ok ⟨0x9FFFF000⟩ ∧
        (0x9FFFF000 : UInt32).toNat + 1 * pageSize ≤ directMapEnd := by
  intro range pool
  have made : BumpRange.between ⟨0x1FFFF000⟩ ⟨0x20000000⟩ = .ok range := by decide +kernel
  have outcome : (pool.allocateKernel 1).map Reply.result = .ok (.ok ⟨0x9FFFF000⟩) := by
    decide +kernel
  cases allocated : pool.allocateKernel 1 with
  | error panic =>
      rw [allocated] at outcome
      cases outcome
  | ok reply =>
      rw [allocated] at outcome
      have granted : reply.result = .ok ⟨0x9FFFF000⟩ := Except.ok.inj outcome
      have runs : Runs (fun _ => true) pool [] ⟨pool, fun _ => none⟩ := .start
      rcases kernel_run_begins_in_segment made runs allocated granted with
        ⟨lowest, -, -, -, -, -, -, -, confined⟩
      exact ⟨made, reply, rfl, granted, confined (Or.inr (by decide))⟩

/--
A run of two frames is stolen across the end of the segment: it is handed out by the
address of its first frame, and its second frame cannot be reached.
-/
theorem kernel_run_crosses_segment_end :
    let range : BumpRange := ⟨⟨0x1FFFF000⟩, ⟨0x20002000⟩⟩
    let pool : FramePool := .new (.bump range)
    BumpRange.between ⟨0x1FFFF000⟩ ⟨0x20002000⟩ = .ok range ∧
      (pool.allocateKernel 2).map (fun reply => (reply.result, reply.pool.available)) =
        .ok (.ok ⟨0x9FFFF000⟩, [⟨0x20001, by decide⟩]) ∧
      pool.available = [⟨0x1FFFF, by decide⟩, ⟨0x20000, by decide⟩, ⟨0x20001, by decide⟩] ∧
      ¬ (0x9FFFF000 : UInt32).toNat + 2 * pageSize ≤ directMapEnd ∧
      (Block.base (⟨0x20000, by decide⟩ : Frame)).toKernel? = none := by
  refine ⟨?_, ?_, ?_, ?_, ?_⟩ <;> decide +kernel

end SharedPool

end PagedMemory
