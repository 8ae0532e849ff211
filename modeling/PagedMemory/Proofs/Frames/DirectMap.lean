import PagedMemory.Proofs.Frames.History
import Mathlib.Logic.Equiv.Defs

/-!
# The pool through the direct map

The direct map is a bijection between the addresses that it reaches and the
direct-mapped segment.  Through it a kernel address stands for a frame, and the calls
for the kernel are those for frames.

A table lies within reach of the direct map.  So after the bootstrap every frame that
is allocated has a kernel address, and a page that is given back right away, by any
address in it, is on top of the stack again with the rest of the stack as it was.
-/

namespace PagedMemory

namespace Address

/-- The address lies in the direct-mapped segment. -/
def InSegment (pointer : VirtAddr) : Prop :=
  directMapBase ≤ pointer.toNat ∧ pointer.toNat < directMapEnd

instance (pointer : VirtAddr) : Decidable pointer.InSegment :=
  inferInstanceAs (Decidable (_ ∧ _))

theorem toPhysical?_eq_none_iff {pointer : VirtAddr} :
    pointer.toPhysical? = none ↔ ¬ pointer.InSegment := by
  unfold toPhysical? InSegment
  split
  next inside => simp only [reduceCtorEq, inside, and_self, not_true]
  next outside => simp only [outside, not_false_eq_true]

/-- A reached address is as far above the base of the segment as above zero. -/
theorem toNat_add_base {address : PhysAddr} (reached : address.toNat < directMapLimit) :
    (address.word + UInt32.ofNat directMapBase).toNat = directMapBase + address.toNat := by
  have base : (UInt32.ofNat directMapBase).toNat = directMapBase := rfl
  rw [UInt32.toNat_add, base, Nat.add_comm]
  apply Nat.mod_eq_of_lt
  simp only [toNat, directMapLimit, directMapEnd, directMapBase] at *
  omega

theorem toNat_sub_base {pointer : VirtAddr} (inside : pointer.InSegment) :
    (pointer.word - UInt32.ofNat directMapBase).toNat = pointer.toNat - directMapBase := by
  apply UInt32.toNat_sub_of_le
  rw [UInt32.le_iff_toNat_le]
  exact inside.1

theorem inSegment_add_base {address : PhysAddr} (reached : address.toNat < directMapLimit) :
    InSegment ⟨address.word + UInt32.ofNat directMapBase⟩ := by
  rw [InSegment, toNat, toNat_add_base reached]
  simp only [directMapLimit, directMapEnd, directMapBase] at *
  omega

theorem reached_sub_base {pointer : VirtAddr} (inside : pointer.InSegment) :
    (⟨pointer.word - UInt32.ofNat directMapBase⟩ : PhysAddr).toNat < directMapLimit := by
  rw [toNat, toNat_sub_base inside]
  simp only [InSegment, directMapLimit, directMapEnd, directMapBase] at *
  omega

/-- The direct map, computed on words. -/
def directMap :
    { address : PhysAddr // address.toNat < directMapLimit } ≃
      { pointer : VirtAddr // pointer.InSegment } where
  toFun address := ⟨⟨address.1.word + UInt32.ofNat directMapBase⟩, inSegment_add_base address.2⟩
  invFun pointer := ⟨⟨pointer.1.word - UInt32.ofNat directMapBase⟩, reached_sub_base pointer.2⟩
  left_inv _ := Subtype.ext (congrArg Address.mk (UInt32.add_sub_cancel _ _))
  right_inv _ := Subtype.ext (congrArg Address.mk (UInt32.sub_add_cancel _ _))

theorem toNat_directMap (address : { address : PhysAddr // address.toNat < directMapLimit }) :
    (directMap address).1.toNat = directMapBase + address.1.toNat :=
  toNat_add_base address.2

theorem toKernel?_eq_directMap (address : { address : PhysAddr // address.toNat < directMapLimit }) :
    address.1.toKernel? = some (directMap address).1 := by
  rw [toKernel?_eq_some_iff, toNat_directMap]
  exact ⟨address.2, Nat.add_comm _ _⟩

theorem toPhysical?_eq_directMap (pointer : { pointer : VirtAddr // pointer.InSegment }) :
    pointer.1.toPhysical? = some (directMap.symm pointer).1 := by
  obtain ⟨address, rfl⟩ := directMap.surjective pointer
  rw [toPhysical?_eq_some_iff, toNat_directMap, Equiv.symm_apply_apply]
  exact ⟨address.2, Nat.add_comm _ _⟩

theorem kernelPointer_eq_directMap
    (address : { address : PhysAddr // address.toNat < directMapLimit }) :
    address.1.kernelPointer = .ok (directMap address).1 := by
  have reached : address.1.toKernel?.isSome = true := by
    rw [toKernel?_eq_directMap]
    rfl
  simp only [kernelPointer, Checked.require_of reached]
  rfl

theorem kernelPointer_of_beyond {address : PhysAddr} (beyond : directMapLimit ≤ address.toNat) :
    address.kernelPointer = .error .unreachableAddress := by
  simp only [kernelPointer, toKernel?_eq_none_iff.mpr beyond]
  rfl

end Address

namespace FramePool

open Address

variable {reachable : Frame → Bool} {memory : BootMemory} {pool after : FramePool}
  {frame : Frame} {pointer : VirtAddr}

/-! ## Allocating -/

theorem allocateKernel_of_error {count : Nat} {cause : AllocateError} {events : List PoolEvent}
    (allocated : pool.allocate count = .ok ⟨.error cause, after, events⟩) :
    pool.allocateKernel count = .ok ⟨.error cause, after, events⟩ := by
  simp only [allocateKernel, allocated]
  rfl

/-- A run that can be reached is named by the kernel address of its first frame. -/
theorem allocateKernel_of_reached {count : Nat} {events : List PoolEvent}
    (allocated : pool.allocate count = .ok ⟨.ok frame, after, events⟩)
    (reached : frame.base.toNat < directMapLimit) :
    pool.allocateKernel count =
      .ok ⟨.ok (directMap ⟨frame.base, reached⟩).1, after, events⟩ := by
  have named := toKernel?_eq_directMap ⟨frame.base, reached⟩
  simp only [allocateKernel, allocated, bind, Except.bind, named]
  rfl

/-! ## Giving back -/

theorem releaseKernel_of_outside (outside : ¬ pointer.InSegment) :
    pool.releaseKernel pointer = .ok ⟨.error (.notDirectMapped pointer), pool, []⟩ := by
  simp only [releaseKernel, toPhysical?_eq_none_iff.mpr outside]
  rfl

/-- The frame that a kernel address stands for. -/
theorem number_of_inside (inside : pointer.InSegment) :
    (directMap.symm ⟨pointer, inside⟩).1.block.number =
      (pointer.toNat - directMapBase) / pageSize := by
  rw [number_block]
  exact congrArg (· / pageSize) (toNat_sub_base inside)

theorem releaseKernel_of_inside (inside : pointer.InSegment)
    (number : frame.number = (pointer.toNat - directMapBase) / pageSize) :
    pool.releaseKernel pointer = pool.release frame := by
  have same : (directMap.symm ⟨pointer, inside⟩).1.block = frame := by
    rw [← Block.number_inj, number, number_of_inside]
  rw [releaseKernel, toPhysical?_eq_directMap ⟨pointer, inside⟩, ← same]

/-- A kernel address that names a block of the segment stands for its frame. -/
theorem number_of_named {other : VirtAddr} (named : pointer.toNat = directMapBase + frame.base.toNat)
    (reached : frame.base.toNat < directMapLimit) (page : other.block = pointer.block) :
    other.InSegment ∧ frame.number = (other.toNat - directMapBase) / pageSize := by
  have same : other.toNat / pageSize = pointer.toNat / pageSize := congrArg Block.number page
  rw [named, Block.toNat_base] at same
  rw [Block.toNat_base] at reached
  simp only [InSegment, directMapLimit, directMapEnd, directMapBase, pageSize] at *
  omega

/-- The frame that a sound pool with a table has just handed out goes back to where it was. -/
theorem Sound.release_of_allocate (sound : pool.Sound) (bootstrapped : pool.isBootstrapped = true)
    {events : List PoolEvent}
    (allocated : pool.allocate 1 = .ok ⟨.ok frame, after, events⟩) :
    after.release frame = .ok ⟨.ok (), pool, []⟩ := by
  cases handsOut_of_allocate allocated with
  | stolen early stolen =>
      subst early
      cases bootstrapped
  | @popped stack rest leaked frame ready single popped =>
      subst ready
      have listed : frame ∈ available ⟨.ready stack, leaked⟩ := by
        rcases sound.allocate 1 with ⟨refusal, refused⟩ | ⟨granted, later, replied, grants⟩
        · cases allocated.symm.trans refused
        · cases allocated.symm.trans replied
          rw [grants.available]
          exact List.mem_append_left _
            (Block.mem_run.mpr ⟨Nat.le_refl _, Nat.lt_succ_self _⟩)
      have managed : stack.bounds.Manages frame := sound.manages_available rfl listed
      have same : rest.bounds = stack.bounds := (FreeStack.pops_of_pop popped).bounds
      have past : rest.first.number + rest.reserved ≤ frame.number := by
        have above := managed.1
        rw [← same] at above
        exact above
      have countable : stack.freeCount < UInt64.size := Nat.lt_of_succ_lt sound.countable
      rw [release_of_past past, FreeStack.push_of_pop popped managed.1 countable]
      rfl

/-- The calls for the kernel are the calls for frames, seen through the direct map. -/
structure MirrorsFrames (pool : FramePool) : Prop where
  /-- A run is named by its kernel address, and it can always be reached. -/
  allocates : ∀ count, ∃ result after events, pool.allocate count = .ok ⟨result, after, events⟩ ∧
    match result with
    | .ok frame => ∃ pointer : VirtAddr, pointer.toNat = directMapBase + frame.base.toNat ∧
        pool.allocateKernel count = .ok ⟨.ok pointer, after, events⟩
    | .error cause => (∀ address, cause ≠ .notDirectMapped address) ∧
        pool.allocateKernel count = .ok ⟨.error cause, after, events⟩
  /-- A kernel address stands for a frame. -/
  releases : ∀ pointer : VirtAddr, pointer.InSegment →
    ∃ (frame : Frame) (result : Except ReleaseError Unit) (after : FramePool)
      (events : List PoolEvent),
      frame.number = (pointer.toNat - directMapBase) / pageSize ∧
      pool.release frame = .ok ⟨result, after, events⟩ ∧
      pool.releaseKernel pointer = .ok ⟨result, after, events⟩ ∧
      ∀ other, result ≠ .error (.notDirectMapped other)
  rejects : ∀ pointer : VirtAddr, ¬ pointer.InSegment →
    pool.releaseKernel pointer = .ok ⟨.error (.notDirectMapped pointer), pool, []⟩
  /-- A page that is given back at once, by any address in it, leaves no trace. -/
  restores : ∀ (pointer : VirtAddr) (after : FramePool) (events : List PoolEvent),
    pool.allocateKernel 1 = .ok ⟨.ok pointer, after, events⟩ →
    ∀ other : VirtAddr, other.block = pointer.block →
      after.releaseKernel other = .ok ⟨.ok (), pool, []⟩

theorem Sound.mirrorsFrames (sound : pool.Sound) (within : pool.WithinReach)
    (bootstrapped : pool.isBootstrapped = true) : pool.MirrorsFrames := by
  have reached {count : Nat} {frame : Frame} {after : FramePool} {events : List PoolEvent}
      (allocated : pool.allocate count = .ok ⟨.ok frame, after, events⟩) :
      frame.base.toNat < directMapLimit :=
    within.reaches bootstrapped (handsOut_of_allocate allocated)
  constructor
  case allocates =>
    intro count
    rcases sound.allocate count with ⟨refusal, refused⟩ | ⟨frame, after, allocated, -⟩
    · refine ⟨_, _, _, refused, ?_, allocateKernel_of_error refused⟩
      cases handsOut_of_allocate refused with
      | refused others => exact others
    · exact ⟨_, _, _, allocated, _, toNat_directMap _,
        allocateKernel_of_reached allocated (reached allocated)⟩
  case releases =>
    intro pointer inside
    have number := number_of_inside inside
    obtain ⟨result, after, events, released, -⟩ := sound.releases _
    refine ⟨_, result, after, events, number, released, ?_, ?_⟩
    · rw [releaseKernel_of_inside inside number, released]
    · rintro other rfl
      cases takesBack_of_release released with
      | refused direct => exact direct other rfl
  case rejects => exact fun _ => releaseKernel_of_outside
  case restores =>
    intro pointer after events allocated other page
    rcases sound.allocate 1 with ⟨refusal, refused⟩ | ⟨frame, later, replied, -⟩
    · cases allocated.symm.trans (allocateKernel_of_error refused)
    · have named := allocateKernel_of_reached replied (reached replied)
      obtain ⟨result, rfl, -⟩ := Reply.mk.inj (Except.ok.inj (allocated.symm.trans named))
      obtain rfl := Except.ok.inj result
      obtain ⟨inside, number⟩ := number_of_named (toNat_directMap _) (reached replied) page
      rw [releaseKernel_of_inside inside number]
      exact sound.release_of_allocate bootstrapped replied

/--
After the bootstrap, and whatever clients have called, the calls for the kernel are the
calls for frames.  The direct map between them is one bijection, whichever way it is
computed, and nothing is mapped outside of it.
-/
theorem kernel_calls_mirror_frame_calls {calls : List PoolCall} {answers : List Answer}
    (ran : (new memory).runAll reachable (calls.map .call) = .ok (answers, pool))
    (bootstrapped : pool.isBootstrapped = true) :
    pool.MirrorsFrames ∧
      (∀ address, (directMap address).1.toNat = directMapBase + address.1.toNat ∧
        address.1.toKernel? = some (directMap address).1 ∧
        address.1.kernelPointer = .ok (directMap address).1) ∧
      (∀ pointer, pointer.1.toPhysical? = some (directMap.symm pointer).1) ∧
      (∀ address : PhysAddr, directMapLimit ≤ address.toNat →
        address.toKernel? = none ∧ address.kernelPointer = .error .unreachableAddress) ∧
      ∀ pointer : VirtAddr, ¬ pointer.InSegment → pointer.toPhysical? = none := by
  have sound := sound_of_calls ran bootstrapped
  have within := withinReach_of_runAll ran
  refine ⟨sound.mirrorsFrames within bootstrapped, ?_, toPhysical?_eq_directMap, ?_,
    fun _ => toPhysical?_eq_none_iff.mpr⟩
  · intro address
    exact ⟨toNat_directMap address, toKernel?_eq_directMap address,
      kernelPointer_eq_directMap address⟩
  · intro address beyond
    exact ⟨toKernel?_eq_none_iff.mpr beyond, kernelPointer_of_beyond beyond⟩

/--
Of two managed frames one is taken, and the page of the other one is given back by an
address in the middle of it.
-/
theorem kernel_calls_mirror_frame_calls_over_three_frames :
    let memory : BootMemory := .bump ⟨⟨0x1000⟩, ⟨0x4000⟩⟩
    let pool (entries : Array FrameEntry) (head : Option Nat) (free : Nat) : FramePool :=
      ⟨.ready ⟨⟨1, by decide⟩, entries, 1, head, free⟩, 0⟩
    let before := pool #[.allocated, .allocated, .free none] (some 2) 1
    let after := pool #[.allocated, .allocated, .allocated] none 0
    (new memory).runAll (fun _ => true)
        ([PoolCall.bootstrap, PoolCall.allocateKernel 1].map .call) =
      .ok ([.done, .address ⟨0x80002000⟩], before) ∧ before.isBootstrapped = true ∧
    before.MirrorsFrames ∧
    before.allocateKernel 1 = .ok ⟨.ok ⟨0x80003000⟩, after, []⟩ ∧
    after.releaseKernel ⟨0x80003ABC⟩ = .ok ⟨.ok (), before, []⟩ := by
  intro memory pool before after
  have ran : (new memory).runAll (fun _ => true)
      ([PoolCall.bootstrap, PoolCall.allocateKernel 1].map .call) =
    .ok ([.done, .address ⟨0x80002000⟩], before) := by decide +kernel
  have mirrors := (kernel_calls_mirror_frame_calls ran rfl).1
  have allocated : before.allocateKernel 1 = .ok ⟨.ok ⟨0x80003000⟩, after, []⟩ := by rfl
  exact ⟨ran, rfl, mirrors, allocated, mirrors.restores _ _ _ allocated ⟨0x80003ABC⟩ rfl⟩

end FramePool

end PagedMemory
