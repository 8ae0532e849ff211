import PagedMemory.Frames.BootMemory
import PagedMemory.Proofs.Address.Run

/-!
# Boot memory as a list of frames

A bump range with bounds on frame boundaries stands for the list of frames that
have not been stolen.  Stealing splits the requested number of frames off the
front of that list, and is refused exactly if the list is too short.
-/

namespace PagedMemory.BumpRange

/-- The bounds are frame boundaries in the right order. -/
structure Aligned (range : BumpRange) : Prop where
  first : range.first.isAligned = true
  last : range.last.isAligned = true
  ordered : range.first.toNat ≤ range.last.toNat

/-- The frames that have not been stolen, in ascending order. -/
def remaining (range : BumpRange) : List Frame :=
  range.first.block.run (range.last.block.number - range.first.block.number)

theorem toNat_of_isAligned {kind : AddressKind} {address : Address kind}
    (aligned : address.isAligned = true) :
    address.toNat = address.block.number * pageSize := by
  rw [Address.number_block]
  exact (Nat.div_mul_cancel (Address.isAligned_iff.mp aligned)).symm

@[simp]
theorem isAligned_base {kind : AddressKind} (block : Block kind) :
    block.base.isAligned = true := by
  rw [Address.isAligned_iff, Block.toNat_base]
  exact Nat.dvd_mul_left _ _

/--
There is a range between any two addresses.  Both are rounded inwards, and the low end
never passes the high one.
-/
theorem between_bounds (first last : PhysAddr) :
    ∃ range, between first last = .ok range ∧
      range.last.toNat = last.toNat / pageSize * pageSize ∧
      range.first.toNat =
        min ((first.toNat + (pageSize - 1)) / pageSize) (last.toNat / pageSize) * pageSize := by
  have small := first.word.toNat_lt
  have fits : first.word.toUInt64.toNat + (pageSize - 1) < UInt64.size := by
    simp only [UInt32.toNat_toUInt64, pageSize, UInt64.size] at *
    omega
  obtain ⟨low, rounded, value⟩ := alignUp_of_fits fits
  rw [UInt32.toNat_toUInt64] at value
  have high := toNat_alignDown last.word
  refine ⟨⟨⟨if low ≤ (alignDown last.word).toUInt64 then low.toUInt32
    else alignDown last.word⟩, ⟨alignDown last.word⟩⟩, ?_, high, ?_⟩
  · simp only [between, rounded, bind, Except.bind, pure, Except.pure]
  · simp only [← Nat.mul_min_mul_right, Address.toNat, ← value, ← high]
    split
    next within =>
      have below : low.toNat ≤ (alignDown last.word).toNat := by
        simpa only [UInt64.le_iff_toNat_le, UInt32.toNat_toUInt64] using within
      rw [Nat.min_eq_left below, UInt64.toNat_toUInt32]
      exact Nat.mod_eq_of_lt (Nat.lt_of_le_of_lt below (alignDown last.word).toNat_lt)
    next past =>
      have above : ¬ low.toNat ≤ (alignDown last.word).toNat := by
        simpa only [UInt64.le_iff_toNat_le, UInt32.toNat_toUInt64] using past
      rw [Nat.min_eq_right (Nat.le_of_not_le above)]

/-- A range between two addresses has frame boundaries for bounds. -/
theorem aligned_of_between {first last : PhysAddr} {range : BumpRange}
    (made : between first last = .ok range) : range.Aligned := by
  obtain ⟨range', made', high, low⟩ := between_bounds first last
  cases made.symm.trans made'
  constructor
  · rw [Address.isAligned_iff, low]
    exact Nat.dvd_mul_left _ _
  · rw [Address.isAligned_iff, high]
    exact Nat.dvd_mul_left _ _
  · rw [low, high]
    exact Nat.mul_le_mul_right _ (Nat.min_le_right _ _)

theorem Aligned.number_le {range : BumpRange} (aligned : range.Aligned) :
    range.first.block.number ≤ range.last.block.number :=
  Nat.div_le_div_right aligned.ordered

theorem Aligned.remaining_fits {range : BumpRange} (aligned : range.Aligned) :
    range.first.block.number +
      (range.last.block.number - range.first.block.number) ≤ blockLimit := by
  have ordered := aligned.number_le
  have bounded := range.last.block.number_lt
  omega

theorem Aligned.length_remaining {range : BumpRange} (aligned : range.Aligned) :
    range.remaining.length = range.last.block.number - range.first.block.number :=
  Block.length_run aligned.remaining_fits

theorem Aligned.mem_remaining {range : BumpRange} (aligned : range.Aligned)
    {frame : Frame} :
    frame ∈ range.remaining ↔
      range.first.block.number ≤ frame.number ∧
        frame.number < range.last.block.number := by
  have ordered := aligned.number_le
  rw [remaining, Block.mem_run]
  omega

/-! ## Stealing from any range -/

/-- A refusal leaves the range alone. -/
theorem eq_of_steal_none {range after : BumpRange} {count : Nat}
    (refused : range.steal count = (none, after)) : after = range := by
  unfold steal at refused
  split at refused
  · split at refused
    · cases refused
    · cases refused
      rfl
  · cases refused
    rfl

/-- A run of frames has been taken from the low end, which moved past it. -/
structure Steals (before : BumpRange) (count : Nat) (frame : Frame) (after : BumpRange) : Prop where
  lowest : frame = before.first.block
  last : after.last = before.last
  boundary : after.first.isAligned = true
  advanced : after.first.block.number = frame.number + count
  ordered : after.first.toNat ≤ after.last.toNat

theorem steals_of_steal {range after : BumpRange} {count : Nat} {frame : Frame}
    (stolen : range.steal count = (some frame, after)) : Steals range count frame after := by
  unfold steal at stolen
  split at stolen
  next rest advanced =>
    split at stolen
    next within =>
      cases stolen
      refine ⟨rfl, rfl, isAligned_base rest, ?_, within⟩
      rw [Block.block_base, Block.add?_eq_some_iff.mp advanced]
    next => cases stolen
  next => cases stolen

namespace Steals

variable {range after : BumpRange} {count : Nat} {frame : Frame}

/-- A run that is stolen ends within the frames that can be named. -/
theorem fits (steals : Steals range count frame after) : frame.number + count ≤ blockLimit := by
  rw [← steals.advanced]
  exact Nat.le_of_lt after.first.block.number_lt

/-- Whatever the bounds are, a run that is stolen is split off the front. -/
theorem remaining (steals : Steals range count frame after) :
    range.remaining = frame.run count ++ after.remaining := by
  have within : after.first.block.number ≤ after.last.block.number :=
    Nat.div_le_div_right steals.ordered
  have named := after.last.block.number_lt
  have advanced := steals.advanced
  have left : after.last.block.number - frame.number - count =
      after.last.block.number - after.first.block.number := by
    omega
  rw [BumpRange.remaining, ← steals.lowest, ← steals.last, BumpRange.remaining, ← left]
  exact Block.run_split (by omega) (by omega) advanced

/-- The low end of a range with frame boundaries for bounds moves to a frame boundary. -/
theorem aligned (steals : Steals range count frame after) (aligned : range.Aligned) :
    after.Aligned := by
  refine ⟨steals.boundary, ?_, steals.ordered⟩
  rw [steals.last]
  exact aligned.last

end Steals

/-! ## Stealing between frame boundaries -/

theorem Aligned.steal_of_le {range : BumpRange} (aligned : range.Aligned)
    {count : Nat} (enough : count ≤ range.remaining.length) :
    ∃ after, range.steal count = (some range.first.block, after) ∧
      Steals range count range.first.block after := by
  rw [aligned.length_remaining] at enough
  have ordered := aligned.number_le
  have bounded := range.last.block.number_lt
  let rest : Frame := ⟨range.first.block.number + count, by omega⟩
  have advanced : range.first.block.add? count = some rest :=
    Block.add?_eq_some_iff.mpr rfl
  have within : rest.base.toNat ≤ range.last.toNat := by
    rw [Block.toNat_base, toNat_of_isAligned aligned.last]
    apply Nat.mul_le_mul_right
    simp only [rest]
    omega
  have stolen : range.steal count = (some range.first.block, { range with first := rest.base }) := by
    simp only [steal, advanced, within, if_true]
  exact ⟨_, stolen, steals_of_steal stolen⟩

theorem Aligned.steal_of_lt {range : BumpRange} (aligned : range.Aligned)
    {count : Nat} (short : range.remaining.length < count) :
    range.steal count = (none, range) := by
  rw [aligned.length_remaining] at short
  cases advanced : range.first.block.add? count with
  | none => simp only [steal, advanced]
  | some rest =>
      have number := Block.add?_eq_some_iff.mp advanced
      have past : ¬ rest.base.toNat ≤ range.last.toNat := by
        rw [Block.toNat_base, toNat_of_isAligned aligned.last]
        simp only [pageSize]
        omega
      simp only [steal, advanced, past, if_false]

end PagedMemory.BumpRange
