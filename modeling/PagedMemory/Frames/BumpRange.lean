import PagedMemory.Address

/-!
# Bump ranges

Before the frame table exists, frames are *stolen* from the low end of a range
of memory and never come back.  A new range is shrunk inward to frame
boundaries; bounds that leave no frame between them give an empty range.

Stealing more frames than are left is refused and changes nothing.
-/

namespace PagedMemory

/-- Memory from which frames are stolen at the low end. -/
structure BumpRange where
  /-- The first address that has not been stolen. -/
  first : PhysAddr
  /-- The end of the range. -/
  last : PhysAddr
  deriving DecidableEq

namespace BumpRange

/-- The frames that lie completely between two addresses. -/
def between (first last : PhysAddr) : Checked BumpRange := do
  let low ← alignUp first.word.toUInt64
  let high := alignDown last.word
  return ⟨⟨if low ≤ high.toUInt64 then low.toUInt32 else high⟩, ⟨high⟩⟩

/-- Take frames from the low end. -/
def steal (range : BumpRange) (count : Nat) : Option Frame × BumpRange :=
  match range.first.block.add? count with
  | some rest =>
      if rest.base.toNat ≤ range.last.toNat then
        (some range.first.block, { range with first := rest.base })
      else
        (none, range)
  | none => (none, range)

/-- Steal runs of the given lengths; each comes with the range that is left after it. -/
def stealAll (range : BumpRange) : List Nat → List (Option Frame × BumpRange)
  | [] => []
  | count :: rest =>
      let (frame, left) := range.steal count
      (frame, left) :: left.stealAll rest

/-- The range as it stands in diagnostic text. -/
def inspect (range : BumpRange) : String :=
  s!"BumpRam \x7b first: {range.first.inspect}, last: {range.last.inspect} \x7d"

/-- Stealing a frame moves the low end up. -/
theorem first_lt_of_steal_one {range after : BumpRange} {frame : Frame}
    (stolen : range.steal 1 = (some frame, after)) :
    range.first.toNat < after.first.toNat ∧ after.first.toNat ≤ after.last.toNat ∧
      after.last = range.last := by
  unfold steal at stolen
  split at stolen
  · rename_i rest advanced
    split at stolen
    · rename_i within
      obtain ⟨-, rfl⟩ := Prod.mk.inj stolen
      rw [Block.add?_eq_some_iff] at advanced
      refine ⟨?_, within, rfl⟩
      simp only [Address.number_block, Block.toNat_base, pageSize] at *
      omega
    · simp at stolen
  · simp at stolen

end BumpRange

end PagedMemory
