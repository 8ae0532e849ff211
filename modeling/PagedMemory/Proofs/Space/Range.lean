import PagedMemory.Space.Declare
import PagedMemory.Proofs.Address.Run

/-!
# Ranges of whole pages

A range of addresses is widened to the pages that it touches.  The sums on the way
are 64 bits wide, and none of them comes near that width: a range is refused exactly
if it is empty or runs past the top of the address space, and otherwise it has a page
for every `pageSize` bytes between its two ends, rounded outwards.  The last page may
be the topmost one.
-/

namespace PagedMemory.AddressSpace

variable {start address : VirtAddr} {size : UInt32}

/-- A range that is not empty and ends at the top of the address space or below. -/
def ValidRange (start : VirtAddr) (size : UInt32) : Prop :=
  size ≠ 0 ∧ start.toNat + size.toNat ≤ UInt32.size

instance (start : VirtAddr) (size : UInt32) : Decidable (ValidRange start size) :=
  inferInstanceAs (Decidable (_ ∧ _))

/-- How many pages a range touches. -/
def pageSpan (start : VirtAddr) (size : UInt32) : Nat :=
  (size.toNat + start.offset + (pageSize - 1)) / pageSize

/-- An address of one of the pages that a range touches. -/
def Widened (start : VirtAddr) (size : UInt32) (address : VirtAddr) : Prop :=
  start.toNat / pageSize * pageSize ≤ address.toNat ∧
    address.toNat < (start.toNat + size.toNat + (pageSize - 1)) / pageSize * pageSize

instance (start : VirtAddr) (size : UInt32) (address : VirtAddr) :
    Decidable (Widened start size address) :=
  inferInstanceAs (Decidable (_ ∧ _))

/-! ## Widening a range -/

theorem toNat_span (start : VirtAddr) (size : UInt32) :
    (size.toUInt64 + UInt64.ofNat start.offset).toNat = size.toNat + start.offset := by
  have offset := start.offset_lt
  have small := size.toNat_lt
  simp only [pageSize] at offset
  rw [UInt64.toNat_add, UInt32.toNat_toUInt64,
    UInt64.toNat_ofNat_of_lt' (by simp only [UInt64.size]; omega)]
  omega

/-- The count of pages fits a word, and so does the end of the last page. -/
theorem pagesFor_span (start : VirtAddr) (size : UInt32) :
    ∃ count, pagesFor (size.toUInt64 + UInt64.ofNat start.offset) = .ok count ∧
      count.toNat = pageSpan start size ∧ count.toNat < UInt32.size ∧
      (start.block : Page).base.toNat + count.toNat * pageSize < UInt64.size := by
  have offset := start.offset_lt
  have small := size.toNat_lt
  have below := start.toNat_lt
  have fits : (size.toUInt64 + UInt64.ofNat start.offset).toNat + (pageSize - 1) <
      UInt64.size := by
    rw [toNat_span]
    simp only [pageSize, UInt64.size] at *
    omega
  rcases pagesFor_of_fits fits with ⟨count, counted, value⟩
  rw [toNat_span] at value
  refine ⟨count, counted, value, ?_, ?_⟩
  · rw [value]
    simp only [pageSize, UInt32.size] at *
    omega
  · rw [value, Block.toNat_base, Address.number_block]
    simp only [pageSize, UInt32.size, UInt64.size] at *
    omega

/-- The widened range fits exactly if the range itself does. -/
theorem end_le_iff (start : VirtAddr) (size : UInt32) :
    (start.block : Page).base.toNat + pageSpan start size * pageSize ≤ UInt32.size ↔
      start.toNat + size.toNat ≤ UInt32.size := by
  rw [Block.toNat_base, Address.number_block, pageSpan, Address.offset]
  simp only [pageSize, UInt32.size]
  omega

/-- What becomes of a range is decided by its two ends alone. -/
theorem pageRange?_eq (start : VirtAddr) (size : UInt32) :
    pageRange? start size =
      .ok (if ValidRange start size then some (start.block, pageSpan start size) else none) := by
  rcases pagesFor_span start size with ⟨count, counted, value, -, -⟩
  have refused : (size = 0 ∨
      UInt32.size < (start.block : Page).base.toNat + count.toNat * pageSize) ↔
        ¬ ValidRange start size := by
    rw [value, ← Nat.not_le, end_le_iff, ValidRange, not_and_or, ne_eq, not_not]
  unfold pageRange?
  rw [counted, ← value]
  by_cases valid : ValidRange start size
  · rw [if_pos valid]
    simp only [bind, Except.bind, if_neg fun rejected => refused.mp rejected valid]
    rfl
  · rw [if_neg valid]
    simp only [bind, Except.bind, if_pos (refused.mpr valid)]
    rfl

theorem pageSpan_pos (valid : ValidRange start size) : 0 < pageSpan start size := by
  have positive : size.toNat ≠ 0 := by
    intro zero
    exact valid.1 (UInt32.toNat_inj.mp zero)
  unfold pageSpan
  simp only [pageSize]
  omega

theorem pageSpan_fits (valid : ValidRange start size) :
    (start.block : Page).number + pageSpan start size ≤ blockLimit := by
  have within := (end_le_iff start size).mpr valid.2
  rw [Block.toNat_base] at within
  simp only [blockLimit, UInt32.size, pageSize] at *
  omega

/-- The pages of a range are those that its addresses lie in. -/
theorem mem_run_span_iff :
    (address.block : Page) ∈ (start.block : Page).run (pageSpan start size) ↔
      Widened start size address := by
  rw [Block.mem_run, Address.number_block, Address.number_block, pageSpan, Address.offset,
    Widened]
  simp only [pageSize]
  omega

end PagedMemory.AddressSpace
