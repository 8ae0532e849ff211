import Mathlib.Data.Rat.Floor
import PagedMemory.Frames.FreeStack
import PagedMemory.Proofs.Frames.Boot
import PagedMemory.Proofs.Space.Range

/-!
# Rounding to page boundaries

Rounding clears bits of a word.  What it is for is said without bits: the result of
rounding up is the least page boundary that is not below the size, wherever that
boundary is a 64-bit word, and rounding up panics exactly where it is not one.  A
size is rounded in three places of this library.  There it comes from sums and
products of 32-bit words, which stay far below the panicking sizes.
-/

namespace PagedMemory

/-- The page boundaries that are not below a size. -/
def boundariesAbove (size : Nat) : Set Nat :=
  {boundary | pageSize ∣ boundary ∧ size ≤ boundary}

/-- The page boundaries that are not above an address. -/
def boundariesBelow (address : Nat) : Set Nat :=
  {boundary | pageSize ∣ boundary ∧ boundary ≤ address}

theorem isLeast_boundariesAbove (size : Nat) :
    IsLeast (boundariesAbove size) ((size + (pageSize - 1)) / pageSize * pageSize) := by
  constructor
  · refine ⟨Nat.dvd_mul_left _ _, ?_⟩
    simp only [pageSize]
    omega
  · rintro boundary ⟨⟨count, rfl⟩, above⟩
    simp only [pageSize] at *
    omega

theorem isGreatest_boundariesBelow (address : Nat) :
    IsGreatest (boundariesBelow address) (address / pageSize * pageSize) := by
  constructor
  · exact ⟨Nat.dvd_mul_left _ _, Nat.div_mul_le_self _ _⟩
  · rintro boundary ⟨⟨count, rfl⟩, below⟩
    simp only [pageSize] at *
    omega

/-- Counting whole pages rounds the quotient up. -/
theorem ceil_div_pageSize (size : Nat) :
    ⌈(size : ℚ) / pageSize⌉₊ = (size + (pageSize - 1)) / pageSize := by
  have positive : (0 : ℚ) < (pageSize : ℚ) := by
    exact_mod_cast (by decide : 0 < pageSize)
  apply eq_of_forall_ge_iff
  intro count
  rw [Nat.ceil_le, div_le_iff₀ positive]
  have enough : (size : ℚ) ≤ (count : ℚ) * (pageSize : ℚ) ↔ size ≤ count * pageSize := by
    exact_mod_cast Iff.rfl
  rw [enough]
  simp only [pageSize]
  omega

variable {size : UInt64}

/-- Rounding up has a result exactly if the boundary above is a word. -/
theorem alignUp_eq_ok_iff {rounded : UInt64} :
    alignUp size = .ok rounded ↔
      IsLeast (boundariesAbove size.toNat) rounded.toNat := by
  have least := isLeast_boundariesAbove size.toNat
  constructor
  · intro success
    have fits : size.toNat + (pageSize - 1) < UInt64.size := by
      by_contra large
      have refused : alignUp size = .error .arithmeticOverflow := if_neg large
      cases refused.symm.trans success
    obtain ⟨boundary, found, value⟩ := alignUp_of_fits fits
    cases found.symm.trans success
    rwa [value]
  · intro above
    have value := above.unique least
    have bounded := rounded.toNat_lt
    have fits : size.toNat + (pageSize - 1) < UInt64.size := by
      simp only [pageSize, UInt64.size] at *
      omega
    obtain ⟨boundary, found, exact⟩ := alignUp_of_fits fits
    rw [found, UInt64.toNat_inj.mp (value.trans exact.symm)]

theorem pagesFor_eq_error_iff {panic : Panic} :
    pagesFor size = .error panic ↔
      panic = .arithmeticOverflow ∧ UInt64.size ≤ size.toNat + (pageSize - 1) := by
  rw [← alignUp_eq_error_iff, pagesFor]
  cases alignUp size <;> simp [Except.map]

theorem pagesFor_eq_ok_iff {count : UInt64} :
    pagesFor size = .ok count ↔
      size.toNat + (pageSize - 1) < UInt64.size ∧
        count.toNat = ⌈(size.toNat : ℚ) / pageSize⌉₊ := by
  rw [ceil_div_pageSize]
  constructor
  · intro success
    have fits : size.toNat + (pageSize - 1) < UInt64.size := by
      by_contra large
      have refused := pagesFor_eq_error_iff.mpr ⟨rfl, Nat.le_of_not_lt large⟩
      cases refused.symm.trans success
    obtain ⟨pages, counted, value⟩ := pagesFor_of_fits fits
    cases counted.symm.trans success
    exact ⟨fits, value⟩
  · rintro ⟨fits, value⟩
    obtain ⟨pages, counted, exact⟩ := pagesFor_of_fits fits
    rw [counted, UInt64.toNat_inj.mp (exact.trans value.symm)]

/-- The pages of a size hold it, and one page less would not. -/
theorem pagesFor_encloses {count : UInt64} (counted : pagesFor size = .ok count) :
    size.toNat ≤ count.toNat * pageSize ∧
      (0 < size → (count.toNat - 1) * pageSize < size.toNat) := by
  obtain ⟨-, value⟩ := pagesFor_eq_ok_iff.mp counted
  rw [ceil_div_pageSize] at value
  rw [value]
  refine ⟨?_, fun positive => ?_⟩
  · simp only [pageSize]
    omega
  · have some : 0 < size.toNat := UInt64.lt_iff_toNat_lt.mp positive
    simp only [pageSize]
    omega

/-! ## Sizes that are rounded -/

/-- A range of addresses has a page count, or it is refused. -/
theorem pageRange?_returns (start : VirtAddr) (size : UInt32) :
    (size.toUInt64 + UInt64.ofNat start.offset).toNat = size.toNat + start.offset ∧
      size.toNat + start.offset + (pageSize - 1) < UInt64.size ∧
      ∃ range, AddressSpace.pageRange? start size = .ok range := by
  refine ⟨AddressSpace.toNat_span start size, ?_, _, AddressSpace.pageRange?_eq start size⟩
  have offset := start.offset_lt
  have small := size.toNat_lt
  simp only [pageSize, UInt64.size] at *
  omega

theorem between_returns (first last : PhysAddr) :
    first.word.toUInt64.toNat + (pageSize - 1) < UInt64.size ∧
      ∃ range, BumpRange.between first last = .ok range := by
  obtain ⟨range, made, -⟩ := BumpRange.between_bounds first last
  refine ⟨?_, range, made⟩
  have small := first.word.toNat_lt
  simp only [UInt32.toNat_toUInt64, pageSize, UInt64.size]
  omega

/-- The bytes of a frame table over any number of frames that is a word. -/
theorem footprint_returns (total : UInt32) :
    (UInt64.ofNat (total.toNat * entrySize)).toNat = total.toNat * entrySize ∧
      total.toNat * entrySize + (pageSize - 1) < UInt64.size ∧
      ∃ frames, FreeStack.footprint total.toNat = .ok frames := by
  have small := total.toNat_lt
  have fits : total.toNat * entrySize + (pageSize - 1) < UInt64.size := by
    simp only [entrySize, pageSize, UInt64.size]
    omega
  have value : (UInt64.ofNat (total.toNat * entrySize)).toNat = total.toNat * entrySize :=
    UInt64.toNat_ofNat_of_lt' (Nat.lt_of_le_of_lt (Nat.le_add_right _ _) fits)
  obtain ⟨count, counted, -⟩ := pagesFor_of_fits (value ▸ fits)
  refine ⟨value, fits, count.toNat, ?_⟩
  rw [FreeStack.footprint, counted]
  rfl

/--
Rounding up gives the least page boundary that is not below a size, and panics exactly
if the size and the rest of a page do not fit a word together.  The count of pages
panics on the same sizes and otherwise is the quotient rounded up.  Rounding down gives
the greatest boundary that is not above an address.  No size that a declaration, a bump
range or a frame table has rounded is one of the panicking ones.
-/
theorem rounding_is_exact :
    (∀ size : UInt64,
      (∀ panic, alignUp size = .error panic ↔
        panic = .arithmeticOverflow ∧ 2 ^ 64 ≤ size.toNat + (pageSize - 1)) ∧
      (∀ rounded, alignUp size = .ok rounded ↔
        IsLeast (boundariesAbove size.toNat) rounded.toNat) ∧
      (∀ panic, pagesFor size = .error panic ↔
        panic = .arithmeticOverflow ∧ 2 ^ 64 ≤ size.toNat + (pageSize - 1)) ∧
      (∀ count, pagesFor size = .ok count ↔
        size.toNat + (pageSize - 1) < 2 ^ 64 ∧
          count.toNat = ⌈(size.toNat : ℚ) / pageSize⌉₊) ∧
      ∀ count, pagesFor size = .ok count →
        size.toNat ≤ count.toNat * pageSize ∧
          (0 < size → (count.toNat - 1) * pageSize < size.toNat)) ∧
    (∀ address : UInt32,
      IsGreatest (boundariesBelow address.toNat) (alignDown address).toNat) ∧
    (∀ (start : VirtAddr) (size : UInt32),
      (size.toUInt64 + UInt64.ofNat start.offset).toNat = size.toNat + start.offset ∧
        size.toNat + start.offset + (pageSize - 1) < 2 ^ 64 ∧
        ∃ range, AddressSpace.pageRange? start size = .ok range) ∧
    (∀ first last : PhysAddr,
      first.word.toUInt64.toNat + (pageSize - 1) < 2 ^ 64 ∧
        ∃ range, BumpRange.between first last = .ok range) ∧
    ∀ total : UInt32,
      (UInt64.ofNat (total.toNat * entrySize)).toNat = total.toNat * entrySize ∧
        total.toNat * entrySize + (pageSize - 1) < 2 ^ 64 ∧
        ∃ frames, FreeStack.footprint total.toNat = .ok frames := by
  refine ⟨fun size => ⟨fun panic => alignUp_eq_error_iff, fun rounded => alignUp_eq_ok_iff,
    fun panic => pagesFor_eq_error_iff, fun count => pagesFor_eq_ok_iff,
    fun count counted => pagesFor_encloses counted⟩, fun address => ?_,
    pageRange?_returns, between_returns, footprint_returns⟩
  rw [toNat_alignDown]
  exact isGreatest_boundariesBelow address.toNat

end PagedMemory
