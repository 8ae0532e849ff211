import PagedMemory.Panic

/-!
# Alignment

Memory is handled in pieces of `pageSize` bytes.  Rounding down clears the
offset bits of an address.  Rounding up works on 64-bit sizes, so that the top
of the 32-bit space does not wrap; a size within `pageSize - 1` of the top of
the 64-bit range panics instead.

The lemmas restate the bit operations as division by `pageSize`.
-/

namespace PagedMemory

/-- Bytes in a frame of physical memory and in a page of virtual memory. -/
def pageSize : Nat := 4096

/-- How many low bits of an address are the offset inside its page. -/
def pageShift : Nat := 12

/-- The bits of an address that select its page. -/
def pageMask : UInt32 := 0xFFFFF000

/-- The greatest page boundary at or below an address. -/
def alignDown (address : UInt32) : UInt32 :=
  address &&& pageMask

/-- The least page boundary at or above a size. -/
def alignUp (size : UInt64) : Checked UInt64 :=
  if size.toNat + (pageSize - 1) < UInt64.size then
    .ok ((size + 4095) &&& 0xFFFFFFFFFFFFF000)
  else
    .error .arithmeticOverflow

/-- How many pages it takes to hold a number of bytes. -/
def pagesFor (size : UInt64) : Checked UInt64 :=
  (alignUp size).map fun rounded => rounded >>> (12 : UInt64)

/-! ## Rounding as division -/

/-- Clearing the low bits of a bounded number shifts them out. -/
private theorem and_mask_eq (value shift width : Nat) (bounded : value < 1 <<< (shift + width)) :
    value &&& ((1 <<< width - 1) <<< shift) = value >>> shift <<< shift := by
  rw [Nat.one_shiftLeft] at *
  apply Nat.eq_of_testBit_eq
  intro index
  simp only [Nat.testBit_and, Nat.testBit_shiftLeft, Nat.testBit_two_pow_sub_one,
    Nat.testBit_shiftRight]
  by_cases low : shift ≤ index
  · by_cases high : index < shift + width
    · simp [low, show index - shift < width by omega,
        show shift + (index - shift) = index by omega]
    · have clear : value.testBit index = false :=
        Nat.testBit_lt_two_pow
          (Nat.lt_of_lt_of_le bounded (Nat.pow_le_pow_right (by omega) (by omega)))
      simp [clear, show shift + (index - shift) = index by omega]
  · simp [low]

@[simp]
theorem toNat_alignDown (address : UInt32) :
    (alignDown address).toNat = address.toNat / pageSize * pageSize := by
  have bounded := address.toNat_lt
  have cleared := and_mask_eq address.toNat 12 20 (by simpa [Nat.shiftLeft_eq] using bounded)
  simp only [Nat.shiftRight_eq_div_pow, Nat.shiftLeft_eq] at cleared
  simpa [alignDown, pageMask, pageSize, UInt32.toNat_and] using cleared

/-- Rounding up is exact wherever the sum with `pageSize - 1` fits. -/
theorem alignUp_of_fits {size : UInt64} (fits : size.toNat + (pageSize - 1) < UInt64.size) :
    ∃ rounded, alignUp size = .ok rounded ∧
      rounded.toNat = (size.toNat + (pageSize - 1)) / pageSize * pageSize := by
  refine ⟨_, if_pos fits, ?_⟩
  have sum : (size + 4095).toNat = size.toNat + 4095 := by
    rw [UInt64.toNat_add]
    exact Nat.mod_eq_of_lt fits
  have bounded : size.toNat + 4095 < 1 <<< (12 + 52) := fits
  have cleared := and_mask_eq (size.toNat + 4095) 12 52 bounded
  simp only [Nat.shiftRight_eq_div_pow, Nat.shiftLeft_eq] at cleared
  simpa [pageSize, UInt64.toNat_and, sum] using cleared

theorem alignUp_eq_error_iff {size : UInt64} {panic : Panic} :
    alignUp size = .error panic ↔
      panic = .arithmeticOverflow ∧ UInt64.size ≤ size.toNat + (pageSize - 1) := by
  unfold alignUp
  split
  · constructor
    · intro refused
      cases refused
    · rintro ⟨-, large⟩
      omega
  · constructor
    · intro refused
      cases refused
      exact ⟨rfl, by omega⟩
    · rintro ⟨rfl, -⟩
      rfl

/-- The page count is exact wherever the sum with `pageSize - 1` fits. -/
theorem pagesFor_of_fits {size : UInt64} (fits : size.toNat + (pageSize - 1) < UInt64.size) :
    ∃ count, pagesFor size = .ok count ∧
      count.toNat = (size.toNat + (pageSize - 1)) / pageSize := by
  obtain ⟨rounded, success, value⟩ := alignUp_of_fits fits
  refine ⟨rounded >>> (12 : UInt64), by rw [pagesFor, success]; rfl, ?_⟩
  rw [UInt64.toNat_shiftRight, value, Nat.shiftRight_eq_div_pow]
  simp [pageSize]

end PagedMemory
