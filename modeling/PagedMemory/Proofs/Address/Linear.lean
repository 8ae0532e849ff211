import Mathlib.Algebra.Order.Ring.Nat
import PagedMemory.Address

/-!
# Places of pages

The processor cuts an address into fields of bits; this library divides its number.
Both say the same: the two indices and the offset are digits of the address, and the
place of a page in the two-level table is its number.  Stepping from block to block
therefore moves through the slots of all tables in order, past the end of one table to
the first slot of the next, and stops at the end of the space.
-/

namespace PagedMemory

namespace Address

variable {kind : AddressKind}

/-- Bits 31 to 22 of an address. -/
def directoryField (address : Address kind) : UInt32 :=
  address.word >>> 22

/-- Bits 21 to 12 of an address. -/
def tableField (address : Address kind) : UInt32 :=
  (address.word >>> 12) &&& 0x3FF

/-- Bits 11 to 0 of an address. -/
def offsetField (address : Address kind) : UInt32 :=
  address.word &&& ~~~ pageMask

theorem toNat_directoryField (address : Address kind) :
    address.directoryField.toNat = address.toNat / pageSize / slotsPerTable := by
  rw [directoryField, UInt32.toNat_shiftRight, Nat.shiftRight_eq_div_pow, Nat.div_div_eq_div_mul]
  rfl

theorem toNat_tableField (address : Address kind) :
    address.tableField.toNat = address.toNat / pageSize % slotsPerTable := by
  have mask : (0x3FF : UInt32).toNat = 2 ^ 10 - 1 := rfl
  rw [tableField, UInt32.toNat_and, mask, Nat.and_two_pow_sub_one_eq_mod,
    UInt32.toNat_shiftRight, Nat.shiftRight_eq_div_pow]
  rfl

theorem toNat_offsetField (address : Address kind) :
    address.offsetField.toNat = address.offset := by
  have mask : (~~~ pageMask).toNat = 2 ^ 12 - 1 := rfl
  rw [offsetField, UInt32.toNat_and, mask, Nat.and_two_pow_sub_one_eq_mod]
  rfl

/-- The digits of an address spell it. -/
theorem digits_recombine (address : VirtAddr) :
    Page.directoryIndex address.block * 2 ^ 22 +
      Page.tableIndex address.block * 2 ^ 12 + address.offset = address.toNat := by
  simp only [Page.directoryIndex, Page.tableIndex, number_block, offset, pageSize,
    slotsPerTable]
  omega

end Address

namespace Block

variable {kind : AddressKind}

theorem div_toNat_base (block : Block kind) :
    block.base.toNat / pageSize = block.number := by
  rw [toNat_base, Nat.mul_div_cancel _ (by decide)]

/-- There is no block further up exactly if its number would not fit. -/
theorem add?_eq_none_iff {block : Block kind} {count : Nat} :
    block.add? count = none ↔ blockLimit ≤ block.number + count := by
  constructor
  · intro refused
    refine Nat.le_of_not_lt fun inside => ?_
    have target : block.add? count = some ⟨block.number + count, inside⟩ :=
      add?_eq_some_iff.mpr rfl
    cases refused.symm.trans target
  · intro outside
    cases moved : block.add? count with
    | none => rfl
    | some target =>
        have number := add?_eq_some_iff.mp moved
        have bounded := target.number_lt
        omega

end Block

namespace Page

/-- Two pages have the same place only if they are the same. -/
theorem place_inj {left right : Page} :
    left.directoryIndex = right.directoryIndex ∧ left.tableIndex = right.tableIndex ↔
      left = right := by
  constructor
  · rintro ⟨directory, table⟩
    rw [← Block.number_inj, ← left.indices_recombine, ← right.indices_recombine,
      directory, table]
  · rintro rfl
    exact ⟨rfl, rfl⟩

end Page

/--
An address is its directory index, its table index and its offset, each below its
bound, and these are the fields of bits that the processor cuts out.  Two addresses
share a slot exactly if they lie in the same page.  Stepping up from a page or a frame
adds to its number and refuses exactly where the number would leave the space, so the
slot of a page advances by as many slots as pages are stepped over.
-/
theorem stepping_is_linear :
    (∀ address : VirtAddr,
      let page : Page := address.block
      page.directoryIndex < 1024 ∧ page.tableIndex < 1024 ∧ address.offset < 4096 ∧
        page.directoryIndex * 2 ^ 22 + page.tableIndex * 2 ^ 12 + address.offset =
          address.toNat ∧
        address.directoryField.toNat = page.directoryIndex ∧
        address.tableField.toNat = page.tableIndex ∧
        address.offsetField.toNat = address.offset) ∧
    (∀ left right : VirtAddr,
      Page.directoryIndex left.block = Page.directoryIndex right.block ∧
          Page.tableIndex left.block = Page.tableIndex right.block ↔
        left.toNat / 4096 = right.toNat / 4096) ∧
    (∀ (kind : AddressKind) (block : Block kind) (count : UInt32),
      (∀ target, block.add? count.toNat = some target ↔
        block.base.toNat / 4096 + count.toNat < 2 ^ 20 ∧
          target.base.toNat / 4096 = block.base.toNat / 4096 + count.toNat) ∧
      (block.add? count.toNat = none ↔
        2 ^ 20 ≤ block.base.toNat / 4096 + count.toNat)) ∧
    ∀ (page target : Page) (count : UInt32), page.add? count.toNat = some target →
      target.directoryIndex * 1024 + target.tableIndex =
        page.directoryIndex * 1024 + page.tableIndex + count.toNat := by
  refine ⟨fun address => ?_, fun left right => ?_, fun kind block count => ?_,
    fun page target count moved => ?_⟩
  · refine ⟨Page.directoryIndex_lt _, Page.tableIndex_lt _, address.offset_lt,
      address.digits_recombine, ?_, ?_, address.toNat_offsetField⟩
    · rw [Address.toNat_directoryField, ← Address.number_block]
      rfl
    · rw [Address.toNat_tableField, ← Address.number_block]
      rfl
  · rw [Page.place_inj, ← Block.number_inj]
    rfl
  · have place : ∀ other : Block kind, other.base.toNat / 4096 = other.number :=
      Block.div_toNat_base
    have limit : blockLimit = 2 ^ 20 := rfl
    refine ⟨fun target => ?_, ?_⟩
    · rw [Block.add?_eq_some_iff, place, place, ← limit]
      constructor
      · intro number
        exact ⟨number ▸ target.number_lt, number⟩
      · exact And.right
    · rw [Block.add?_eq_none_iff, place, limit]
  · have slot : ∀ other : Page,
        other.directoryIndex * 1024 + other.tableIndex = other.number :=
      Page.indices_recombine
    rw [slot, slot]
    exact Block.add?_eq_some_iff.mp moved

end PagedMemory
