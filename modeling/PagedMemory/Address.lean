import PagedMemory.Alignment
import PagedMemory.Hexadecimal
import PagedMemory.Word

/-!
# Addresses, frames and pages

Physical and virtual addresses are words of the same width that must never be
mixed, so the kind of an address is part of its type.  An address lies in one
block of `pageSize` bytes: a physical block is a *frame* and a virtual block is
a *page*.  A block is known by its number, which needs twenty bits.

A page also has a place in the two-level page table:

```text
| 31‒22           | 21‒12       | 11‒0   |
| directory index | table index | offset |
```
-/

namespace PagedMemory

/-- The two address spaces of the machine. -/
inductive AddressKind where
  | physical
  | virtual
  deriving DecidableEq

/-- The two letters that introduce an address in diagnostic text. -/
def AddressKind.tag : AddressKind → String
  | .physical => "PA"
  | .virtual => "VA"

/-- A 32-bit address of one kind. -/
structure Address (kind : AddressKind) where
  word : UInt32
  deriving DecidableEq

/-- An address of physical memory. -/
abbrev PhysAddr := Address .physical

/-- An address as programs see it. -/
abbrev VirtAddr := Address .virtual

/-- How many frames the physical space has, and how many pages the virtual one. -/
def blockLimit : Nat := 0x100000

/-- A block of `pageSize` bytes that starts on a multiple of `pageSize`. -/
structure Block (kind : AddressKind) where
  /-- The base address divided by `pageSize`. -/
  number : Nat
  number_lt : number < blockLimit
  deriving DecidableEq

/-- A block of physical memory. -/
abbrev Frame := Block .physical

/-- A block of virtual memory. -/
abbrev Page := Block .virtual

namespace Address

variable {kind : AddressKind}

/-- The position of an address in its space. -/
def toNat (address : Address kind) : Nat :=
  address.word.toNat

theorem toNat_lt (address : Address kind) : address.toNat < UInt32.size :=
  address.word.toNat_lt

theorem toNat_inj {left right : Address kind} :
    left.toNat = right.toNat ↔ left = right := by
  cases left
  cases right
  simp [toNat, UInt32.toNat_inj]

/-- The block that contains an address. -/
def block (address : Address kind) : Block kind where
  number := address.toNat / pageSize
  number_lt := by
    have bounded := address.toNat_lt
    simp only [pageSize, blockLimit, UInt32.size] at *
    omega

@[simp]
theorem number_block (address : Address kind) :
    address.block.number = address.toNat / pageSize :=
  rfl

/-- The distance of an address from the start of its block. -/
def offset (address : Address kind) : Nat :=
  address.toNat % pageSize

theorem offset_lt (address : Address kind) : address.offset < pageSize :=
  Nat.mod_lt _ (by decide)

/-- An address is aligned if it starts a block. -/
def isAligned (address : Address kind) : Bool :=
  address.offset == 0

theorem isAligned_iff {address : Address kind} :
    address.isAligned = true ↔ pageSize ∣ address.toNat := by
  rw [isAligned, beq_iff_eq, offset, Nat.dvd_iff_mod_eq_zero]

/-- The address as it stands in messages. -/
def text (address : Address kind) : String :=
  Hexadecimal.word address.word

/-- The address with its kind, as it stands in diagnostic text. -/
def inspect (address : Address kind) : String :=
  s!"{kind.tag}({address.text})"

instance : ToString (Address kind) :=
  ⟨text⟩

end Address

namespace Block

variable {kind : AddressKind}

theorem number_inj {left right : Block kind} :
    left.number = right.number ↔ left = right := by
  cases left
  cases right
  simp

/-- The first address of a block. -/
def base (block : Block kind) : Address kind :=
  ⟨UInt32.ofNat (block.number * pageSize)⟩

@[simp]
theorem toNat_base (block : Block kind) :
    block.base.toNat = block.number * pageSize := by
  have bounded := block.number_lt
  simp only [base, Address.toNat, pageSize, blockLimit] at *
  exact UInt32.toNat_ofNat_of_lt' (by simpa [UInt32.size] using by omega)

@[simp]
theorem block_base (block : Block kind) : block.base.block = block := by
  rw [← number_inj]
  simp [pageSize]

/-- The block with a given number. -/
def ofNumber (number : Nat) : Checked (Block kind) :=
  if bounded : number < blockLimit then
    .ok ⟨number, bounded⟩
  else
    .error .frameNumberTooLarge

@[simp]
theorem ofNumber_number (block : Block kind) : ofNumber block.number = .ok block := by
  simp [ofNumber, block.number_lt]

theorem ofNumber_eq_ok_iff {number : Nat} {block : Block kind} :
    ofNumber number = .ok block ↔ block.number = number := by
  constructor
  · intro success
    by_cases bounded : number < blockLimit
    · simp only [ofNumber, bounded, dite_true, Except.ok.injEq] at success
      simp [← success]
    · simp [ofNumber, bounded] at success
  · rintro rfl
    simp

/--
The block some blocks further up, if its first byte is still addressable.  The count,
the distance in bytes and the new address each have to fit a word.
-/
def add? (block : Block kind) (count : Nat) : Option (Block kind) := do
  let count ← Word.narrow? count
  let bytes ← Word.mul? count (UInt32.ofNat pageSize)
  let start ← Word.add? block.base.word bytes
  return (⟨start⟩ : Address kind).block

/-- Stepping up adds to the number and never wraps. -/
theorem add?_eq_some_iff {block target : Block kind} {count : Nat} :
    block.add? count = some target ↔ target.number = block.number + count := by
  have size : (UInt32.ofNat pageSize).toNat = pageSize := rfl
  have start : block.base.word.toNat = block.number * pageSize := toNat_base block
  simp only [add?, bind, pure, Option.bind_eq_some_iff, Option.some.injEq,
    Word.narrow?_eq_some_iff, Word.mul?_eq_some_iff, Word.add?_eq_some_iff, size, start]
  constructor
  · rintro ⟨word, rfl, bytes, product, sum, exact, rfl⟩
    rw [Address.number_block, Address.toNat, exact, product, ← Nat.add_mul]
    exact Nat.mul_div_cancel _ (by decide)
  · intro number
    have base : target.base.word.toNat = target.number * pageSize := toNat_base target
    have bounded := target.number_lt
    have narrow : (UInt32.ofNat count).toNat = count := by
      apply UInt32.toNat_ofNat_of_lt'
      simp only [blockLimit, UInt32.size] at *
      omega
    have distance : (UInt32.ofNat (count * pageSize)).toNat = count * pageSize := by
      apply UInt32.toNat_ofNat_of_lt'
      simp only [blockLimit, pageSize, UInt32.size] at *
      omega
    refine ⟨UInt32.ofNat count, narrow, UInt32.ofNat (count * pageSize), ?_,
      target.base.word, ?_, block_base target⟩
    · rw [narrow, distance]
    · rw [base, distance, number, Nat.add_mul]

@[simp]
theorem add?_zero (block : Block kind) : block.add? 0 = some block :=
  add?_eq_some_iff.2 rfl

/-- Consecutive blocks from a first one up, as far as the space reaches. -/
def run (first : Block kind) (count : Nat) : List (Block kind) :=
  (List.range count).filterMap first.add?

/-- The block as it stands in messages: the address of its first byte. -/
def text (block : Block kind) : String :=
  block.base.text

instance : ToString (Block kind) :=
  ⟨text⟩

end Block

namespace Frame

/-- The frame as it stands in diagnostic text. -/
def inspect (frame : Frame) : String :=
  s!"PhysicalFrame({frame})"

end Frame

/-- Slots in one level of the page table. -/
def slotsPerTable : Nat := 1024

namespace Page

/-- Which slot of the directory covers a page. -/
def directoryIndex (page : Page) : Nat :=
  page.number / slotsPerTable

/-- Which slot of its second-level table belongs to a page. -/
def tableIndex (page : Page) : Nat :=
  page.number % slotsPerTable

theorem directoryIndex_lt (page : Page) : page.directoryIndex < slotsPerTable := by
  have bounded := page.number_lt
  simp only [directoryIndex, slotsPerTable, blockLimit] at *
  omega

theorem tableIndex_lt (page : Page) : page.tableIndex < slotsPerTable :=
  Nat.mod_lt _ (by decide)

/-- The two indices spell the page number. -/
theorem indices_recombine (page : Page) :
    page.directoryIndex * slotsPerTable + page.tableIndex = page.number :=
  Nat.div_add_mod' page.number slotsPerTable

/-- The page as it stands in diagnostic text, with its place in the page table. -/
def inspect (page : Page) : String :=
  s!"VirtualPage({page} [{page.directoryIndex}:{page.tableIndex}])"

end Page

end PagedMemory
