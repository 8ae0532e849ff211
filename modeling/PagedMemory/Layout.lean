import PagedMemory.Address

/-!
# Memory layout

```text
0x0000_0000 ┌──────────────────────────────┐
            │  user space: regions         │
            ├──────────────────────────────┤ stackBottom
            │  user stack                  │
0x8000_0000 ├──────────────────────────────┤ stackTop = directMapBase
            │  direct-mapped kernel        │
0xA000_0000 ├──────────────────────────────┤ directMapEnd
            │  other kernel segments       │
0xFFFF_FFFF └──────────────────────────────┘
```

The kernel sees every physical address below `directMapLimit` at a constant
distance, `directMapBase`, in its direct-mapped segment.
-/

namespace PagedMemory

/-- Where the direct-mapped segment starts. -/
def directMapBase : Nat := 0x80000000

/-- Where the direct-mapped segment ends. -/
def directMapEnd : Nat := 0xA0000000

/-- The first physical address that the direct-mapped segment does not reach. -/
def directMapLimit : Nat := directMapEnd - directMapBase

/-- The end of the user stack, which is also the initial stack pointer. -/
def stackTop : Nat := directMapBase

/-- How many pages the user stack has. -/
def stackPages : Nat := 16

/-- Where the user stack starts. -/
def stackBottom : Nat := stackTop - stackPages * pageSize

/-- Slots of the lookaside cache of the processor. -/
def lookasideSlots : Nat := 64

namespace Address

/-- The kernel's view of a physical address, if the direct map reaches it. -/
def toKernel? (address : PhysAddr) : Option VirtAddr :=
  if address.toNat < directMapLimit then
    some ⟨UInt32.ofNat (address.toNat + directMapBase)⟩
  else
    none

/-- The physical address behind an address of the direct-mapped segment. -/
def toPhysical? (address : VirtAddr) : Option PhysAddr :=
  if directMapBase ≤ address.toNat ∧ address.toNat < directMapEnd then
    some ⟨UInt32.ofNat (address.toNat - directMapBase)⟩
  else
    none

/--
The pointer through which the kernel reaches a physical address.  It is computed by
adding words, once it is known that the direct map reaches the address.
-/
def kernelPointer (address : PhysAddr) : Checked VirtAddr := do
  Checked.require (address.toKernel?.isSome = true) .unreachableAddress
  return ⟨address.word + UInt32.ofNat directMapBase⟩

theorem toKernel?_eq_none_iff {address : PhysAddr} :
    address.toKernel? = none ↔ directMapLimit ≤ address.toNat := by
  unfold toKernel?
  split <;> simp only [reduceCtorEq, true_iff, false_iff] <;> omega

theorem toKernel?_eq_some_iff {address : PhysAddr} {pointer : VirtAddr} :
    address.toKernel? = some pointer ↔
      address.toNat < directMapLimit ∧ pointer.toNat = address.toNat + directMapBase := by
  have bounded := pointer.toNat_lt
  by_cases reached : address.toNat < directMapLimit
  · have fits : address.toNat + directMapBase < UInt32.size := by
      simp only [directMapLimit, directMapBase, directMapEnd, UInt32.size] at *
      omega
    have value : (UInt32.ofNat (address.toNat + directMapBase)).toNat =
        address.toNat + directMapBase :=
      UInt32.toNat_ofNat_of_lt' fits
    simp only [toKernel?, reached, if_true, Option.some.injEq, true_and, ← toNat_inj]
    simp only [toNat] at value ⊢
    rw [value, eq_comm]
  · simp [toKernel?, reached]

theorem toPhysical?_eq_some_iff {pointer : VirtAddr} {address : PhysAddr} :
    pointer.toPhysical? = some address ↔
      address.toNat < directMapLimit ∧ pointer.toNat = address.toNat + directMapBase := by
  have bounded := pointer.toNat_lt
  by_cases inside : directMapBase ≤ pointer.toNat ∧ pointer.toNat < directMapEnd
  · have fits : pointer.toNat - directMapBase < UInt32.size := by omega
    have value : (UInt32.ofNat (pointer.toNat - directMapBase)).toNat =
        pointer.toNat - directMapBase :=
      UInt32.toNat_ofNat_of_lt' fits
    simp only [toPhysical?, inside, and_self, if_true, Option.some.injEq, ← toNat_inj]
    simp only [toNat] at value inside ⊢
    rw [value]
    simp only [directMapLimit, directMapBase, directMapEnd] at *
    omega
  · simp only [toPhysical?, inside, if_false, false_iff, reduceCtorEq]
    simp only [directMapLimit, directMapBase, directMapEnd] at *
    omega

end Address

end PagedMemory
