import PagedMemory.Interrupts

/-!
# The lookaside cache

The processor remembers which frames it found behind recently used pages in a
small number of slots.  Nothing records which slots belong to which address
space, so making a space the running one discards all of them.  Interrupts stay
masked meanwhile: a refill that lands halfway would leave a stale slot behind.
-/

namespace PagedMemory

/-- A slot was made to match no address. -/
structure Invalidation where
  slot : Nat
  /-- Whether interrupts were masked at that moment. -/
  masked : Bool
  deriving DecidableEq

namespace LookasideCache

/-- Discard every slot, lowest first. -/
def invalidateAll (slots : Nat) (cpu : Cpu) : List Invalidation :=
  (List.range slots).map fun slot => ⟨slot, !cpu.enabled⟩

/-- Switch to another address space: discard every slot with interrupts masked. -/
def activate (slots : Nat) (cpu : Cpu) : List Invalidation × Cpu :=
  let (guard, masked) := MaskGuard.acquire cpu
  (invalidateAll slots masked, guard.release masked)

end LookasideCache

end PagedMemory
