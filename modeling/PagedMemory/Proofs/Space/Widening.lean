import PagedMemory.Proofs.Space.Building
import PagedMemory.Proofs.Space.DeclaredRights

/-!
# Declaring widens a range exactly

Three descriptions of a range meet when it is declared: the check of its two ends,
the pages that tables are built for, and the addresses that the new region contains.
They describe the same pages, for every start and every size.

A refused declaration leaves everything as it was.  One that is not refused records
one region before it builds any table, so the region is there whatever becomes of the
tables.
-/

namespace PagedMemory

open Memory

/-- A region has exactly the pages that a range of addresses touches. -/
structure Region.Spans (region : Region) (start : VirtAddr) (size : UInt32) : Prop where
  base : region.base.base.toNat = start.toNat / pageSize * pageSize
  pageCount : region.pageCount =
    (size.toNat + start.toNat % pageSize + (pageSize - 1)) / pageSize
  pos : 1 ≤ region.pageCount
  /-- The pages follow one another, and none is missing at the end. -/
  pages : region.pages.map Block.number =
    List.range' (start.toNat / pageSize) region.pageCount
  member : ∀ address, region.contains address = true ↔ (address.block : Page) ∈ region.pages
  between : ∀ address, region.contains address = true ↔
    start.toNat / pageSize * pageSize ≤ address.toNat ∧
      address.toNat < (start.toNat + size.toNat + (pageSize - 1)) / pageSize * pageSize

namespace AddressSpace

variable {space : AddressSpace} {start : VirtAddr} {size : UInt32}

theorem spans_regionOf (valid : ValidRange start size) (rights : Rights) :
    (regionOf start size rights).Spans start size where
  base := by
    rw [regionOf, Block.toNat_base, Address.number_block]
  pageCount := rfl
  pos := pageSpan_pos valid
  pages := Block.map_number_run (pageSpan_fits valid)
  member _ := Region.contains_iff
  between _ := Region.contains_iff.trans mem_run_span_iff

/--
A range is refused exactly if it is empty or runs past the top of the address space,
and then, or if the list of regions cannot grow, nothing at all has changed.  No sum
on the way leaves its word.  Otherwise one region is added at the end of the list,
and it has the pages that the range touches: its page count, its list of pages and the
addresses that it contains agree, up to the topmost page.
-/
theorem declare_widens_to_whole_pages (space : AddressSpace) (start : VirtAddr) (size : UInt32)
    (rights : Rights) (heap : Heap) (memory : Memory) :
    let refused := size = 0 ∨ 2 ^ 32 < start.toNat + size.toNat
    let full := heap = .exhausted ∧ space.regions.capacity ≤ space.regions.length
    let declared := space.declare start size rights heap memory
    ((∃ changed after, declared = .ok ((.error (.invalidRange start size), changed), after)) ↔
        refused) ∧
      ((∃ changed after, declared = .ok ((.error .outOfHeap, changed), after)) ↔
        ¬ refused ∧ full) ∧
      (refused ∨ full → ∃ refusal, declared = .ok ((.error refusal, space), memory)) ∧
      (∃ count, pagesFor (size.toUInt64 + UInt64.ofNat start.offset) = .ok count ∧
        (size.toUInt64 + UInt64.ofNat start.offset).toNat = size.toNat + start.offset ∧
        count.toNat < 2 ^ 32 ∧
        (start.block : Page).base.toNat + count.toNat * pageSize < 2 ^ 64) ∧
      (¬ refused → ¬ full → ∃ region : Region,
        region.Spans start size ∧ region.rights = rights ∧ region.saved = none ∧
        (∀ outcome changed after, declared = .ok ((outcome, changed), after) →
          changed.regions.entries = space.regions.entries ++ [region]) ∧
        (memory.Owns (memory.ram.bones space.root) → memory.ram.Skeleton space.root →
          ∃ outcome changed after, declared = .ok ((outcome, changed), after))) := by
  intro refused full declared
  have decided : refused ↔ ¬ ValidRange start size := by
    show size = 0 ∨ UInt32.size < start.toNat + size.toNat ↔ ¬ ValidRange start size
    rw [ValidRange, not_and_or, ne_eq, not_not, Nat.not_le]
  have fits : ∃ count, pagesFor (size.toUInt64 + UInt64.ofNat start.offset) = .ok count ∧
      (size.toUInt64 + UInt64.ofNat start.offset).toNat = size.toNat + start.offset ∧
      count.toNat < 2 ^ 32 ∧
      (start.block : Page).base.toNat + count.toNat * pageSize < 2 ^ 64 := by
    rcases pagesFor_span start size with ⟨count, counted, -, small, below⟩
    exact ⟨count, counted, toNat_span start size, small, below⟩
  by_cases invalid : refused
  · have answer : declared = .ok ((.error (.invalidRange start size), space), memory) :=
      declare_of_invalid (decided.mp invalid) memory
    rw [answer]
    refine ⟨?_, ?_, ?_, fits, fun valid => absurd invalid valid⟩
    · simp [invalid]
    · simp [invalid]
    · exact fun _ => ⟨_, rfl⟩
  · have valid : ValidRange start size := not_not.mp fun unfit => invalid (decided.mpr unfit)
    cases reserved : space.regions.reserve? heap with
    | none =>
        have crowded : full := reserve?_eq_none_iff.mp reserved
        have answer : declared = .ok ((.error .outOfHeap, space), memory) :=
          declare_of_full valid reserved memory
        rw [answer]
        refine ⟨?_, ?_, ?_, fits, fun _ room => absurd crowded room⟩
        · simp [invalid]
        · simp [invalid, crowded]
        · exact fun _ => ⟨_, rfl⟩
    | some roomy =>
        have room : ¬ full := by
          intro crowded
          cases reserved.symm.trans (reserve?_eq_none_iff.mpr crowded)
        refine ⟨?_, ?_, ?_, fits, fun _ _ => ⟨regionOf start size rights,
          spans_regionOf valid rights, rfl, rfl, ?_, ?_⟩⟩
        · simp only [invalid, iff_false, not_exists]
          intro changed after returns
          rcases (recorded_of_roomy valid reserved returns).1 with impossible | ⟨_ | _, impossible⟩
          all_goals cases impossible
        · simp only [room, and_false, iff_false, not_exists]
          intro changed after returns
          rcases (recorded_of_roomy valid reserved returns).1 with impossible | ⟨_ | _, impossible⟩
          all_goals cases impossible
        · intro either
          exact (either.elim invalid room).elim
        · intro outcome changed after returns
          exact (recorded_of_roomy valid reserved returns).2.1
        · intro owns skeleton
          rcases declare_declares owns skeleton start size rights heap with
            ⟨⟨outcome, changed⟩, after, returns, -⟩
          exact ⟨outcome, changed, after, returns⟩

end AddressSpace

end PagedMemory
