import PagedMemory.Space.Declare
import PagedMemory.Proofs.Address.Run

/-!
# Legal pages

Whether an access is legal is decided by comparing addresses: with the bounds of
each region, and with the bounds of the user stack.  Both ranges consist of whole
pages, so the decision is the same for all addresses of a page, up to the top of the
address space.
-/

namespace PagedMemory

/-- A region contains the addresses of its pages. -/
theorem Region.contains_iff {region : Region} {address : VirtAddr} :
    region.contains address = true ↔ (address.block : Page) ∈ region.pages := by
  rw [pages, Block.mem_run, contains, Bool.and_eq_true, decide_eq_true_eq, decide_eq_true_eq,
    Block.toNat_base, Address.number_block]
  simp only [pageSize]
  omega

namespace AddressSpace

/-- The user stack contains the addresses of its pages. -/
theorem inStack_iff {address : VirtAddr} :
    inStack address = true ↔ (address.block : Page) ∈ stackRun := by
  have bottom : (Address.block ⟨UInt32.ofNat stackBottom⟩ : Page).number = stackBottom / pageSize :=
    rfl
  rw [stackRun, Block.mem_run, bottom, inStack, Bool.and_eq_true, decide_eq_true_eq,
    decide_eq_true_eq, Address.number_block]
  simp only [stackBottom, stackTop, stackPages, directMapBase, pageSize]
  omega

/-- The pages of the regions of a space. -/
def recorded (space : AddressSpace) : List Page :=
  space.regions.entries.flatMap Region.pages

/-- A page that belongs to a region or to the user stack. -/
def Legal (space : AddressSpace) (page : Page) : Prop :=
  page ∈ space.recorded ∨ page ∈ stackRun

variable {space changed : AddressSpace} {address : VirtAddr} {page : Page}

theorem mem_recorded :
    page ∈ space.recorded ↔ ∃ region ∈ space.regions.entries, page ∈ region.pages :=
  List.mem_flatMap

theorem Legal.mono (legal : space.Legal page) (grown : space.recorded ⊆ changed.recorded) :
    changed.Legal page :=
  legal.imp_left fun member => grown member

theorem find?_regions_eq_none_iff :
    space.regions.find? address = none ↔ (address.block : Page) ∉ space.recorded := by
  rw [RegionList.find?, List.find?_eq_none, mem_recorded, not_exists]
  simp only [Region.contains_iff, not_and]

/-- An access is legal exactly if its page is. -/
theorem isSome_rightsAt?_iff :
    (space.rightsAt? address).isSome = true ↔ space.Legal address.block := by
  rw [Legal, ← inStack_iff, rightsAt?]
  cases found : space.regions.find? address with
  | none =>
      have outside := find?_regions_eq_none_iff.mp found
      cases inStack address <;> simp [outside]
  | some region =>
      have inside : (address.block : Page) ∈ space.recorded := by
        by_contra outside
        cases (find?_regions_eq_none_iff.mpr outside).symm.trans found
      simp [inside]

end AddressSpace

end PagedMemory
