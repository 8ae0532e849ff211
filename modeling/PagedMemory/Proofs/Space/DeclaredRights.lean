import PagedMemory.Machine.Command
import PagedMemory.Proofs.Space.LoadWindow

/-!
# Declared rights through load windows

The region list of a space is determined by the declarations behind it and by
whether the load window is open.  A region that was there when the window was
opened is writable and keeps its declared rights aside; a region that was declared
while the window was open has nothing aside, and its rights are the declared ones
throughout.

That the list is so determined is kept by every command to a space, whatever
becomes of the frames: nothing here depends on the state of RAM or of the pool.
-/

namespace PagedMemory

open Memory

/-! ## Declarations -/

/-- A declaration that a region was recorded for. -/
structure Declaration where
  start : VirtAddr
  size : UInt32
  rights : Rights
  /-- Whether a load window has been opened since. -/
  opened : Bool
  deriving DecidableEq

namespace Declaration

/-- The pages that were declared. -/
def pages (declaration : Declaration) : List Page :=
  AddressSpace.pagesOf declaration.start declaration.size

/-- The region that a declaration stands as while the load window is open, or closed. -/
def region (declaration : Declaration) (loading : Bool) : Region :=
  if loading && declaration.opened then
    ⟨declaration.start.block, declaration.pages.length, declaration.rights.set .write true,
      some declaration.rights⟩
  else
    ⟨declaration.start.block, declaration.pages.length, declaration.rights, none⟩

variable (declaration : Declaration) (loading : Bool)

theorem length_pages {declaration : Declaration}
    (valid : AddressSpace.ValidRange declaration.start declaration.size) :
    declaration.pages.length = AddressSpace.pageSpan declaration.start declaration.size := by
  rw [pages, AddressSpace.pagesOf_of_valid valid]
  exact Block.length_run (AddressSpace.pageSpan_fits valid)

theorem run_length_pages :
    (declaration.start.block : Page).run declaration.pages.length = declaration.pages := by
  by_cases valid : AddressSpace.ValidRange declaration.start declaration.size
  · rw [length_pages valid, pages, AddressSpace.pagesOf_of_valid valid]
  · rw [pages, AddressSpace.pagesOf_of_invalid valid]
    exact List.filterMap_nil

/-- A region has the pages that were declared. -/
theorem pages_region : (declaration.region loading).pages = declaration.pages := by
  have base : (declaration.region loading).base = declaration.start.block := by
    unfold region
    split <;> rfl
  have pageCount : (declaration.region loading).pageCount = declaration.pages.length := by
    unfold region
    split
    · dsimp only
    · dsimp only
  rw [Region.pages, base, pageCount, run_length_pages]

@[simp]
theorem declaredRights_region :
    (declaration.region loading).declaredRights = declaration.rights := by
  unfold region
  split <;> rfl

theorem rights_region : (declaration.region loading).rights =
    if loading && declaration.opened then declaration.rights.set .write true
    else declaration.rights := by
  unfold region
  split <;> rfl

@[simp]
theorem rights_region_false : (declaration.region false).rights = declaration.rights :=
  declaration.rights_region false

theorem region_false : declaration.region false =
    ⟨declaration.start.block, declaration.pages.length, declaration.rights, none⟩ :=
  if_neg Bool.false_ne_true

/-- Opening a window finds nothing aside, since no window was open. -/
theorem openWindow_region : (declaration.region false).openWindow =
    .ok ({ declaration with opened := true }.region true) := by
  have same : { declaration with opened := true }.pages = declaration.pages := rfl
  rw [region_false, Region.openWindow, Checked.require_of rfl, region, Bool.true_and, if_pos rfl,
    same]
  generalize declaration.pages.length = count
  rfl

theorem closeWindow_region :
    (declaration.region loading).closeWindow = declaration.region false := by
  rw [region_false, region]
  generalize declaration.pages.length = count
  split <;> rfl

end Declaration

namespace AddressSpace

/-- The regions of a space are those of some declarations, in their order. -/
def Reflects (space : AddressSpace) (declarations : List Declaration) : Prop :=
  space.regions.entries = declarations.map fun declaration => declaration.region space.loading

variable {space : AddressSpace} {declarations : List Declaration} {memory : Memory}

/-! ## Opening and closing -/

theorem openWindow_regions (declarations : List Declaration) :
    (declarations.map fun declaration => declaration.region false).mapM Region.openWindow =
      .ok ((declarations.map fun declaration => { declaration with opened := true }).map
        fun declaration => declaration.region true) := by
  induction declarations with
  | nil => rfl
  | cons declaration rest induction =>
      rw [List.map_cons, List.mapM_cons, induction, declaration.openWindow_region]
      rfl

/-- A window opens exactly if none is open, and then every declaration has seen it. -/
theorem Reflects.openWindow (reflects : space.Reflects declarations) (memory : Memory) :
    Ensures space.openWindow memory fun outcome after =>
      if space.loading then
        outcome = (.error (.invariant .loadWindowAlreadyOpen), space) ∧ after = memory
      else
        outcome.1 = .ok () ∧ outcome.2.loading = true ∧ outcome.2.Reflects
          (declarations.map fun declaration => { declaration with opened := true }) := by
  unfold AddressSpace.openWindow
  cases loading : space.loading with
  | true => exact Ensures.pure ⟨rfl, rfl⟩
  | false =>
      have mapped := openWindow_regions declarations
      rw [Reflects, loading] at reflects
      rw [← reflects] at mapped
      have widened : space.regions.openWindow = .ok { space.regions with
          entries := (declarations.map fun declaration => { declaration with opened := true }).map
            fun declaration => declaration.region true } := by
        rw [RegionList.openWindow, mapped]
        rfl
      exact Ensures.lift_then widened (Ensures.record_then (Ensures.pure ⟨rfl, rfl, rfl⟩))

/-- A window closes exactly if one is open, and then no region keeps rights aside. -/
theorem Reflects.closeWindow (reflects : space.Reflects declarations) (memory : Memory) :
    Ensures space.closeWindow memory fun outcome after =>
      if space.loading then
        outcome.1 = .ok () ∧ outcome.2.loading = false ∧ outcome.2.Reflects declarations
      else
        outcome = (.error (.invariant .loadWindowNotOpen), space) ∧ after = memory := by
  unfold AddressSpace.closeWindow
  cases loading : space.loading with
  | false => exact Ensures.pure ⟨rfl, rfl⟩
  | true =>
      refine Ensures.record_then (Ensures.pure ⟨rfl, rfl, ?_⟩)
      show space.regions.entries.map Region.closeWindow = _
      rw [reflects, List.map_map]
      apply List.map_congr_left
      intro declaration _
      exact declaration.closeWindow_region space.loading

/-! ## Declaring -/

/-- Declaring pages fails only for want of a frame. -/
theorem declarePages_yields (root : Frame) (pages : List Page) (leaked : Nat) :
    Yields (declarePages root pages leaked) fun outcome =>
      outcome.1 = .ok () ∨ ∃ refusal, outcome.1 = .error (.ofTake refusal) := by
  induction pages generalizing leaked with
  | nil => exact Yields.pure (Or.inl rfl)
  | cons page rest induction =>
      refine Yields.after_any fun covered => ?_
      cases covered with
      | error refusal => exact Yields.pure (Or.inr ⟨refusal, rfl⟩)
      | ok table => exact Yields.after_any fun leaked => induction leaked

theorem declareAll_yields (space : AddressSpace) (pages : List Page) :
    Yields (space.declareAll pages) fun outcome =>
      (outcome.1 = .ok () ∨ ∃ refusal, outcome.1 = .error (.ofTake refusal)) ∧
        outcome.2.regions = space.regions ∧ outcome.2.loading = space.loading := by
  refine (declarePages_yields space.root pages space.leakedFrames).bind ?_
  rintro ⟨outcome, leaked⟩ ended
  exact Yields.pure ⟨ended, rfl, rfl⟩

/-- Once the region is recorded, only a frame can be missing, and the region stays. -/
theorem recorded_of_roomy {start : VirtAddr} {size : UInt32} {rights : Rights} {heap : Heap}
    {roomy : RegionList} (valid : ValidRange start size)
    (reserved : space.regions.reserve? heap = some roomy) {memory after : Memory}
    {outcome : Except SpaceError Unit} {changed : AddressSpace}
    (declared : space.declare start size rights heap memory = .ok ((outcome, changed), after)) :
    (outcome = .ok () ∨ ∃ refusal, outcome = .error (.ofTake refusal)) ∧
      changed.regions.entries = space.regions.entries ++ [regionOf start size rights] ∧
      changed.loading = space.loading := by
  rw [declare_of_roomy valid reserved] at declared
  rcases declareAll_yields _ _ _ _ _ declared with ⟨ended, regions, loading⟩
  refine ⟨ended, ?_, loading⟩
  rw [← entries_of_reserve? reserved]
  exact congrArg RegionList.entries regions

/--
A region is recorded unless the range is invalid or the heap is exhausted; it
stands as declared, inside a window or outside.
-/
theorem Reflects.declare (reflects : space.Reflects declarations) (start : VirtAddr)
    (size : UInt32) (rights : Rights) (heap : Heap) :
    Yields (space.declare start size rights heap) fun outcome =>
      (outcome = (.error (.invalidRange start size), space) ∨
        outcome = (.error .outOfHeap, space)) ∨
      (outcome.1 = .ok () ∨ ∃ refusal, outcome.1 = .error (.ofTake refusal)) ∧
        outcome.2.Reflects (declarations ++ [⟨start, size, rights, false⟩]) := by
  rintro before ⟨outcome, changed⟩ after returns
  by_cases valid : ValidRange start size
  · cases reserved : space.regions.reserve? heap with
    | none =>
        rw [declare_of_full valid reserved] at returns
        cases returns
        exact Or.inl (Or.inr rfl)
    | some roomy =>
        rcases recorded_of_roomy valid reserved returns with ⟨ended, entries, loading⟩
        refine Or.inr ⟨ended, ?_⟩
        have stands : (Declaration.mk start size rights false).region space.loading =
            regionOf start size rights := by
          rw [Declaration.region, Bool.and_false, Declaration.length_pages valid]
          rfl
        rw [Reflects, entries, loading, List.map_append, reflects, ← stands]
        rfl
  · rw [declare_of_invalid valid] at returns
    cases returns
    exact Or.inl (Or.inl rfl)

theorem declareStack_yields (space : AddressSpace) :
    Yields space.declareStack fun outcome =>
      outcome.2.regions = space.regions ∧ outcome.2.loading = space.loading := by
  refine (declareAll_yields space stackRun).bind ?_
  rintro ⟨outcome, changed⟩ ⟨-, kept⟩
  cases outcome with
  | error refusal => exact Yields.pure kept
  | ok _ => exact Yields.after_any fun _ => Yields.pure kept

end AddressSpace

end PagedMemory
