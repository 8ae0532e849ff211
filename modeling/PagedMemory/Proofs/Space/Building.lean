import PagedMemory.Space.LoadWindow
import PagedMemory.Proofs.Space.Declare
import PagedMemory.Proofs.Space.Directory
import PagedMemory.Proofs.Space.Legal

/-!
# Declarations build tables

Declaring pages builds a table for every directory slot that covers one of them, up
to the first for which there is no frame.  Tables are built for the pages of a region
only after the region has been recorded, so there is no table without a declaration
that it was built for.
-/

namespace PagedMemory.AddressSpace

open Memory

variable {memory : Memory} {root : Frame}

/-- The table of a page is there, or it is built, or there is no frame for it. -/
theorem tableFor_builds (owns : memory.Owns (memory.ram.bones root))
    (skeleton : memory.ram.Skeleton root) (page : Page) :
    Ensures (tableFor root page) memory fun result after =>
      Builds memory root [page.directoryIndex] after ∧
        ∀ table, result = .ok table → after.ram.slot root page.directoryIndex = some table := by
  have start : Builds memory root [] memory := .refl skeleton
  refine (directorySlot_ensures skeleton.heldRoot page.directoryIndex_lt).bind ?_
  rintro slot memory ⟨rfl, rfl⟩
  cases named : memory.ram.slot root page.directoryIndex with
  | some table =>
      refine Ensures.pure ⟨start.of_subset (List.nil_subset _), ?_⟩
      rintro _ same
      cases same
      exact named
  | none =>
      refine (takeZeroed_ensures owns).bind ?_
      intro result between obtains
      cases result with
      | error refusal =>
          have refused : Builds memory root [] between :=
            .of_refused owns.sound skeleton obtains
          exact Ensures.pure ⟨refused.of_subset (List.nil_subset _), nofun⟩
      | ok table =>
          have held : between.ram.holds root = true := by
            rw [obtains.exchange.extent]
            exact skeleton.heldRoot
          refine (setDirectorySlot_ensures held page.directoryIndex_lt (.table table)).bind ?_
          intro _ after writes
          rcases Builds.of_obtains owns skeleton page.directoryIndex_lt named obtains writes with
            ⟨builds, filled⟩
          apply Ensures.record_then
          refine Ensures.pure ⟨builds.record _, ?_⟩
          rintro _ same
          cases same
          exact filled

theorem clearPage_builds (owns : memory.Owns (memory.ram.bones root))
    (skeleton : memory.ram.Skeleton root) {table : Frame} {page : Page}
    (named : memory.ram.slot root page.directoryIndex = some table) (leaked : Nat) :
    Ensures (clearPage table page leaked) memory
      fun _ after => Builds memory root [] after := by
  have held := skeleton.held _ table named
  have start : Builds memory root [] memory := .refl skeleton
  refine (pageSlot_ensures held page.tableIndex_lt (skeleton.clean _ table named)).bind ?_
  rintro slot memory ⟨rfl, rfl⟩
  cases memory.ram.slot table page.tableIndex with
  | none => exact Ensures.pure start
  | some frame =>
      refine (setPageSlot_ensures held page.tableIndex_lt .unmapped).bind ?_
      intro _ after writes
      apply Ensures.record_then
      exact Ensures.pure ((Builds.of_pageSlot owns skeleton named _ writes).record _)

theorem declarePages_builds (owns : memory.Owns (memory.ram.bones root))
    (skeleton : memory.ram.Skeleton root) (pages : List Page) (leaked : Nat) :
    Ensures (declarePages root pages leaked) memory fun outcome after =>
      Builds memory root (pages.map Page.directoryIndex) after ∧
        (outcome.1 = .ok () → ∀ page ∈ pages, after.ram.covers root page = true) := by
  induction pages generalizing memory leaked with
  | nil => exact Ensures.pure ⟨.refl skeleton, nofun⟩
  | cons page pages induction =>
      refine (tableFor_builds owns skeleton page).bind ?_
      rintro result between ⟨built, named⟩
      cases result with
      | error refusal =>
          refine Ensures.pure ⟨built.of_subset ?_, nofun⟩
          exact List.cons_subset_cons _ (List.nil_subset _)
      | ok table =>
          have ownsBetween := built.handsOn.owns owns
          refine (clearPage_builds ownsBetween built.skeleton (named table rfl) leaked).bind ?_
          intro count later cleared
          refine (induction (cleared.handsOn.owns ownsBetween) cleared.skeleton count).imp ?_
          rintro outcome after ⟨declared, covered⟩
          refine ⟨(built.trans cleared).trans declared, ?_⟩
          intro success other member
          rcases List.mem_cons.mp member with rfl | later
          · apply (cleared.trans declared).covers
            exact Option.isSome_iff_exists.mpr ⟨table, named table rfl⟩
          · exact covered success other later

/-- A frame is put behind a page without a look at directories. -/
theorem attach_builds {space : AddressSpace} (owns : memory.Owns (memory.ram.bones space.root))
    (skeleton : memory.ram.Skeleton space.root) (address : VirtAddr) (frame : Frame) :
    Ensures (space.attach address frame) memory
      fun _ after => Builds memory space.root [] after := by
  refine (attach_attempts_of_skeleton skeleton address frame).imp ?_
  intro outcome after attempts
  cases attempts with
  | undeclared absent => exact .refl skeleton
  | alreadyBacked named backed => exact .refl skeleton
  | written named unmapped writes => exact .of_pageSlot owns skeleton named _ writes

/-! ## Spaces -/

/--
A space has been changed by an operation that may have recorded some more pages, and
for which tables have been built for some pages.
-/
structure Declares (before : Memory) (space changed : AddressSpace) (added built : List Page)
    (after : Memory) : Prop where
  root : changed.root = space.root
  recorded : changed.recorded = space.recorded ++ added
  builds : Builds before space.root (built.map Page.directoryIndex) after

variable {space : AddressSpace}

theorem Declares.refl (skeleton : memory.ram.Skeleton space.root) :
    Declares memory space space [] [] memory :=
  ⟨rfl, (List.append_nil _).symm, .refl skeleton⟩

theorem declareAll_declares (owns : memory.Owns (memory.ram.bones space.root))
    (skeleton : memory.ram.Skeleton space.root) (pages : List Page) :
    Ensures (space.declareAll pages) memory fun outcome after =>
      Declares memory space outcome.2 [] pages after ∧
        (outcome.1 = .ok () → ∀ page ∈ pages, after.ram.covers space.root page = true) := by
  refine (declarePages_builds owns skeleton pages space.leakedFrames).bind ?_
  rintro ⟨outcome, leaked⟩ after ⟨builds, covered⟩
  exact Ensures.pure ⟨⟨rfl, (List.append_nil _).symm, builds⟩, covered⟩

/-- A region is recorded first, and tables are built for its pages only. -/
theorem declare_declares (owns : memory.Owns (memory.ram.bones space.root))
    (skeleton : memory.ram.Skeleton space.root) (start : VirtAddr) (size : UInt32)
    (rights : Rights) (heap : Heap) :
    Ensures (space.declare start size rights heap) memory fun outcome after =>
      ∃ added, added ⊆ pagesOf start size ∧ Declares memory space outcome.2 added added after ∧
        (outcome.1 = .ok () → ∀ page ∈ pagesOf start size,
          after.ram.covers space.root page = true) := by
  have unchanged (refusal : SpaceError) :
      ∃ added, added ⊆ pagesOf start size ∧ Declares memory space space added added memory ∧
        (Except.error refusal = (.ok () : Except SpaceError Unit) → ∀ page ∈ pagesOf start size,
          memory.ram.covers space.root page = true) :=
    ⟨[], List.nil_subset _, .refl skeleton, nofun⟩
  by_cases valid : ValidRange start size
  · cases reserved : space.regions.reserve? heap with
    | none => exact Ensures.of_eq (declare_of_full valid reserved memory) (unchanged _)
    | some roomy =>
        let region := regionOf start size rights
        let grown : AddressSpace := { space with regions := roomy.push region }
        have recorded : grown.recorded = space.recorded ++ region.pages := by
          change (roomy.entries ++ [region]).flatMap Region.pages = _
          rw [entries_of_reserve? reserved, List.flatMap_append, List.flatMap_singleton]
          rfl
        have noted : Builds memory grown.root [] { memory with
            log := .regionDeclared region :: memory.log } :=
          (Builds.refl skeleton).record _
        rw [Ensures, declare_of_roomy valid reserved]
        refine Ensures.imp (@declareAll_declares _ grown (noted.handsOn.owns owns)
          noted.skeleton region.pages) ?_
        rintro outcome after ⟨declares, covered⟩
        rw [pagesOf_of_valid valid]
        refine ⟨region.pages, List.Subset.refl _, ⟨declares.root, ?_, ?_⟩, covered⟩
        · rw [declares.recorded, List.append_nil, recorded]
        · exact noted.trans declares.builds
  · exact Ensures.of_eq (declare_of_invalid valid memory) (unchanged _)

theorem declareStack_declares (owns : memory.Owns (memory.ram.bones space.root))
    (skeleton : memory.ram.Skeleton space.root) :
    Ensures space.declareStack memory fun outcome after =>
      Declares memory space outcome.2 [] stackRun after ∧
        ((∃ pointer, outcome.1 = .ok pointer) → ∀ page ∈ stackRun,
          after.ram.covers space.root page = true) := by
  refine (declareAll_declares owns skeleton stackRun).bind ?_
  rintro ⟨outcome, changed⟩ between ⟨declares, covered⟩
  cases outcome with
  | error refusal => exact Ensures.pure ⟨declares, nofun⟩
  | ok _ =>
      apply Ensures.record_then
      refine Ensures.pure ⟨{ declares with builds := declares.builds.record _ }, ?_⟩
      exact fun _ => covered rfl

/-! ## Windows -/

theorem pages_of_openWindow {entries opened : List Region}
    (mapped : entries.mapM Region.openWindow = .ok opened) :
    opened.flatMap Region.pages = entries.flatMap Region.pages := by
  induction entries generalizing opened with
  | nil =>
      cases mapped
      rfl
  | cons region rest induction =>
      rw [List.mapM_cons] at mapped
      rcases Checked.bind_eq_ok.mp mapped with ⟨first, one, others⟩
      rcases Checked.bind_eq_ok.mp others with ⟨later, many, same⟩
      rcases Checked.bind_eq_ok.mp one with ⟨_, -, widened⟩
      cases same
      cases widened
      rw [List.flatMap_cons, List.flatMap_cons, induction many]
      rfl

theorem pages_closeWindow (region : Region) : region.closeWindow.pages = region.pages := by
  unfold Region.closeWindow
  split <;> rfl

/-- Windows change rights only. -/
theorem openWindow_declares (skeleton : memory.ram.Skeleton space.root) :
    Leaves space.openWindow memory fun outcome after =>
      Declares memory space outcome.2 [] [] after := by
  unfold openWindow
  split
  · exact Leaves.pure (.refl skeleton)
  · apply Leaves.lift_then
    intro regions widened
    rcases Checked.bind_eq_ok.mp widened with ⟨opened, mapped, same⟩
    cases same
    apply Leaves.record_then
    refine Leaves.pure ⟨rfl, ?_, (Builds.refl skeleton).record _⟩
    rw [List.append_nil]
    exact pages_of_openWindow mapped

theorem closeWindow_declares (skeleton : memory.ram.Skeleton space.root) :
    Leaves space.closeWindow memory fun outcome after =>
      Declares memory space outcome.2 [] [] after := by
  unfold closeWindow
  split
  · apply Leaves.record_then
    refine Leaves.pure ⟨rfl, ?_, (Builds.refl skeleton).record _⟩
    rw [List.append_nil]
    change (space.regions.entries.map Region.closeWindow).flatMap Region.pages = _
    rw [List.flatMap_map]
    exact List.flatMap_congr fun region _ => pages_closeWindow region
  · exact Leaves.pure (.refl skeleton)

end PagedMemory.AddressSpace
