import PagedMemory.Proofs.Space.Furnishing
import PagedMemory.Proofs.Space.Range

/-!
# Declaring pages reshapes a tree

Building a table and clearing a page reshape the tree of a space, so declaring
any number of pages does, whether or not it gets to the end.  It ends early at
the first page without a table, and only if there is no frame for one.  The
count that a space keeps of its leaked frames grows by exactly the frames that
were lost, and the frames that were taken are those of the tables that were missing.
-/

namespace PagedMemory.AddressSpace

open Memory

variable {memory : Memory} {root : Frame} {rest : List Frame}

/-- The table that covers a page, unless there was no frame for it. -/
inductive Covers (before : Memory) (root : Frame) (page : Page) :
    Except TakeError Frame → Memory → Prop where
  | covered {table : Frame} {after : Memory}
      (named : after.ram.slot root page.directoryIndex = some table)
      (furnishes : Furnishes before root [page] after) : Covers before root page (.ok table) after
  | refused {after : Memory} (absent : after.ram.slot root page.directoryIndex = none)
      (spent : after.grants = 0) (furnishes : Furnishes before root [] after) :
      Covers before root page (.error .exhausted) after

/-- The table for a page is there, or it is built, or there is no frame for it. -/
theorem tableFor_ensures (owns : memory.Owns (memory.ram.reach root ++ rest))
    (tree : memory.ram.Tree root) (page : Page) :
    Ensures (tableFor root page) memory fun result after =>
      Reshapes memory root [] [] after ∧ Covers memory root page result after := by
  refine (directorySlot_ensures tree.held_root page.directoryIndex_lt).bind ?_
  rintro slot memory ⟨rfl, rfl⟩
  cases named : memory.ram.slot root page.directoryIndex with
  | some table =>
      have there : memory.ram.covers root page = true :=
        Option.isSome_iff_exists.mpr ⟨table, named⟩
      have furnishes : Furnishes memory root [page] memory :=
        .of_same (fun _ => rfl) rfl rfl (List.forall_mem_singleton.mpr there)
      exact Ensures.pure ⟨.refl owns.sound tree, .covered named furnishes⟩
  | none =>
      refine (takeZeroed_ensures owns).bind ?_
      intro result between obtains
      cases obtains with
      | refused pool ram log none spent =>
          have absent : between.ram.slot root page.directoryIndex = Option.none := by
            rw [ram, named]
          have furnishes : Furnishes memory root [] between :=
            .of_same (by rw [ram]; exact fun _ => rfl) (by rw [pool]) (spent.trans none.symm) nofun
          exact Ensures.pure
            ⟨.of_same owns.sound tree pool ram log, .refused absent spent furnishes⟩
      | @granted table _ pool replaced log grants =>
          have obtains : Obtains memory .zero (.ok table) between :=
            .granted pool replaced log grants
          have kept := obtains.exchange.tree owns tree
            fun frame member => List.mem_append_left rest member
          refine (setDirectorySlot_ensures kept.1.held_root page.directoryIndex_lt
            (.table table)).bind ?_
          intro _ after writes
          have adds := addsTable_of_obtains owns tree page.directoryIndex_lt named
            obtains writes
          apply Ensures.record_then
          exact Ensures.pure ⟨(adds.reshapes owns tree named).record rfl,
            .covered adds.named ((Furnishes.of_adds adds named).record _)⟩

/-- A backed page loses its data frame, and the log says which. -/
theorem clearPage_ensures (owns : memory.Owns (memory.ram.reach root ++ rest))
    (tree : memory.ram.Tree root) {table : Frame} {page : Page}
    (named : memory.ram.slot root page.directoryIndex = some table) (leaked : Nat) :
    Ensures (clearPage table page leaked) memory fun count after =>
      ∃ lost, Reshapes memory root [page] lost after ∧ Furnishes memory root [] after ∧
        count = leaked + lost.length := by
  have held := tree.held_table named
  refine (pageSlot_ensures held page.tableIndex_lt (tree.clean _ table named)).bind ?_
  rintro slot memory ⟨rfl, rfl⟩
  cases backed : memory.ram.slot table page.tableIndex with
  | none =>
      have same := Reshapes.refl owns.sound tree
      exact Ensures.pure
        ⟨[], { same with declares := .of_unmapped named backed }, .refl memory root, rfl⟩
  | some frame =>
      refine (setPageSlot_ensures held page.tableIndex_lt .unmapped).bind ?_
      intro _ after writes
      have shrunk := tree.clearPage named page.tableIndex_lt backed writes.replaced
      have member : table ∈ memory.pool.available ++ memory.ram.reach root :=
        List.mem_append_right _ (Ram.table_mem_reach named)
      have written := Exchange.of_writes owns.sound writes member
      have furnishes : Furnishes memory root [] after :=
        .of_same (tree.behind_of_put named writes.replaced).1 (by rw [writes.pool])
          (by simp only [grants, writes.pool, writes.allowance]) nofun
      apply Ensures.record_then
      refine Ensures.pure ⟨[frame], ⟨?_, shrunk.1, ?_, ?_, ?_⟩, furnishes.record _, rfl⟩
      · exact (written.of_perm_left shrunk.2).record _
      · exact .of_put tree named backed writes.replaced
      · rw [Memory.lostFrames, writes.log]
        rfl
      · exact congrArg FramePool.leakedFrees writes.pool

/-- Which pages have been declared: all of them, or those before the first without a table. -/
inductive Progress (after : Memory) (root : Frame) (pages : List Page) :
    Except SpaceError Unit → List Page → Prop where
  | finished : Progress after root pages (.ok ()) pages
  | stopped (spent : after.grants = 0)
      (short : ∃ page ∈ pages, after.ram.covers root page = false) :
      Progress after root pages (.error .outOfFrames) (pages.takeWhile (after.ram.covers root))

theorem Progress.cons {after : Memory} {page : Page} {pages done : List Page}
    {outcome : Except SpaceError Unit} (progress : Progress after root pages outcome done)
    (covered : after.ram.covers root page = true) :
    Progress after root (page :: pages) outcome (page :: done) := by
  cases progress with
  | finished => exact .finished
  | stopped spent short =>
      rcases short with ⟨other, member, uncovered⟩
      rw [← List.takeWhile_cons_of_pos covered]
      exact .stopped spent ⟨other, List.mem_cons_of_mem page member, uncovered⟩

/-- However far declaring pages gets, the tree is reshaped and the losses counted. -/
theorem declarePages_ensures (owns : memory.Owns (memory.ram.reach root ++ rest))
    (tree : memory.ram.Tree root) (pages : List Page) (leaked : Nat) :
    Ensures (declarePages root pages leaked) memory fun outcome after =>
      ∃ done lost, Reshapes memory root done lost after ∧ Furnishes memory root done after ∧
        Progress after root pages outcome.1 done ∧ outcome.2 = leaked + lost.length := by
  induction pages generalizing memory rest leaked with
  | nil =>
      exact Ensures.pure ⟨[], [], .refl owns.sound tree, .refl memory root, .finished, rfl⟩
  | cons page pages induction =>
      refine (tableFor_ensures owns tree page).bind ?_
      rintro result between ⟨built, covers⟩
      cases covers with
      | refused absent spent furnished =>
          have uncovered : between.ram.covers root page = false := by
            rw [Ram.covers, absent]
            rfl
          have progress : Progress between root (page :: pages) (.error .outOfFrames)
              ((page :: pages).takeWhile (between.ram.covers root)) :=
            .stopped spent ⟨page, List.mem_cons_self, uncovered⟩
          rw [List.takeWhile_cons_of_neg (ne_true_of_eq_false uncovered)] at progress
          exact Ensures.pure ⟨[], [], built, furnished, progress, rfl⟩
      | covered named furnished =>
          have ownsBetween := built.owns owns
          refine (clearPage_ensures ownsBetween built.tree named leaked).bind ?_
          rintro count later ⟨lost, cleared, unchanged, rfl⟩
          refine (induction (cleared.owns ownsBetween) cleared.tree _).imp ?_
          rintro outcome after ⟨done, others, declared, furnishes, progress, counted⟩
          have covered := declared.declares.covers
            (cleared.declares.covered page List.mem_cons_self)
          refine ⟨page :: done, others ++ (lost ++ []), (built.trans cleared).trans declared,
            (furnished.trans unchanged).trans furnishes, progress.cons covered, ?_⟩
          rw [counted, List.length_append, List.append_nil]
          omega

/-! ## Regions -/

/-- While the load window is closed, no region keeps rights aside. -/
def Settled (space : AddressSpace) : Prop :=
  space.loading = false → ∀ region ∈ space.regions.entries, region.saved = none

/-- A space has been changed by one of its own operations, which declared some pages. -/
structure Changes (before : Memory) (space changed : AddressSpace) (pages : List Page)
    (lost : List Frame) (after : Memory) : Prop where
  reshapes : Reshapes before space.root pages lost after
  root : changed.root = space.root
  released : changed.released = space.released
  leakedFrames : changed.leakedFrames = space.leakedFrames + lost.length
  settled : space.Settled → changed.Settled

theorem Changes.refl {memory : Memory} (sound : memory.pool.Sound) {space : AddressSpace}
    (tree : memory.ram.Tree space.root) : Changes memory space space [] [] memory :=
  ⟨.refl sound tree, rfl, rfl, rfl, id⟩

theorem Changes.record {before after : Memory} {space changed : AddressSpace} {pages : List Page}
    {lost : List Frame} (changes : Changes before space changed pages lost after) {event : Event}
    (quiet : event.lostFrame? = none) :
    Changes before space changed pages lost { after with log := event :: after.log } :=
  { changes with reshapes := changes.reshapes.record quiet }

/--
The pages that have been declared, by the outcome: all of them, or those before
the first that no table covers, or none if it did not come to declaring pages.
-/
def processed {α : Type} (pages : List Page) (covered : Page → Bool) :
    Except SpaceError α → List Page
  | .ok _ => pages
  | .error .outOfFrames => pages.takeWhile covered
  | .error _ => []

/-- What a failure would have answered does not matter. -/
theorem processed_error {α β : Type} (pages : List Page) (covered : Page → Bool)
    (refusal : SpaceError) :
    processed (α := α) pages covered (.error refusal) =
      processed (α := β) pages covered (.error refusal) := by
  cases refusal <;> rfl

theorem Progress.eq_processed {after : Memory} {pages done : List Page}
    {outcome : Except SpaceError Unit} (progress : Progress after root pages outcome done) :
    done = processed pages (after.ram.covers root) outcome := by
  cases progress <;> rfl

/-- Pages of a space have been declared, as far as there were frames for their tables. -/
structure Course (before : Memory) (space : AddressSpace) (pages done : List Page)
    (lost : List Frame) (outcome : Except SpaceError Unit) (changed : AddressSpace)
    (after : Memory) : Prop where
  reshapes : Reshapes before space.root done lost after
  furnishes : Furnishes before space.root done after
  progress : Progress after space.root pages outcome done
  root : changed.root = space.root
  leakedFrames : changed.leakedFrames = space.leakedFrames + lost.length

theorem declareAll_course (space : AddressSpace)
    (owns : memory.Owns (memory.ram.reach space.root ++ rest))
    (tree : memory.ram.Tree space.root) (pages : List Page) :
    Ensures (space.declareAll pages) memory fun outcome after =>
      ∃ done lost, Course memory space pages done lost outcome.1 outcome.2 after ∧
        outcome.2 = { space with leakedFrames := space.leakedFrames + lost.length } := by
  refine (declarePages_ensures owns tree pages space.leakedFrames).bind ?_
  rintro ⟨outcome, leaked⟩ after ⟨done, lost, reshapes, furnishes, progress, counted⟩
  cases counted
  exact Ensures.pure ⟨done, lost, ⟨reshapes, furnishes, progress, rfl, rfl⟩, rfl⟩

theorem declareAll_ensures (space : AddressSpace)
    (owns : memory.Owns (memory.ram.reach space.root ++ rest))
    (tree : memory.ram.Tree space.root) (pages : List Page) :
    Ensures (space.declareAll pages) memory fun outcome after =>
      ∃ lost, Changes memory space outcome.2
        (processed pages (after.ram.covers space.root) outcome.1) lost after := by
  refine (declareAll_course space owns tree pages).imp ?_
  rintro ⟨outcome, changed⟩ after ⟨done, lost, course, rfl⟩
  rw [← course.progress.eq_processed]
  exact ⟨lost, course.reshapes, rfl, rfl, rfl, id⟩

/-! ## Ranges -/

/-- The pages of a range of addresses; an invalid range has none. -/
def pagesOf (start : VirtAddr) (size : UInt32) : List Page :=
  match pageRange? start size with
  | .ok (some (base, count)) => base.run count
  | .ok none | .error _ => []

variable {start : VirtAddr} {size : UInt32} {rights : Rights} {heap : Heap} {roomy : RegionList}
  {space : AddressSpace}

theorem pagesOf_of_valid (valid : ValidRange start size) :
    pagesOf start size = (start.block : Page).run (pageSpan start size) := by
  have ranged : pageRange? start size = .ok (some (start.block, pageSpan start size)) := by
    rw [pageRange?_eq, if_pos valid]
  unfold pagesOf
  rw [ranged]

theorem pagesOf_of_invalid (invalid : ¬ ValidRange start size) : pagesOf start size = [] := by
  have ranged : pageRange? start size = .ok none := by
    rw [pageRange?_eq, if_neg invalid]
  unfold pagesOf
  rw [ranged]

/-- Widening a range to whole pages never overflows, and leaves at least one. -/
theorem pageRange?_total (start : VirtAddr) (size : UInt32) :
    ∃ range, pageRange? start size = .ok range ∧
      ∀ base count, range = some (base, count) → 0 < count := by
  refine ⟨_, pageRange?_eq start size, ?_⟩
  intro base count same
  split at same
  next valid =>
    cases same
    exact pageSpan_pos valid
  · cases same

/-! ## Room in the region list -/

/-- Making room changes no region. -/
theorem entries_of_reserve? {list : RegionList} (reserved : list.reserve? heap = some roomy) :
    roomy.entries = list.entries := by
  unfold RegionList.reserve? at reserved
  split at reserved
  · cases reserved
    rfl
  · cases heap with
    | available =>
        cases reserved
        rfl
    | exhausted => cases reserved

/-- A full list cannot grow while the heap is exhausted. -/
theorem reserve?_eq_none_iff {list : RegionList} :
    list.reserve? heap = none ↔ heap = .exhausted ∧ list.capacity ≤ list.length := by
  unfold RegionList.reserve?
  by_cases room : list.length < list.capacity
  · simp [room]
  · cases heap <;> simp [room, Nat.le_of_not_lt room]

/-! ## The course of a declaration -/

/-- The region that is recorded for a range. -/
def regionOf (start : VirtAddr) (size : UInt32) (rights : Rights) : Region :=
  ⟨start.block, pageSpan start size, rights, none⟩

theorem declare_of_invalid (invalid : ¬ ValidRange start size) (memory : Memory) :
    space.declare start size rights heap memory =
      .ok ((.error (.invalidRange start size), space), memory) := by
  rw [declare, bind_of_passes (pageRange?_eq start size), if_neg invalid]
  rfl

theorem declare_of_full (valid : ValidRange start size)
    (full : space.regions.reserve? heap = none) (memory : Memory) :
    space.declare start size rights heap memory = .ok ((.error .outOfHeap, space), memory) := by
  rw [declare, bind_of_passes (pageRange?_eq start size), if_pos valid]
  dsimp only
  rw [full]
  rfl

/-- The region is recorded first, and then its pages are declared. -/
theorem declare_of_roomy (valid : ValidRange start size)
    (reserved : space.regions.reserve? heap = some roomy) (memory : Memory) :
    space.declare start size rights heap memory =
      AddressSpace.declareAll
        { space with regions := roomy.push (regionOf start size rights) }
        (regionOf start size rights).pages
        { memory with log := .regionDeclared (regionOf start size rights) :: memory.log } := by
  have made : Region.new start.block (pageSpan start size) rights =
      .ok (regionOf start size rights) := by
    rw [Region.new, Checked.require_of (pageSpan_pos valid)]
    rfl
  rw [declare, bind_of_passes (pageRange?_eq start size), if_pos valid]
  dsimp only
  rw [reserved]
  dsimp only
  rw [bind_of_passes made]
  rfl

/-- A range is declared page by page once its region has been recorded. -/
theorem declare_course (owns : memory.Owns (memory.ram.reach space.root ++ rest))
    (tree : memory.ram.Tree space.root) (valid : ValidRange start size)
    (reserved : space.regions.reserve? heap = some roomy) (rights : Rights) :
    Ensures (space.declare start size rights heap) memory fun outcome after =>
      ∃ done lost, Course memory space ((start.block : Page).run (pageSpan start size)) done lost
          outcome.1 outcome.2 after ∧
        outcome.2 = { space with
          regions := roomy.push (regionOf start size rights)
          leakedFrames := space.leakedFrames + lost.length } := by
  let region := regionOf start size rights
  have noted : Reshapes memory space.root [] [] { memory with
      log := .regionDeclared region :: memory.log } :=
    (Reshapes.refl owns.sound tree).record rfl
  have prepared : Furnishes memory space.root [] { memory with
      log := .regionDeclared region :: memory.log } :=
    (Furnishes.refl memory space.root).record _
  rw [Ensures, declare_of_roomy valid reserved]
  refine Ensures.imp (declareAll_course { space with regions := roomy.push region }
    (noted.owns owns) noted.tree _) ?_
  rintro ⟨outcome, changed⟩ after ⟨done, lost, course, rfl⟩
  have reshapes := noted.trans course.reshapes
  rw [List.append_nil] at reshapes
  exact ⟨done, lost, ⟨reshapes, prepared.trans course.furnishes, course.progress, rfl, rfl⟩, rfl⟩

/-- A recorded region keeps no rights aside. -/
theorem Settled.push (settled : space.Settled) (same : roomy.entries = space.regions.entries)
    (start : VirtAddr) (size : UInt32) (rights : Rights) :
    Settled { space with regions := roomy.push (regionOf start size rights) } := by
  intro closed region member
  have known : region ∈ roomy.entries ++ [regionOf start size rights] := member
  rw [same] at known
  rcases List.mem_append.mp known with old | new
  · exact settled closed region old
  · rw [List.mem_singleton.mp new]
    rfl

theorem declare_ensures (owns : memory.Owns (memory.ram.reach space.root ++ rest))
    (tree : memory.ram.Tree space.root) (start : VirtAddr) (size : UInt32)
    (rights : Rights) (heap : Heap) :
    Ensures (space.declare start size rights heap) memory fun outcome after =>
      ∃ lost, Changes memory space outcome.2
        (processed (pagesOf start size) (after.ram.covers space.root) outcome.1) lost after := by
  have unchanged := Changes.refl owns.sound tree
  by_cases valid : ValidRange start size
  · cases reserved : space.regions.reserve? heap with
    | none => exact Ensures.of_eq (declare_of_full valid reserved memory) ⟨[], unchanged⟩
    | some roomy =>
        refine (declare_course owns tree valid reserved rights).imp ?_
        rintro ⟨outcome, changed⟩ after ⟨done, lost, course, rfl⟩
        rw [pagesOf_of_valid valid, ← course.progress.eq_processed]
        refine ⟨lost, course.reshapes, rfl, rfl, rfl, fun settled => ?_⟩
        exact settled.push (entries_of_reserve? reserved) start size rights
  · exact Ensures.of_eq (declare_of_invalid valid memory) ⟨[], unchanged⟩

theorem declareStack_ensures (owns : memory.Owns (memory.ram.reach space.root ++ rest))
    (tree : memory.ram.Tree space.root) :
    Ensures space.declareStack memory fun outcome after =>
      ∃ lost, Changes memory space outcome.2
        (processed stackRun (after.ram.covers space.root) outcome.1) lost after := by
  refine (declareAll_ensures space owns tree stackRun).bind ?_
  rintro ⟨outcome, changed⟩ between ⟨lost, changes⟩
  cases outcome with
  | error refusal =>
      rw [processed_error (β := VirtAddr)] at changes
      exact Ensures.pure ⟨lost, changes⟩
  | ok _ =>
      apply Ensures.record_then
      exact Ensures.pure ⟨lost, changes.record rfl⟩

end PagedMemory.AddressSpace
