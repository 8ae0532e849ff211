import Mathlib.Data.Nat.Nth
import PagedMemory.Proofs.Space.Declare

/-!
# How far declaring gets

A declaration goes through its pages upwards.  It gets to the end if there are frames for
all tables that are missing.  Otherwise it comes to a page that lies in the first slot for
which there is no frame left: the pages below it have been declared, and nothing else has
been touched.
-/

namespace PagedMemory

namespace Page

/-- Higher pages do not lie in lower slots. -/
theorem directoryIndex_mono {page other : Page} (below : page.number ≤ other.number) :
    page.directoryIndex ≤ other.directoryIndex :=
  Nat.div_le_div_right below

end Page

theorem Block.ascending_run {kind : AddressKind} {first : Block kind} {count : Nat}
    (fits : first.number + count ≤ blockLimit) :
    (first.run count).Pairwise fun block other => block.number < other.number := by
  rw [← List.pairwise_map, map_number_run fits]
  exact List.pairwise_lt_range'

/-- Where a walk through ascending pages stops, it has been through all lower ones. -/
theorem exists_first_uncovered {pages : List Page} {covered : Page → Bool}
    (ascending : pages.Pairwise fun page other => page.number < other.number)
    (short : ∃ page ∈ pages, covered page = false) :
    ∃ first ∈ pages, covered first = false ∧
      pages.takeWhile covered = pages.filter fun page => page.number < first.number := by
  induction pages with
  | nil =>
      rcases short with ⟨page, member, -⟩
      cases member
  | cons page rest induction =>
      rcases List.pairwise_cons.mp ascending with ⟨lowest, ascending⟩
      cases present : covered page with
      | false =>
          refine ⟨page, List.mem_cons_self, present, ?_⟩
          rw [List.takeWhile_cons_of_neg (ne_true_of_eq_false present), eq_comm,
            List.filter_eq_nil_iff]
          intro other member
          rw [decide_eq_true_eq, Nat.not_lt]
          rcases List.mem_cons.mp member with rfl | later
          · exact Nat.le_refl _
          · exact Nat.le_of_lt (lowest other later)
      | true =>
          have others : ∃ other ∈ rest, covered other = false := by
            rcases short with ⟨other, member, uncovered⟩
            rcases List.mem_cons.mp member with rfl | later
            · cases present.symm.trans uncovered
            · exact ⟨other, later, uncovered⟩
          rcases induction ascending others with ⟨first, member, uncovered, taken⟩
          refine ⟨first, List.mem_cons_of_mem page member, uncovered, ?_⟩
          have below := decide_eq_true (lowest first member)
          rw [List.takeWhile_cons_of_pos present, taken, List.filter_cons, if_pos below]

/-- Below the slot of a page, what is missing is what is missing for the lower pages. -/
theorem Ram.count_missing_below {ram : Ram} {root : Frame} {pages : List Page} {first : Page}
    (lower : ∀ page ∈ pages.filter (fun page => page.number < first.number),
      page.directoryIndex < first.directoryIndex) :
    Nat.count (ram.Missing root pages) first.directoryIndex =
      Nat.count (ram.Missing root (pages.filter fun page => page.number < first.number))
        slotsPerTable := by
  rw [Nat.count_eq_card_filter_range, Nat.count_eq_card_filter_range]
  apply congrArg Finset.card
  ext slot
  simp only [Finset.mem_filter, Finset.mem_range]
  constructor
  · rintro ⟨below, absent, page, member, rfl⟩
    have within : page.number < first.number := by
      by_contra above
      exact absurd below (Nat.not_lt.mpr (Page.directoryIndex_mono (Nat.not_lt.mp above)))
    exact ⟨page.directoryIndex_lt, absent, page,
      List.mem_filter.mpr ⟨member, decide_eq_true within⟩, rfl⟩
  · rintro ⟨-, absent, page, member, rfl⟩
    exact ⟨lower page member, absent, page, (List.mem_filter.mp member).1, rfl⟩

namespace AddressSpace

open Memory

variable {space changed : AddressSpace} {memory after : Memory} {rest : List Frame}
  {pages done : List Page} {lost : List Frame} {outcome : Except SpaceError Unit}

/-- Some pages have been declared, and nothing more. -/
structure DeclaresExactly (before : Memory) (space : AddressSpace) (pages : List Page)
    (changed : AddressSpace) (after : Memory) : Prop where
  /-- One frame is gone for every missing table, and none for data. -/
  freeFrames : before.pool.freeFrames = after.pool.freeFrames +
    Nat.count (before.ram.Missing space.root pages) slotsPerTable
  tables : (after.ram.tables space.root).length = (before.ram.tables space.root).length +
    Nat.count (before.ram.Missing space.root pages) slotsPerTable
  covered : ∀ page ∈ pages, (after.ram.slot space.root page.directoryIndex).isSome = true
  /-- Tables stay where they are, and slots without any are filled for these pages only. -/
  slots : ∀ slot, ¬ before.ram.Missing space.root pages slot →
    after.ram.slot space.root slot = before.ram.slot space.root slot
  leakedFrames : changed.leakedFrames = space.leakedFrames +
    pages.countP fun page => (before.ram.behind space.root page).isSome
  lookups : ∀ address,
    space.frameBehind address before =
        .ok (before.ram.behind space.root address.block, before) ∧
      changed.frameBehind address after =
        .ok (if (address.block : Page) ∈ pages then none
          else before.ram.behind space.root address.block, after)

namespace Course

/-- The lost frames are those that were behind the declared pages. -/
theorem length_lost (course : Course memory space pages done lost outcome changed after)
    (owns : memory.Owns (memory.ram.reach space.root ++ rest))
    (tree : memory.ram.Tree space.root) (distinct : done.Nodup) :
    lost.length = done.countP fun page => (memory.ram.behind space.root page).isSome := by
  have fresh : lost.Nodup :=
    (course.reshapes.owns owns).right.left.nodup
  have backing : (done.filterMap (memory.ram.behind space.root)).Nodup := by
    refine distinct.filterMap ?_
    intro page other frame backed again
    exact (tree.behind_injective again backed)
  have same : lost.Perm (done.filterMap (memory.ram.behind space.root)) := by
    refine (List.perm_ext_iff_of_nodup fresh backing).mpr fun frame => ?_
    rw [course.reshapes.declares.lost, List.mem_filterMap]
  rw [same.length_eq, List.length_filterMap_eq_countP]

theorem exactly (course : Course memory space pages done lost outcome changed after)
    (owns : memory.Owns (memory.ram.reach space.root ++ rest))
    (tree : memory.ram.Tree space.root) (distinct : done.Nodup) {bounds : TableBounds}
    (table : memory.pool.territory = .table bounds) :
    space.DeclaresExactly memory done changed after := by
  have exchange := course.reshapes.exchange
  have free := owns.sound.freeFrames_eq (FramePool.counters_of_table table).1
  have free' := exchange.sound.freeFrames_eq
    (FramePool.counters_of_table (exchange.territory.trans table)).1
  refine ⟨?_, ?_, course.reshapes.declares.covered, ?_, ?_, ?_⟩
  · rw [free, free', course.furnishes.available_eq]
  · exact Ram.length_tables_of_filled course.furnishes.filled
  · intro slot settled
    cases named : memory.ram.slot space.root slot with
    | some table => exact course.reshapes.declares.tables slot table named
    | none =>
        rw [course.furnishes.filled]
        refine ⟨named, fun page member same => settled ⟨named, page, member, same⟩⟩
  · rw [course.leakedFrames, course.length_lost owns tree distinct]
  · intro address
    refine ⟨frameBehind_eq tree address, ?_⟩
    have tree' := course.reshapes.tree
    rw [← course.root] at tree'
    rw [frameBehind_eq tree', course.root, course.reshapes.declares.behind]
    rfl

/-- A walk that stops leaves no frame, and stops in the first slot that cannot be filled. -/
theorem stops (course : Course memory space pages done lost outcome changed after)
    (ascending : pages.Pairwise fun page other => page.number < other.number)
    (failed : outcome ≠ .ok ()) :
    let missing := memory.ram.Missing space.root pages
    outcome = .error .outOfFrames ∧ after.grants = 0 ∧
      memory.grants < Nat.count missing slotsPerTable ∧
      ∃ first ∈ pages, first.directoryIndex = Nat.nth missing memory.grants ∧
        done = (pages.filter fun page => page.number < first.number) ∧
        ∀ page ∈ done, page.directoryIndex < first.directoryIndex := by
  intro missing
  have filled := course.furnishes.filled
  have cost := course.furnishes.grants_eq
  rcases course with ⟨-, -, progress, -, -⟩
  cases progress with
  | finished => exact absurd rfl failed
  | stopped spent short =>
      rcases exists_first_uncovered ascending short with ⟨first, member, uncovered, taken⟩
      rw [taken] at filled cost ⊢
      have absent : after.ram.slot space.root first.directoryIndex = none :=
        Option.not_isSome_iff_eq_none.mp (ne_true_of_eq_false uncovered)
      rcases (filled _).mp absent with ⟨needed, apart⟩
      have lower : ∀ page ∈ pages.filter (fun page => page.number < first.number),
          page.directoryIndex < first.directoryIndex := by
        intro page inside
        have below := of_decide_eq_true (List.mem_filter.mp inside).2
        exact Nat.lt_of_le_of_ne (Page.directoryIndex_mono (Nat.le_of_lt below))
          (apart page inside)
      have stuck : missing first.directoryIndex := ⟨needed, first, member, rfl⟩
      have spentOn : Nat.count missing first.directoryIndex = memory.grants := by
        rw [cost, spent, Nat.zero_add]
        exact Ram.count_missing_below lower
      have scarce : memory.grants < Nat.count missing slotsPerTable := by
        rw [← spentOn]
        exact Nat.count_strict_mono stuck first.directoryIndex_lt
      have stop : first.directoryIndex = Nat.nth missing memory.grants := by
        rw [← spentOn, Nat.nth_count stuck]
      exact ⟨rfl, spent, scarce, first, member, stop, rfl, lower⟩

theorem finishes (course : Course memory space pages done lost (.ok ()) changed after) :
    done = pages ∧
      Nat.count (memory.ram.Missing space.root pages) slotsPerTable ≤ memory.grants := by
  have cost := course.furnishes.grants_eq
  rcases course with ⟨-, -, progress, -, -⟩
  cases progress with
  | finished => exact ⟨rfl, by omega⟩

/-- Ascending pages are declared to the end if there is a frame for every missing table. -/
theorem finishes_of_enough (course : Course memory space pages done lost outcome changed after)
    (ascending : pages.Pairwise fun page other => page.number < other.number)
    (enough : Nat.count (memory.ram.Missing space.root pages) slotsPerTable ≤ memory.grants) :
    outcome = .ok () ∧ done = pages := by
  have finished : outcome = .ok () := by
    by_contra failed
    exact absurd enough (Nat.not_le.mpr (course.stops ascending failed).2.2.1)
  subst finished
  exact ⟨rfl, course.finishes.1⟩

end Course

/-- Pages that have a table and no data frame can be declared again for nothing. -/
theorem declare_again {start : VirtAddr} {size : UInt32} {bounds : TableBounds}
    (owns : memory.Owns (memory.ram.reach space.root ++ rest))
    (tree : memory.ram.Tree space.root) (table : memory.pool.territory = .table bounds)
    (valid : ValidRange start size)
    (declared : ∀ page : Page, page ∈ start.block.run (pageSpan start size) →
      (memory.ram.slot space.root page.directoryIndex).isSome = true ∧
        memory.ram.behind space.root page = none) (rights : Rights) (heap : Heap) :
    Ensures (space.declare start size rights heap) memory fun outcome after =>
      (heap = .available ∨ space.regions.length < space.regions.capacity → outcome.1 = .ok ()) ∧
        after.pool.freeFrames = memory.pool.freeFrames ∧
        outcome.2.leakedFrames = space.leakedFrames := by
  have complete : Nat.count (memory.ram.Missing space.root
      ((start.block : Page).run (pageSpan start size))) slotsPerTable = 0 := by
    rw [Nat.count_iff_forall_not]
    rintro _ - ⟨absent, page, member, rfl⟩
    have present := (declared page member).1
    rw [absent] at present
    cases present
  have clear : ((start.block : Page).run (pageSpan start size)).countP
      (fun page => (memory.ram.behind space.root page).isSome) = 0 := by
    rw [List.countP_eq_zero]
    intro page member
    rw [(declared page member).2]
    exact Bool.false_ne_true
  have fits := pageSpan_fits valid
  cases reserved : space.regions.reserve? heap with
  | none =>
      refine Ensures.of_eq (declare_of_full valid reserved memory) ⟨?_, rfl, rfl⟩
      rcases reserve?_eq_none_iff.mp reserved with ⟨rfl, full⟩
      rintro (impossible | room)
      · cases impossible
      · exact absurd full (Nat.not_le.mpr room)
  | some roomy =>
      refine (declare_course owns tree valid reserved rights).imp ?_
      rintro ⟨outcome, changed⟩ after ⟨done, lost, course, -⟩
      by_cases finished : outcome = .ok ()
      · subst finished
        have all := course.finishes.1
        subst all
        have exactly := course.exactly owns tree (Block.nodup_run fits) table
        have free := exactly.freeFrames
        have leaked := exactly.leakedFrames
        rw [complete] at free
        rw [clear] at leaked
        exact ⟨fun _ => rfl, free.symm, leaked⟩
      · have scarce := (course.stops (Block.ascending_run fits) finished).2.2.1
        rw [complete] at scarce
        cases scarce

end AddressSpace

end PagedMemory
