import PagedMemory.Proofs.Machine.Conservation
import PagedMemory.Proofs.Space.Declaring

/-!
# Declarations in the course of a run

What a declaration costs is known beforehand: one frame for each directory slot that the
range overlaps and that has no table.  With so many frames at hand it succeeds.  With
fewer, it uses them up on the lowest of these slots and stops at the first page of the
next one.
-/

namespace PagedMemory

open Memory

/-- How many frames can be taken one by one is told by the counter and by the allowance. -/
theorem Memory.requests_eq_grants {memory : Memory} {bounds : TableBounds}
    (sound : memory.pool.Sound) (table : memory.pool.territory = .table bounds) :
    (match memory.allowance with
      | none => memory.pool.freeFrames
      | some left => min left memory.pool.freeFrames) = memory.grants := by
  have free := sound.freeFrames_eq (FramePool.counters_of_table table).1
  unfold grants
  cases memory.allowance with
  | none => exact free
  | some left => exact congrArg (min left) free

namespace Ledger

variable {machine : Machine} {bounds : TableBounds} {ledger : Ledger}

/--
A declaration with room in the region list succeeds exactly if there is a frame for every
overlapped slot without a table.  Then all pages are declared, and declaring the range again
costs nothing.  Otherwise the region is recorded all the same, every frame is used up, and
the declaration has come to the lowest page in the first slot for which no frame was left:
the pages below it are declared, and all others are as they were.
-/
theorem declare_costs_missing_tables (starts : machine.Starts bounds)
    (reached : ownership.Reaches (start machine) ledger) {name : Nat} {space : AddressSpace}
    (found : ledger.machine.spaces.find? name = some space) {base : VirtAddr} {size : UInt32}
    (valid : size ≠ 0 ∧ base.toNat + size.toNat ≤ 2 ^ 32) (rights : Rights) {heap : Heap}
    (room : heap = .available ∨ space.regions.length < space.regions.capacity) :
    let memory := ledger.memory
    let pages : List Page := base.block.run (AddressSpace.pageSpan base size)
    let missing := memory.ram.Missing space.root pages
    let needed := Nat.count missing slotsPerTable
    let requests (memory : Memory) : Nat := match memory.allowance with
      | none => memory.pool.freeFrames
      | some left => min left memory.pool.freeFrames
    ∃ outcome changed after,
      space.declare base size rights heap memory = .ok ((outcome, changed), after) ∧
      changed.regions.entries = space.regions.entries ++
        [⟨base.block, AddressSpace.pageSpan base size, rights, none⟩] ∧
      (needed ≤ requests memory → outcome = .ok () ∧
        space.DeclaresExactly memory pages changed after ∧
        ∀ rights' heap', Ensures (changed.declare base size rights' heap') after
          fun outcome' later =>
            (heap' = .available ∨ changed.regions.length < changed.regions.capacity →
              outcome'.1 = .ok ()) ∧
            later.pool.freeFrames = after.pool.freeFrames ∧
            outcome'.2.leakedFrames = changed.leakedFrames) ∧
      (requests memory < needed → outcome = .error .outOfFrames ∧ requests after = 0 ∧
        (memory.allowance = none → after.pool.freeFrames = 0) ∧
        ∃ first ∈ pages, first.directoryIndex = Nat.nth missing (requests memory) ∧
          (∀ page ∈ pages, page.directoryIndex = first.directoryIndex →
            first.number ≤ page.number) ∧
          space.DeclaresExactly memory (pages.filter fun page => page.number < first.number)
            changed after ∧
          ∀ page : Page, first.number ≤ page.number →
            after.ram.slot space.root page.directoryIndex =
                memory.ram.slot space.root page.directoryIndex ∧
              after.ram.behind space.root page = memory.ram.behind space.root page) := by
  intro memory pages missing needed requests
  rcases balanced_of_reaches starts reached with ⟨balanced, table⟩
  have owns : memory.Owns (memory.ram.reach space.root ++ ledger.held) :=
    (balanced.owns_of_found found).of_perm List.perm_append_comm
  have tree := (balanced.sound_of_found found).tree
  have fits := AddressSpace.pageSpan_fits valid
  have granted : requests memory = memory.grants := requests_eq_grants owns.sound table
  have reserved : ∃ roomy, space.regions.reserve? heap = some roomy := by
    rw [← Option.ne_none_iff_exists', Ne, AddressSpace.reserve?_eq_none_iff]
    rintro ⟨rfl, full⟩
    rcases room with impossible | room
    · cases impossible
    · exact absurd full (Nat.not_le.mpr room)
  rcases reserved with ⟨roomy, reserved⟩
  rcases AddressSpace.declare_course owns tree valid reserved rights with
    ⟨⟨outcome, changed⟩, after, returns, done, lost, course, same⟩
  have recorded : changed.regions.entries = space.regions.entries ++
      [⟨base.block, AddressSpace.pageSpan base size, rights, none⟩] := by
    change changed = _ at same
    rw [same, ← AddressSpace.entries_of_reserve? reserved]
    rfl
  have table' : after.pool.territory = .table bounds :=
    course.reshapes.exchange.territory.trans table
  refine ⟨outcome, changed, after, returns, recorded, ?_, ?_⟩
  · intro enough
    have finished : outcome = .ok () := by
      by_contra failed
      have scarce := (course.stops (Block.ascending_run fits) failed).2.2.1
      rw [granted] at enough
      exact absurd enough (Nat.not_le.mpr scarce)
    subst finished
    have all := course.finishes.1
    subst all
    have exactly := course.exactly owns tree (Block.nodup_run fits) table
    refine ⟨rfl, exactly, fun rights' heap' => ?_⟩
    have owns' := course.reshapes.owns owns
    have tree' := course.reshapes.tree
    rw [← course.root] at owns' tree'
    apply AddressSpace.declare_again owns' tree' table' valid
    intro page member
    rw [course.root, course.reshapes.declares.behind]
    exact ⟨exactly.covered page member, PageMap.clear_of_mem _ member⟩
  · intro scarce
    have failed : outcome ≠ .ok () := by
      rintro rfl
      have enough := course.finishes.2
      rw [← granted] at enough
      exact absurd enough (Nat.not_le.mpr scarce)
    rcases course.stops (Block.ascending_run fits) failed with
      ⟨stopped, spent, -, first, member, stop, rfl, lower⟩
    have distinct := (Block.nodup_run fits).filter fun page => decide (page.number < first.number)
    have exactly := course.exactly owns tree distinct table
    have spent' : requests after = 0 :=
      (requests_eq_grants course.reshapes.exchange.sound table').trans spent
    refine ⟨stopped, spent', ?_, first, member, ?_, ?_, exactly, ?_⟩
    · intro unlimited
      have whole : requests memory = memory.pool.freeFrames := by
        simp only [requests, unlimited]
      have cost := course.furnishes.grants_eq
      have free := exactly.freeFrames
      omega
    · rw [granted]
      exact stop
    · intro page inside same
      by_contra above
      have below := lower page (List.mem_filter.mpr ⟨inside, decide_eq_true (Nat.not_le.mp above)⟩)
      omega
    · intro page above
      have outside : page ∉ pages.filter fun page => page.number < first.number := by
        intro inside
        exact absurd (of_decide_eq_true (List.mem_filter.mp inside).2) (Nat.not_lt.mpr above)
      refine ⟨exactly.slots _ ?_, ?_⟩
      · rintro ⟨-, other, inside, same⟩
        have below := lower other inside
        have monotone := Page.directoryIndex_mono above
        omega
      · rw [course.reshapes.declares.behind, PageMap.clear_of_not_mem _ outside]

/--
A range lies in three slots, the first with a table and a backed page.  The last free frame
becomes the table of the second slot, and the declaration stops at the third.
-/
theorem declare_costs_missing_tables_beyond_last_frame :
    let commands : List Command := [
      .create 0,
      .change 0 (.declare ⟨0x7FF000⟩ 0x1000 ⟨7⟩ .available),
      .access 0 (.fault ⟨0x7FF000⟩),
      .pool .take, .pool .take, .pool .take]
    let backed : VirtAddr := ⟨0x7FF000⟩
    ∃ ledger space frame changed after,
      ownership.follow (start Machine.eightFrames) commands = some ledger ∧
      ledger.machine.spaces.find? 0 = some space ∧
      space.frameBehind backed ledger.memory = .ok (some frame, ledger.memory) ∧
      space.declare ⟨0x7FF000⟩ 0x402000 ⟨5⟩ .available ledger.memory =
        .ok ((.error .outOfFrames, changed), after) ∧
      changed.regions.entries.length = 2 ∧ after.pool.freeFrames = 0 ∧
      changed.frameBehind backed after = .ok (none, after) ∧
      (after.ram.slot space.root 2).isSome = true ∧ after.ram.slot space.root 3 = none := by
  intro commands backed
  have outcome : (ownership.follow (start Machine.eightFrames) commands).bind (fun ledger =>
      (ledger.machine.spaces.find? 0).bind fun space =>
        (ledger.memory.ram.behind space.root backed.block).map fun _ =>
          (ledger.memory.pool.freeFrames, ledger.memory.allowance,
            space.regions.entries.length,
            [1, 2, 3].map fun slot => (ledger.memory.ram.slot space.root slot).isSome)) =
      some (1, none, 1, [true, false, false]) := by
    decide +kernel
  rcases Option.bind_eq_some_iff.mp outcome with ⟨ledger, followed, outcome⟩
  rcases Option.bind_eq_some_iff.mp outcome with ⟨space, found, outcome⟩
  rcases Option.map_eq_some_iff.mp outcome with ⟨frame, behind, observed⟩
  simp only [Prod.mk.injEq, List.map_cons, List.map_nil, List.cons.injEq, and_true,
    Option.isSome_eq_false_iff, Option.isNone_iff_eq_none] at observed
  rcases observed with ⟨free, unlimited, regions, present, vacant, absent⟩
  have reached := Regime.reaches_of_follow followed
  have valid : (0x402000 : UInt32) ≠ 0 ∧
      (⟨0x7FF000⟩ : VirtAddr).toNat + (0x402000 : UInt32).toNat ≤ 2 ^ 32 := by
    decide
  rcases declare_costs_missing_tables Machine.starts_eightFrames reached found valid ⟨5⟩
    (Or.inl rfl) with ⟨outcome, changed, after, returns, recorded, -, stops⟩
  have span : AddressSpace.pageSpan ⟨0x7FF000⟩ 0x402000 = 0x402 := by decide
  have lowest : (backed.block : Page).number = 0x7FF := by decide
  have inside (page : Page) : page ∈ backed.block.run 0x402 ↔
      0x7FF ≤ page.number ∧ page.number < 0x7FF + 0x402 := by
    rw [Block.mem_run, lowest]
  rw [span] at recorded stops
  let missing := ledger.memory.ram.Missing space.root (backed.block.run 0x402)
  have settled0 : ¬ missing 0 := by
    rintro ⟨-, page, member, zero⟩
    have above := ((inside page).mp member).1
    simp only [Page.directoryIndex, slotsPerTable] at zero
    omega
  have settled1 : ¬ missing 1 := by
    rintro ⟨gone, -⟩
    rw [gone] at present
    cases present
  have missing2 : missing 2 :=
    ⟨vacant, ⟨0x800, by decide⟩, (inside _).mpr (by decide), rfl⟩
  have missing3 : missing 3 :=
    ⟨absent, ⟨0xC00, by decide⟩, (inside _).mpr (by decide), rfl⟩
  have below : Nat.count missing 3 = 1 := by
    simp only [Nat.count_succ, Nat.count_zero, if_neg settled0, if_neg settled1, if_pos missing2]
  have scarce := Nat.count_strict_mono missing3 (by decide : 3 < slotsPerTable)
  rw [below] at scarce
  simp only [unlimited, free] at stops
  rcases stops scarce with ⟨rfl, -, spent, first, member, stop, minimal, exactly, -⟩
  have third : first.directoryIndex = 3 := by
    have nth := Nat.nth_count missing3
    rw [below] at nth
    exact stop.trans nth
  have page : first.number = 0xC00 := by
    have lower : first.number ≤ 0xC00 :=
      minimal ⟨0xC00, by decide⟩ ((inside _).mpr (by decide)) (by rw [third]; rfl)
    simp only [Page.directoryIndex, slotsPerTable] at third
    omega
  have declared (page : Page) (low : 0x7FF ≤ page.number) (high : page.number < 0xC00) :
      page ∈ (backed.block.run 0x402 : List Page).filter fun page => page.number < first.number :=
    List.mem_filter.mpr ⟨(inside page).mpr ⟨low, by omega⟩, decide_eq_true (by omega)⟩
  have unbacked := (exactly.lookups backed).2
  rw [if_pos (declared _ (by decide) (by decide))] at unbacked
  have filled := exactly.covered ⟨0x800, by decide⟩ (declared _ (by decide) (by decide))
  have stuck : after.ram.slot space.root 3 = ledger.memory.ram.slot space.root 3 := by
    apply exactly.slots
    rintro ⟨-, page, member, same⟩
    have below := of_decide_eq_true (List.mem_filter.mp member).2
    simp only [Page.directoryIndex, slotsPerTable] at same
    omega
  have translated := (exactly.lookups backed).1
  rw [behind] at translated
  have count : changed.regions.entries.length = 2 := by
    rw [recorded, List.length_append, regions]
    rfl
  exact ⟨ledger, space, frame, changed, after, followed, found, translated, returns, count,
    spent trivial, unbacked, filled, stuck.trans absent⟩

end Ledger

end PagedMemory
