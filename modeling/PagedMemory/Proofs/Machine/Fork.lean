import PagedMemory.Proofs.Machine.Conservation

/-!
# Forks in the course of a run

A fork of a live space either makes a deep copy and takes exactly the frames
that the copy consists of, or it fails and leaves no trace.  In both cases
nobody else can tell: every frame that was outstanding keeps its bytes, so every
live space looks the same as before.
-/

namespace PagedMemory

open Memory

namespace AddressSpace

/-- A space looks the same in two memories. -/
structure Unchanged (before after : Memory) (space : AddressSpace) : Prop where
  frames : space.frames after.ram = space.frames before.ram
  bytes : ∀ frame ∈ space.frames before.ram, after.ram.read frame = before.ram.read frame
  lookups : ∀ address, ∃ found, space.frameBehind address before = .ok (found, before) ∧
    space.frameBehind address after = .ok (found, after)

/-- Nothing has been written that a space reaches. -/
theorem unchanged_of_kept {before after : Memory} {space : AddressSpace}
    (tree : before.ram.Tree space.root)
    (extent : ∀ frame, after.ram.holds frame = before.ram.holds frame)
    (kept : ∀ frame ∈ before.ram.reach space.root,
      after.ram.contentsOf frame = before.ram.contentsOf frame) :
    space.Unchanged before after := by
  have tree' := (tree.congr extent kept).1
  refine ⟨frames_congr kept, ?_, ?_⟩
  · intro frame member
    have reached := (space.reach_perm_frames before.ram).mem_iff.mpr member
    rw [Ram.read_eq, Ram.read_eq, extent frame, kept frame reached]
  · intro address
    refine ⟨_, frameBehind_eq tree address, ?_⟩
    rw [frameBehind_eq tree' address, Ram.behind_congr kept]

/-- A copy of a space that shares nothing with it. -/
structure DeepCopy (space : AddressSpace) (before : Memory) (copy : AddressSpace)
    (after : Memory) : Prop where
  regions : copy.regions.entries = space.regions.entries
  leakedFrames : copy.leakedFrames = 0
  distinct : (copy.frames after.ram).Nodup
  /-- The frames of the copy are those that have been taken. -/
  taken : (after.pool.available ++ copy.frames after.ram).Perm before.pool.available
  /-- Without regions, the copy is as good as new. -/
  fresh : space.regions.entries = [] →
    copy.loading = false ∧ after.ram.tables copy.root = []
  loading : space.regions.entries ≠ [] → copy.loading = space.loading
  tables : space.regions.entries ≠ [] → ∀ slot,
    (after.ram.slot copy.root slot).isSome = (before.ram.slot space.root slot).isSome
  /-- Behind each address both have a data frame with the same bytes, or neither has one. -/
  pages : space.regions.entries ≠ [] → ∀ address, ∃ original? frame?,
    space.frameBehind address before = .ok (original?, before) ∧
      copy.frameBehind address after = .ok (frame?, after) ∧
      Option.Rel (fun original frame => ∃ contents, before.ram.read original = .ok contents ∧
        after.ram.read frame = .ok contents) original? frame?

theorem isSome_of_rel {α β : Type} {related : α → β → Prop} {left : Option α} {right : Option β}
    (rel : Option.Rel related left right) : right.isSome = left.isSome := by
  cases rel <;> rfl

/-- What a fork has made is a deep copy. -/
theorem Forked.deepCopy {before after : Memory} {space copy : AddressSpace}
    (forked : Forked before space copy after) (tree : before.ram.Tree space.root) :
    space.DeepCopy before copy after := by
  have frames := copy.reach_perm_frames after.ram
  have taken := forked.extension.exchange.balance
  rw [List.append_nil, List.append_nil] at taken
  refine ⟨forked.entries, forked.leakedFrames, frames.nodup_iff.mp forked.tree.distinct,
    (frames.symm.append_left after.pool.available).trans taken, ?_, ?_, ?_, ?_⟩
  · intro none
    rcases forked.fresh none with ⟨closed, zeroed⟩
    refine ⟨closed, List.filterMap_eq_nil_iff.mpr ?_⟩
    intro slot _
    rw [Ram.slot, zeroed, FrameContents.slot_zero]
  · intro some
    exact (forked.deep some).1
  · intro some slot
    exact isSome_of_rel ((forked.deep some).2 slot)
  · intro some address
    refine ⟨_, _, frameBehind_eq tree address, frameBehind_eq forked.tree address, ?_⟩
    apply Ram.rel_of_imp ((forked.deep some).2.behind address.block)
    intro original frame found found' bytes
    have held := tree.held original (Ram.behind_mem_reach found)
    have held' := forked.tree.held frame (Ram.behind_mem_reach found')
    refine ⟨before.ram.contentsOf original, Ram.read_of_holds held, ?_⟩
    rw [Ram.read_of_holds held', bytes]

end AddressSpace

theorem Memory.le_grants_iff {memory : Memory} {count : Nat} :
    count ≤ memory.grants ↔ count ≤ memory.pool.available.length ∧
      ∀ left, memory.allowance = some left → count ≤ left := by
  unfold grants
  cases memory.allowance with
  | none => simp
  | some left =>
      dsimp only
      rw [Nat.le_min]
      simp [and_comm]

namespace Ledger

variable {machine : Machine} {bounds : TableBounds} {ledger : Ledger}

/-- How many frames are free after an exchange that was given none. -/
theorem freeFrames_of_exchange (starts : machine.Starts bounds)
    (reached : ownership.Reaches (start machine) ledger) {after : Memory} {left : List Frame}
    (exchange : Exchange ledger.memory [] after left) :
    ledger.memory.pool.freeFrames = after.pool.freeFrames + left.length := by
  rcases balanced_of_reaches starts reached with ⟨balanced, table⟩
  have table' : after.pool.territory = .table bounds := exchange.territory.trans table
  have counted := exchange.balance.length_eq
  rw [List.length_append, List.append_nil] at counted
  rw [balanced.owns.sound.freeFrames_eq (FramePool.counters_of_table table).1,
    exchange.sound.freeFrames_eq (FramePool.counters_of_table table').1, counted]

/-- Outstanding frames keep their contents in an exchange that was given none. -/
theorem Balanced.kept (balanced : ledger.Balanced) {after : Memory} {left : List Frame}
    (exchange : Exchange ledger.memory [] after left) {frame : Frame}
    (member : frame ∈ ledger.outstanding) :
    after.ram.contentsOf frame = ledger.memory.ram.contentsOf frame := by
  apply exchange.untouched
  rw [List.append_nil]
  exact balanced.owns.not_available member

theorem Balanced.unchanged (balanced : ledger.Balanced) {after : Memory} {left : List Frame}
    (exchange : Exchange ledger.memory [] after left) {entry : Nat × AddressSpace}
    (member : entry ∈ ledger.spaces) : entry.2.Unchanged ledger.memory after :=
  AddressSpace.unchanged_of_kept (balanced.spaces entry member).tree exchange.extent
    fun _ inside => balanced.kept exchange (mem_outstanding member inside)

/--
While the heap serves requests, a fork succeeds exactly if its cost is covered:
one frame if the source has no regions, and otherwise one for the root, one for
each table and one for each backed page.  It takes exactly these frames, none of
which was outstanding, and makes a deep copy.  Every live space, the source
included, looks the same afterwards in any case.
-/
theorem fork_makes_deep_copy (starts : machine.Starts bounds)
    (reached : ownership.Reaches (start machine) ledger) {name : Nat} {space : AddressSpace}
    (found : ledger.machine.spaces.find? name = some space) :
    let memory := ledger.memory
    let cost := if space.regions.entries = [] then 1
      else 1 + (memory.ram.tables space.root).length + (memory.ram.backing space.root).length
    ∃ result after, space.fork .available memory = .ok (result, after) ∧
      ((∃ copy, result = .ok copy) ↔ cost ≤ memory.pool.freeFrames ∧
        ∀ left, memory.allowance = some left → cost ≤ left) ∧
      (∀ copy, result = .ok copy →
        memory.pool.freeFrames = after.pool.freeFrames + cost ∧
        space.DeepCopy memory copy after ∧
        ∀ frame ∈ copy.frames after.ram, frame ∉ ledger.outstanding) ∧
      ∀ entry ∈ ledger.spaces, entry.2.Unchanged memory after := by
  intro memory cost
  rcases balanced_of_reaches starts reached with ⟨balanced, table⟩
  rcases balanced.forks found .available with ⟨result, after, returns, forks⟩
  have free : memory.pool.freeFrames = memory.pool.available.length :=
    balanced.owns.sound.freeFrames_eq (FramePool.counters_of_table table).1
  have costs : space.forkCost memory.ram = cost := space.forkCost_eq memory.ram
  refine ⟨result, after, returns, ?_, ?_, ?_⟩
  · rw [free, ← le_grants_iff, ← costs, forks.succeeds_iff]
    exact and_iff_left fun _ => rfl
  · rintro copy rfl
    cases forks with
    | forked room forked =>
        have deep := forked.deepCopy (balanced.sound_of_found found).tree
        have counted := freeFrames_of_exchange starts reached forked.extension.exchange
        rw [List.append_nil, forked.cost, costs] at counted
        refine ⟨counted, deep, ?_⟩
        intro frame member taken
        have available := deep.taken.mem_iff.mp (List.mem_append_right _ member)
        exact balanced.owns.not_available taken available
  · rcases forks.exchange with ⟨left, exchange⟩
    exact fun entry member => balanced.unchanged exchange member

/-- A space with one page of two backed is copied into three of four free frames. -/
theorem fork_makes_deep_copy_of_three_frames :
    let commands : List Command := [
      .create 0,
      .change 0 (.declare ⟨0x400000⟩ 0x2000 ⟨7⟩ .available),
      .access 0 (.fault ⟨0x400000⟩)]
    ∃ ledger space copy after, ownership.follow (start Machine.eightFrames) commands = some ledger ∧
      ledger.machine.spaces.find? 0 = some space ∧ space.regions.entries.length = 1 ∧
      space.fork .available ledger.memory = .ok (.ok copy, after) ∧
      after.pool.freeFrames = 1 ∧ space.DeepCopy ledger.memory copy after := by
  intro commands
  have outcome : (ownership.follow (start Machine.eightFrames) commands).map (fun ledger =>
      (ledger.held.length + ledger.memory.lostFrames.length, ledger.memory.pool.freeFrames,
        ledger.memory.allowance, ledger.spaces.length,
        (ledger.machine.spaces.find? 0).map fun space => space.regions.entries.length)) =
      some (0, 4, none, 1, some 1) := by
    decide +kernel
  rcases Option.map_eq_some_iff.mp outcome with ⟨ledger, followed, observed⟩
  simp only [Prod.mk.injEq] at observed
  rcases observed with ⟨elsewhere, free, unlimited, single, known⟩
  rcases Option.map_eq_some_iff.mp known with ⟨space, found, regions⟩
  have reached := Regime.reaches_of_follow followed
  have count := count_of_single Machine.starts_eightFrames reached found single
  rw [space.length_frames] at count
  dsimp only at count
  have some : space.regions.entries ≠ [] := by
    intro none
    rw [none] at regions
    cases regions
  rcases fork_makes_deep_copy Machine.starts_eightFrames reached found with
    ⟨result, after, returns, succeeds, made, -⟩
  rw [if_neg some] at succeeds made
  have room : ∃ copy, result = .ok copy := by
    apply succeeds.mpr
    refine ⟨by omega, ?_⟩
    intro left limited
    cases unlimited.symm.trans limited
  rcases room with ⟨copy, rfl⟩
  rcases made copy rfl with ⟨cost, deep, -⟩
  exact ⟨ledger, space, copy, after, followed, found, regions, returns, by omega, deep⟩

/-- A failed fork gives back what it has taken. -/
theorem disposes_of_failed_fork (balanced : ledger.Balanced) {name copy : Nat} {heap : Heap}
    {refusal : SpaceError} {after : Machine}
    (failed : ledger.machine.execute (.fork name copy heap) =
      .ok (.refused (.space refusal), after)) :
    (∃ gone, Disposes ledger.memory [] gone after.memory) ∧
      after.spaces = ledger.machine.spaces := by
  cases found : ledger.machine.spaces.find? name with
  | none =>
      rw [Machine.execute, Machine.withSpace_of_missing found] at failed
      cases failed
  | some space =>
      by_cases occupied : ledger.machine.spaces.holds copy = true
      · rw [Machine.execute, Machine.withSpace_of_found found, if_pos occupied] at failed
        cases failed
      · rcases balanced.forks found heap with ⟨result, later, returns, forks⟩
        rw [Machine.execute_fork found occupied returns] at failed
        cases forks with
        | forked room forked => cases failed
        | failed shortage reason disposes =>
            cases failed
            exact ⟨⟨_, disposes⟩, rfl⟩

/--
A fork that fails, for whatever reason and however much of the copy was there,
leaves no trace: the same frames are free, and every space, every frame that was
outstanding and all counters are as before.
-/
theorem failed_fork_leaves_no_trace (starts : machine.Starts bounds)
    (reached : ownership.Reaches (start machine) ledger) {name copy : Nat} {heap : Heap}
    {refusal : SpaceError} {after : Machine}
    (failed : ledger.machine.execute (.fork name copy heap) =
      .ok (.refused (.space refusal), after)) :
    after.memory.pool.available.Perm ledger.memory.pool.available ∧
      after.memory.pool.freeFrames = ledger.memory.pool.freeFrames ∧
      after.memory.pool.leakedFrees = ledger.memory.pool.leakedFrees ∧
      after.spaces = ledger.machine.spaces ∧
      (∀ entry ∈ ledger.spaces, entry.2.Unchanged ledger.memory after.memory) ∧
      ∀ frame ∈ ledger.outstanding,
        after.memory.ram.read frame = ledger.memory.ram.read frame := by
  rcases balanced_of_reaches starts reached with ⟨balanced, table⟩
  rcases disposes_of_failed_fork balanced failed with ⟨⟨gone, disposes⟩, spaces⟩
  -- Only a frame that the table does not manage can be gone, and none of those was taken.
  have nothing : gone = [] := by
    apply disposes.gone_eq_nil
    intro frame member
    rw [List.append_nil] at member
    exact balanced.owns.sound.manages_available table member
  subst nothing
  have exchange := disposes.exchange
  have same := exchange.balance
  rw [List.append_nil, List.append_nil] at same
  refine ⟨same, (freeFrames_of_exchange starts reached exchange).symm, disposes.leakedFrees,
    spaces, fun entry member => balanced.unchanged exchange member, ?_⟩
  intro frame member
  rw [Ram.read_eq, Ram.read_eq, exchange.extent, balanced.kept exchange member]

/-- Three free frames are not enough for a copy of four: all three are free again. -/
theorem failed_fork_leaves_no_trace_in_three_frames :
    let commands : List Command := [
      .create 0,
      .change 0 (.declare ⟨0x400000⟩ 0x2000 ⟨7⟩ .available),
      .access 0 (.fault ⟨0x400000⟩),
      .access 0 (.fault ⟨0x401000⟩)]
    ∃ ledger refusal after, ownership.follow (start Machine.eightFrames) commands = some ledger ∧
      ledger.machine.execute (.fork 0 1 .available) = .ok (.refused (.space refusal), after) ∧
      after.memory.pool.freeFrames = 3 ∧ after.spaces = ledger.machine.spaces := by
  intro commands
  have outcome : (ownership.follow (start Machine.eightFrames) commands).map (fun ledger =>
      (ledger.held.length + ledger.memory.lostFrames.length, ledger.memory.pool.freeFrames,
        ledger.machine.spaces.holds 1, ledger.spaces.length,
        (ledger.machine.spaces.find? 0).map fun space => space.regions.entries.length)) =
      some (0, 3, false, 1, some 1) := by
    decide +kernel
  rcases Option.map_eq_some_iff.mp outcome with ⟨ledger, followed, observed⟩
  simp only [Prod.mk.injEq] at observed
  rcases observed with ⟨elsewhere, free, vacant, single, known⟩
  rcases Option.map_eq_some_iff.mp known with ⟨space, found, regions⟩
  have reached := Regime.reaches_of_follow followed
  have count := count_of_single Machine.starts_eightFrames reached found single
  dsimp only at count
  have some : space.regions.entries ≠ [] := by
    intro none
    rw [none] at regions
    cases regions
  rcases balanced_of_reaches Machine.starts_eightFrames reached with ⟨balanced, table⟩
  rcases balanced.forks found .available with ⟨result, after, returns, forks⟩
  have executed := Machine.execute_fork found (ne_true_of_eq_false vacant) returns
  have cost : space.forkCost ledger.memory.ram = (space.frames ledger.memory.ram).length :=
    if_neg some
  have available := balanced.owns.sound.freeFrames_eq (FramePool.counters_of_table table).1
  cases result with
  | ok copy =>
      have enough := (forks.succeeds_iff.mp ⟨copy, rfl⟩).1
      have covered := (Memory.le_grants_iff.mp enough).1
      omega
  | error refusal =>
      rcases failed_fork_leaves_no_trace Machine.starts_eightFrames reached executed with
        ⟨-, same, -, spaces, -⟩
      exact ⟨ledger, refusal, _, followed, executed, same.trans free, spaces⟩

end Ledger

end PagedMemory
