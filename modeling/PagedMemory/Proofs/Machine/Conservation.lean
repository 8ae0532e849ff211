import PagedMemory.Proofs.Machine.Run
import PagedMemory.Proofs.Space.Backing

/-!
# Conservation of frames

A run *starts* when the frame table has just been built, all frames that the
table manages are in RAM, and no space has been made.  From then on every
managed frame is in exactly one place: it is available, or a client holds it, or
it is reached from one live space, or it was lost when its page was declared
again.  So what is free at the end of a run can be told from the counters of the
pool and of the spaces.
-/

namespace PagedMemory

open Memory

/-- A machine whose frame table has just been built. -/
structure Machine.Starts (machine : Machine) (bounds : TableBounds) : Prop where
  bootstrapped : ∃ early reachable reply, FramePool.bootstrap early reachable = .ok reply ∧
    reply.result = .ok () ∧ reply.pool = machine.memory.pool
  territory : machine.memory.pool.territory = .table bounds
  reachable : ∀ frame ∈ bounds.managed, machine.memory.ram.holds frame = true
  spaces : machine.spaces = .empty
  lostFrames : machine.memory.lostFrames = []

namespace Machine.Starts

variable {machine : Machine} {bounds : TableBounds}

/-- The pool has the table that was built. -/
theorem built (starts : machine.Starts bounds) :
    ∃ memory stack leaked, FramePool.Bootstrapped memory stack ∧
      machine.memory.pool = ⟨.ready stack, leaked⟩ ∧ stack.bounds = bounds := by
  rcases starts.bootstrapped with ⟨early, reachable, reply, replied, success, same⟩
  rcases FramePool.ready_of_bootstrap replied success with
    ⟨memory, stack, -, bootstrapped, ready⟩
  have territory := starts.territory
  rw [← same, ready] at territory
  cases territory
  exact ⟨memory, stack, early.leakedFrees, bootstrapped, same.symm.trans ready, rfl⟩

/-- At the start all managed frames are available. -/
theorem pool_sound (starts : machine.Starts bounds) :
    machine.memory.pool.Sound ∧ machine.memory.pool.available = bounds.managed ∧
      bounds.first.number + bounds.total ≤ blockLimit := by
  rcases starts.built with ⟨memory, stack, leaked, bootstrapped, ready, rfl⟩
  have represents := bootstrapped.represents
  rcases FramePool.Sound.of_represents represents bootstrapped.mapped leaked with
    ⟨sound, available⟩
  rw [ready]
  exact ⟨sound, available, represents.fits⟩

theorem stored (starts : machine.Starts bounds) : bounds.Stored := by
  rcases starts.built with ⟨memory, stack, leaked, bootstrapped, -, rfl⟩
  exact bootstrapped.stored

theorem outstanding (starts : machine.Starts bounds) : (Ledger.start machine).outstanding = [] := by
  change [] ++ (machine.memory.lostFrames ++ machine.memory.ram.reached machine.spaces.entries) = []
  rw [starts.lostFrames, starts.spaces]
  rfl

theorem accounted (starts : machine.Starts bounds) :
    (Ledger.start machine).accounted = bounds.managed := by
  rw [Ledger.accounted, starts.outstanding, List.append_nil]
  exact starts.pool_sound.2.1

theorem balanced (starts : machine.Starts bounds) : (Ledger.start machine).Balanced := by
  rcases starts.pool_sound with ⟨sound, available, fits⟩
  have entries : (Ledger.start machine).spaces = [] :=
    congrArg SpaceTable.entries starts.spaces
  refine ⟨?_, ?_, ?_, ?_, ?_⟩
  · rw [starts.outstanding]
    refine ⟨sound, ?_, ?_, ?_⟩
    · rw [List.append_nil]
      exact sound.nodup_available
    · intro frame member
      rw [List.append_nil] at member
      apply starts.reachable
      rw [← available]
      exact member
    · intro frame member
      cases member
  · rw [entries]
    exact List.nodup_nil
  · rw [entries]
    intro entry member
    cases member
  · rw [entries]
    exact congrArg List.length starts.lostFrames
  · intro frame managed
    have table : (Ledger.start machine).memory.pool.territory = .table bounds := starts.territory
    rw [table] at managed
    rw [starts.accounted]
    exact (TableBounds.mem_managed fits).mpr managed

end Machine.Starts

/--
A machine at the start of a run: it has just been switched on, and its boot memory
is in RAM, or its frame table has just been built.

Any part of boot memory may be asked for in the course of a run.  Until there is a
table its frames are handed out from the lowest one on, and then the table lies in
the lowest of the rest and hands out the others.  So all of it has to be in RAM.
-/
inductive Machine.Fresh : Machine → Prop where
  | booting {ram : Ram} {first last : PhysAddr} {range : BumpRange}
      (made : BumpRange.between first last = .ok range)
      (reachable : ∀ frame ∈ range.remaining, ram.holds frame = true) :
      Fresh (.start ram (.bump range))
  | bootstrapped {machine : Machine} {bounds : TableBounds} (starts : machine.Starts bounds) :
      Fresh machine

theorem Machine.Fresh.spaces {machine : Machine} (fresh : machine.Fresh) :
    machine.spaces = .empty := by
  cases fresh with
  | booting made reachable => rfl
  | bootstrapped starts => exact starts.spaces

theorem Machine.Fresh.balanced {machine : Machine} (fresh : machine.Fresh) :
    (Ledger.start machine).Balanced := by
  cases fresh with
  | bootstrapped starts => exact starts.balanced
  | @booting ram _ _ range made reachable =>
      have sound : (FramePool.new (.bump range)).Sound :=
        .early (BumpRange.aligned_of_between made)
      refine ⟨⟨sound, ?_, ?_, ?_⟩, List.nodup_nil, ?_, rfl, ?_⟩
      · show (range.remaining ++ []).Nodup
        rw [List.append_nil]
        exact sound.nodup_available
      · intro frame member
        rcases List.mem_append.mp member with available | outstanding
        · exact reachable frame available
        · cases outstanding
      · intro frame member
        cases member
      · intro entry member
        cases member
      · intro frame managed
        cases managed

namespace Ledger

variable {machine : Machine} {bounds : TableBounds} {ledger : Ledger}

/-- If there is a table in a run, then its entries lie in frames of its own. -/
theorem keepsTable_of_reaches (fresh : machine.Fresh)
    (reached : ownership.Reaches (start machine) ledger)
    (table : ledger.memory.pool.territory = .table bounds) : ledger.KeepsTable bounds := by
  rcases fresh.balanced.of_reaches reached with ⟨balanced, follows⟩
  refine balanced.keepsTable table ((follows.stored bounds table).elim (fun before => ?_) id)
  cases fresh with
  | booting made reachable => cases before
  | bootstrapped starts =>
      cases starts.territory.symm.trans before
      exact starts.stored

/-- All ledgers of a run are balanced, and they are about the same table. -/
theorem balanced_of_reaches (starts : machine.Starts bounds)
    (reached : ownership.Reaches (start machine) ledger) :
    ledger.Balanced ∧ ledger.memory.pool.territory = .table bounds := by
  rcases starts.balanced.of_reaches reached with ⟨balanced, follows⟩
  exact ⟨balanced, follows.table bounds starts.territory⟩

/-- In a run exactly the managed frames are accounted for. -/
theorem accounted_perm (starts : machine.Starts bounds)
    (reached : ownership.Reaches (start machine) ledger) :
    ledger.accounted.Perm bounds.managed := by
  rcases starts.balanced.of_reaches reached with ⟨balanced, follows⟩
  have fits := starts.pool_sound.2.2
  -- Both lists repeat nothing, so they need only have the same members.
  apply (List.perm_ext_iff_of_nodup balanced.owns.distinct
    (TableBounds.nodup_managed fits)).mpr
  intro frame
  constructor
  · intro member
    rw [← starts.accounted]
    exact follows.accounted frame member
  · intro managed
    apply balanced.covered
    rw [follows.table bounds starts.territory]
    exact (TableBounds.mem_managed fits).mp managed

/-- Every managed frame is counted once. -/
theorem count_of_reaches (starts : machine.Starts bounds)
    (reached : ownership.Reaches (start machine) ledger) :
    ledger.memory.pool.freeFrames + ledger.held.length + ledger.memory.lostFrames.length +
      (ledger.memory.ram.reached ledger.spaces).length = bounds.total - bounds.reserved := by
  rcases balanced_of_reaches starts reached with ⟨balanced, table⟩
  have free := balanced.owns.sound.freeFrames_eq (FramePool.counters_of_table table).1
  have count := (accounted_perm starts reached).length_eq
  rw [TableBounds.length_managed starts.pool_sound.2.2, accounted, outstanding,
    List.length_append, List.length_append, List.length_append, ← free] at count
  omega

/-- The frames of all live spaces are those that are reached from them. -/
theorem frames_perm_reached (ram : Ram) (entries : List (Nat × AddressSpace)) :
    (entries.flatMap fun entry => entry.2.frames ram).Perm (ram.reached entries) :=
  List.Perm.flatMap_left entries fun entry _ => (entry.2.reach_perm_frames ram).symm

/-- The frames of the only space are those that are nowhere else. -/
theorem count_of_single (starts : machine.Starts bounds)
    (reached : ownership.Reaches (start machine) ledger) {name : Nat} {space : AddressSpace}
    (found : ledger.machine.spaces.find? name = some space)
    (single : ledger.spaces.length = 1) :
    ledger.memory.pool.freeFrames + ledger.held.length + ledger.memory.lostFrames.length +
      (space.frames ledger.memory.ram).length = bounds.total - bounds.reserved := by
  have entries := (balanced_of_reaches starts reached).1.entries_perm found
  have others : (ledger.machine.spaces.erase name).entries = [] := by
    have count := entries.length_eq
    rw [single, List.length_append, List.length_singleton] at count
    exact List.eq_nil_of_length_eq_zero (by omega)
  rw [others, List.append_nil] at entries
  have same : (ledger.memory.ram.reached ledger.spaces).Perm
      (space.frames ledger.memory.ram) := by
    have first : (ledger.memory.ram.reached ledger.spaces).Perm
        (ledger.memory.ram.reached [(name, space)]) := entries.flatMap_right _
    rw [reached_singleton] at first
    exact first.trans (space.reach_perm_frames ledger.memory.ram)
  rw [← same.length_eq]
  exact count_of_reaches starts reached

/--
The managed frames are split into those that are available, those that clients
hold, those that were lost and those that are reached from spaces, each from one
place of one space.  As many were lost as the spaces have counted that there are
or have been, and every permitted command is answered.  The entries of the table lie
in the frames before them, which nobody has and nothing else is written to.
-/
theorem managed_frames_conserved (starts : machine.Starts bounds)
    (reached : ownership.Reaches (start machine) ledger) :
    (ledger.memory.pool.available ++ (ledger.held ++ (ledger.memory.lostFrames ++
        ledger.spaces.flatMap fun entry => entry.2.frames ledger.memory.ram))).Perm
        bounds.managed ∧
      bounds.managed.Nodup ∧
      bounds.managed.map Block.number =
        List.range' (bounds.first.number + bounds.reserved) (bounds.total - bounds.reserved) ∧
      ledger.memory.pool.totalFrames = bounds.total ∧
      ledger.memory.pool.footprintFrames = bounds.reserved ∧
      ledger.memory.pool.freeFrames = ledger.memory.pool.available.length ∧
      ledger.memory.lostFrames.length =
        leaks (ledger.spaces.map Prod.snd) + leaks ledger.past ∧
      ledger.memory.pool.freeFrames + ledger.held.length + ledger.memory.lostFrames.length +
        (ledger.spaces.flatMap fun entry => entry.2.frames ledger.memory.ram).length =
        bounds.total - bounds.reserved ∧
      (ledger.held = [] → ledger.spaces = [] →
        ledger.memory.pool.freeFrames + leaks ledger.past = bounds.total - bounds.reserved) ∧
      ledger.KeepsTable bounds ∧
      ∀ command, ledger.Permits command →
        ∃ answer machine, ledger.machine.execute command = .ok (answer, machine) := by
  rcases balanced_of_reaches starts reached with ⟨balanced, table⟩
  rcases FramePool.counters_of_table table with ⟨bootstrapped, total, footprint⟩
  have same := frames_perm_reached ledger.memory.ram ledger.spaces
  have partition := (((same.append_left ledger.memory.lostFrames).append_left
    ledger.held).append_left ledger.memory.pool.available).trans (accounted_perm starts reached)
  have count := count_of_reaches starts reached
  rw [← same.length_eq] at count
  have fits := starts.pool_sound.2.2
  refine ⟨partition, TableBounds.nodup_managed fits, TableBounds.map_number_managed fits, total,
    footprint, balanced.owns.sound.freeFrames_eq bootstrapped, balanced.tally, count, ?_,
    keepsTable_of_reaches (.bootstrapped starts) reached table, ?_⟩
  · intro noneHeld noSpaces
    have tally := balanced.tally
    rw [noSpaces] at count tally
    rw [noneHeld] at count
    simp only [leaks, List.map_nil, List.sum_nil, List.flatMap_nil,
      List.length_nil] at *
    omega
  · intro command permitted
    rcases balanced.continues permitted with ⟨answer, machine, executed, -⟩
    exact ⟨answer, machine, executed⟩

end Ledger

/-- Eight frames of RAM, the lowest of which has become the frame table. -/
def Machine.eightFrames : Machine where
  memory := {
    ram := .filled 1 8 0xA5
    pool := ⟨.ready ⟨⟨1, by decide⟩,
      Array.ofFn fun index : Fin 8 => FreeStack.initialEntry 1 8 index, 1, some 1, 7⟩, 0⟩
    allowance := none
    log := [] }
  spaces := .empty

theorem Machine.starts_eightFrames : eightFrames.Starts ⟨⟨1, by decide⟩, 8, 1⟩ := by
  let early : FramePool := .new (.bump ⟨⟨0x1000⟩, ⟨0x9000⟩⟩)
  have outcome : (early.bootstrap fun _ => true).map (fun reply => (reply.result, reply.pool)) =
      .ok (.ok (), eightFrames.memory.pool) := by
    decide +kernel
  refine ⟨?_, rfl, by decide +kernel, rfl, rfl⟩
  cases replied : early.bootstrap fun _ => true with
  | error panic =>
      rw [replied] at outcome
      cases outcome
  | ok reply =>
      rw [replied] at outcome
      have same := Prod.mk.inj (Except.ok.inj outcome)
      exact ⟨early, _, reply, replied, same.1, same.2⟩

namespace Ledger

/-- A page is declared twice, and its data frame is lost the second time. -/
theorem managed_frames_conserved_after_redeclaration :
    let commands : List Command := [
      .create 0,
      .change 0 (.declare ⟨0x400000⟩ 0x2000 ⟨7⟩ .available),
      .pool .take,
      .access 0 (.attach ⟨0x400000⟩ ⟨4, by decide⟩),
      .change 0 (.declare ⟨0x400000⟩ 0x1000 ⟨5⟩ .available),
      .pool .take]
    ∃ ledger, ownership.follow (start Machine.eightFrames) commands = some ledger ∧
      ledger.memory.lostFrames.length = 1 ∧
      (ledger.spaces.flatMap fun entry => entry.2.frames ledger.memory.ram).length = 2 := by
  intro commands
  have outcome : (ownership.follow (start Machine.eightFrames) commands).map (fun ledger =>
      (ledger.held.length, ledger.memory.pool.freeFrames,
        leaks (ledger.spaces.map Prod.snd) + leaks ledger.past)) = some (1, 3, 1) := by
    decide +kernel
  rcases Option.map_eq_some_iff.mp outcome with ⟨ledger, followed, counted⟩
  have reached := Regime.reaches_of_follow followed
  rcases managed_frames_conserved Machine.starts_eightFrames reached with
    ⟨-, -, -, -, -, -, lost, count, -⟩
  simp only [Prod.mk.injEq] at counted
  dsimp only at count
  refine ⟨ledger, followed, ?_, ?_⟩ <;> omega

end Ledger

end PagedMemory
