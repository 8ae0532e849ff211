import PagedMemory.Proofs.Machine.Fork

/-!
# Spaces do not interfere

All spaces live in one RAM and draw on one pool, which hands frames of one space
on to others.  Still, a command that works on one space leaves every other space
exactly as it was: its record, its tables, what its lookups answer and the bytes
of its frames.  So a space stays the same through any run that works on other
spaces only, even on one that it was copied to or from.
-/

namespace PagedMemory

open Memory

namespace AddressSpace

variable {first second third : Memory} {space : AddressSpace}

theorem Unchanged.refl (tree : first.ram.Tree space.root) : space.Unchanged first first :=
  unchanged_of_kept tree (fun _ => rfl) fun _ _ => rfl

theorem Unchanged.trans (earlier : space.Unchanged first second)
    (later : space.Unchanged second third) : space.Unchanged first third where
  frames := later.frames.trans earlier.frames
  bytes := by
    intro frame member
    have still : frame ∈ space.frames second.ram := by
      rw [earlier.frames]
      exact member
    exact (later.bytes frame still).trans (earlier.bytes frame member)
  lookups := by
    intro address
    rcases earlier.lookups address with ⟨found, before, between⟩
    rcases later.lookups address with ⟨found', between', after⟩
    cases between.symm.trans between'
    exact ⟨found, before, after⟩

end AddressSpace

namespace Ledger

variable {ledger : Ledger} {command : Command} {answer : Answer} {after : Machine} {name : Nat}
  {space : AddressSpace}

/-- A step that concerns clients and one space writes no frame of another. -/
theorem Balanced.kept_of_settles (balanced : ledger.Balanced) {other : Nat}
    {worked : AddressSpace} {memory : Memory} {left : List Frame}
    (about : ledger.machine.spaces.find? other = some worked)
    (settles : Settles ledger.memory (ledger.held ++ ledger.memory.ram.reach worked.root)
      memory left)
    (found : ledger.machine.spaces.find? name = some space) (apart : other ≠ name) :
    ∀ frame ∈ ledger.memory.ram.reach space.root,
      memory.ram.contentsOf frame = ledger.memory.ram.contentsOf frame := by
  intro frame inside
  have owns := balanced.owns.of_perm (balanced.outstanding_of_found about)
  exact settles.kept owns (List.mem_append_right _ (balanced.mem_beside found apart inside))

/-- A space that a command does not work on keeps its record and all of its frames. -/
theorem Balanced.keeps (balanced : ledger.Balanced)
    (outcome : ledger.Outcome command answer after)
    (found : ledger.machine.spaces.find? name = some space)
    (apart : command.worksOn? ≠ some name) :
    after.spaces.find? name = some space ∧
      ∀ frame ∈ ledger.memory.ram.reach space.root,
        after.memory.ram.contentsOf frame = ledger.memory.ram.contentsOf frame := by
  have member := balanced.mem_of_found found
  have differs {other : Nat} (works : command.worksOn? = some other) : other ≠ name := by
    rintro rfl
    exact apart works
  -- A space that is made gets a name that no space had.
  have vacated {other : Nat} (vacant : ledger.machine.spaces.find? other = none) :
      name ≠ other := by
    rintro rfl
    cases vacant.symm.trans found
  cases outcome with
  | missing about missing => exact ⟨found, fun _ _ => rfl⟩
  | settled target settles lostFrames =>
      constructor
      · exact found
      · intro frame inside
        apply settles.kept balanced.owns
        exact List.mem_append_right _ (List.mem_flatMap.mpr ⟨(name, space), member, inside⟩)
  | bootstrapped early bootstrapped changed =>
      exact ⟨found, fun frame _ => congrArg (·.contentsOf frame) changed.ram⟩
  | created vacant creates =>
      cases creates with
      | created extension tree zeroed =>
          constructor
          · rw [SpaceTable.find?_insert, if_neg (vacated vacant), found]
          · intro frame inside
            exact balanced.kept extension.exchange (mem_outstanding member inside)
  | forked source vacant forked =>
      constructor
      · rw [SpaceTable.find?_insert, if_neg (vacated vacant), found]
      · intro frame inside
        exact balanced.kept forked.extension.exchange (mem_outstanding member inside)
  | changed about changes =>
      have other := differs rfl
      constructor
      · rw [SpaceTable.find?_insert, if_neg other.symm, found]
      · have settles := (Settles.of_exchange changes.reshapes.exchange).behind ledger.held
        exact balanced.kept_of_settles about settles found other
  | accessed about serves =>
      exact ⟨found, balanced.kept_of_settles about serves.settles found (differs rfl)⟩
  | removed removes about returns =>
      have other := differs (by rcases removes with rfl | rfl <;> rfl)
      constructor
      · rw [SpaceTable.find?_erase, if_neg other.symm, found]
      · intro frame _
        rw [returns.ram]

/-- A space that a command does not work on looks the same afterwards. -/
theorem Balanced.unchanged_of_outcome (balanced : ledger.Balanced)
    (outcome : ledger.Outcome command answer after)
    (found : ledger.machine.spaces.find? name = some space)
    (apart : command.worksOn? ≠ some name) :
    after.spaces.find? name = some space ∧ space.Unchanged ledger.memory after.memory := by
  have tree := (balanced.sound_of_found found).tree
  rcases balanced.advances outcome with ⟨-, follows⟩
  rcases balanced.keeps outcome found apart with ⟨still, kept⟩
  exact ⟨still, AddressSpace.unchanged_of_kept tree follows.extent kept⟩

/-- A space looks the same after any run that does not work on it. -/
theorem Balanced.unchanged_of_reaches (balanced : ledger.Balanced) {later : Ledger}
    (found : ledger.machine.spaces.find? name = some space)
    (reached : (ownership.among fun command => command.worksOn? ≠ some name).Reaches ledger
      later) :
    later.machine.spaces.find? name = some space ∧
      space.Unchanged ledger.memory later.memory := by
  induction reached with
  | refl => exact ⟨found, .refl (balanced.sound_of_found found).tree⟩
  | step earlier allowed executed induction =>
      rcases allowed with ⟨permitted, apart⟩
      rcases induction with ⟨still, unchanged⟩
      have before := (balanced.of_reaches earlier.widen).1
      rcases before.unchanged_of_outcome (before.outcome permitted executed) still apart with
        ⟨found', unchanged'⟩
      exact ⟨found', unchanged.trans unchanged'⟩

/--
At every point of a run, a live space is as it was after every command that does
not work on it, whether the command succeeds or not: it has the same record, the
same tables and frames with the same bytes, and lookups answer the same.  So it is
after every run of such commands.  What the pool writes to its table does not count:
the entries lie in frames that no space has.
-/
theorem spaces_do_not_interfere {machine : Machine} (fresh : machine.Fresh)
    (reached : ownership.Reaches (start machine) ledger)
    (found : ledger.machine.spaces.find? name = some space) :
    (∀ command, ledger.Permits command → command.worksOn? ≠ some name →
      ∃ answer after, ledger.machine.execute command = .ok (answer, after) ∧
        after.spaces.find? name = some space ∧ space.Unchanged ledger.memory after.memory) ∧
      (∀ later, (ownership.among fun command => command.worksOn? ≠ some name).Reaches ledger
          later →
        later.machine.spaces.find? name = some space ∧
          space.Unchanged ledger.memory later.memory) ∧
      ∀ bounds, ledger.memory.pool.territory = .table bounds → ledger.KeepsTable bounds := by
  have balanced := (fresh.balanced.of_reaches reached).1
  refine ⟨?_, ?_, fun bounds => keepsTable_of_reaches fresh reached⟩
  · intro command permitted apart
    rcases balanced.answers permitted with ⟨answer, after, executed, outcome⟩
    exact ⟨answer, after, executed, balanced.unchanged_of_outcome outcome found apart⟩
  · intro later since
    exact balanced.unchanged_of_reaches found since

/-- One space is written, loses a data frame and runs out of frames; the other does not notice. -/
theorem spaces_do_not_interfere_under_pressure :
    let commands : List Command := [
      .create 0,
      .change 0 (.declare ⟨0x400000⟩ 0x1000 ⟨7⟩ .available),
      .access 0 (.fault ⟨0x400000⟩),
      .create 1,
      .change 1 (.declare ⟨0x400000⟩ 0x2000 ⟨7⟩ .available),
      .access 1 (.fault ⟨0x400000⟩)]
    let others : List Command := [
      .access 1 (.storeAt ⟨0x400000⟩ 0x12345678),
      .change 1 (.declare ⟨0x400000⟩ 0x1000 ⟨5⟩ .available),
      .access 1 (.fault ⟨0x400000⟩),
      .access 1 (.fault ⟨0x401000⟩)]
    ∃ ledger space later, ownership.follow (start Machine.eightFrames) commands = some ledger ∧
      ledger.machine.spaces.find? 0 = some space ∧ ownership.follow ledger others = some later ∧
      later.memory.lostFrames.length = 1 ∧ later.memory.pool.freeFrames = 0 ∧
      later.machine.spaces.find? 0 = some space ∧ space.Unchanged ledger.memory later.memory := by
  intro commands others
  have outcome : (ownership.follow (start Machine.eightFrames) commands).bind (fun ledger =>
      (ownership.follow ledger others).map fun later => (ledger.machine.spaces.holds 0,
        later.memory.lostFrames.length, later.memory.pool.freeFrames)) =
      some (true, 1, 0) := by
    decide +kernel
  rcases Option.bind_eq_some_iff.mp outcome with ⟨ledger, followed, continued⟩
  rcases Option.map_eq_some_iff.mp continued with ⟨later, followed', observed⟩
  simp only [Prod.mk.injEq] at observed
  rcases observed with ⟨live, lost, free⟩
  rcases Option.isSome_iff_exists.mp live with ⟨space, found⟩
  have reached := Regime.reaches_of_follow followed
  have since : (ownership.among fun command => command.worksOn? ≠ some 0).Reaches ledger later :=
    Regime.reaches_among_of_follow (by decide) followed'
  rcases spaces_do_not_interfere (.bootstrapped Machine.starts_eightFrames) reached found with
    ⟨-, untouched, -⟩
  rcases untouched later since with ⟨still, unchanged⟩
  exact ⟨ledger, space, later, followed, found, followed', lost, free, still, unchanged⟩

end Ledger

end PagedMemory
