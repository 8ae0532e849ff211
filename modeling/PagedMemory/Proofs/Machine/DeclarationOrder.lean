import Mathlib.Data.Finset.Dedup
import Mathlib.Data.List.Find
import PagedMemory.Proofs.Machine.Declaration
import PagedMemory.Proofs.Machine.Directories

/-!
# The order of declarations

Several declarations in a row share tables: which one builds the table of a slot
depends on their order, and so does what each of them costs.  What they come to
together does not.  All of them succeed if there is a frame for every slot that is
missing at the beginning; then exactly these slots have been filled, whichever
declaration has filled which, and the recorded regions are those of the commands.

Regions without a common page can be listed in any order, because no address has
two of them around it.  So a space that was laid out by declarations can be told
from the declarations as a set.
-/

namespace PagedMemory

open Memory

namespace SpaceCommand

variable {memory after : Memory} {space changed : AddressSpace} {rest : List Frame}
  {command : SpaceCommand} {commands : List SpaceCommand}

/-- Run commands one after the other, with their answers. -/
def runAll (space : AddressSpace) : List SpaceCommand → MemoryM (List Answer × AddressSpace)
  | [] => return ([], space)
  | command :: rest => do
      let (answer, space) ← command.run space
      let (answers, space) ← runAll space rest
      return (answer :: answers, space)

/-- A declaration that can only fail for want of frames. -/
inductive Declares : SpaceCommand → Prop
  | region {start : VirtAddr} {size : UInt32} {rights : Rights}
      (valid : AddressSpace.ValidRange start size) :
      Declares (.declare start size rights .available)
  | stack : Declares .declareStack

/-- The region that a declaration records. -/
def region? : SpaceCommand → Option Region
  | .declare start size rights _ => some (AddressSpace.regionOf start size rights)
  | .declareStack | .openWindow | .closeWindow => none

/-! ## What declarations come to -/

/-- All pages of some declarations have been declared, and their regions recorded. -/
structure LaysOut (commands : List SpaceCommand) (before : Memory) (space changed : AddressSpace)
    (after : Memory) : Prop where
  reshapes : ∃ lost, Reshapes before space.root (commands.flatMap pages) lost after
  furnishes : Furnishes before space.root (commands.flatMap pages) after
  root : changed.root = space.root
  regions : changed.regions.entries = space.regions.entries ++ commands.filterMap region?

theorem LaysOut.refl (sound : memory.pool.Sound) (tree : memory.ram.Tree space.root) :
    LaysOut [] memory space space memory where
  reshapes := ⟨[], .refl sound tree⟩
  furnishes := .refl memory space.root
  root := rfl
  regions := (List.append_nil _).symm

theorem LaysOut.cons {between : Memory} {middle : AddressSpace}
    (first : LaysOut [command] memory space middle between)
    (others : LaysOut commands between middle changed after) :
    LaysOut (command :: commands) memory space changed after where
  reshapes := by
    obtain ⟨lost, reshapes⟩ := first.reshapes
    obtain ⟨more, later⟩ := others.reshapes
    rw [first.root] at later
    have whole := reshapes.trans later
    rw [← List.flatMap_append] at whole
    exact ⟨_, whole⟩
  furnishes := by
    have later := others.furnishes
    rw [first.root] at later
    have whole := first.furnishes.trans later
    rw [← List.flatMap_append] at whole
    exact whole
  root := others.root.trans first.root
  regions := by
    rw [others.regions, first.regions, List.append_assoc, ← List.filterMap_append]
    rfl

/-- The pages of the user stack ascend. -/
theorem ascending_stackRun :
    AddressSpace.stackRun.Pairwise fun page other => page.number < other.number :=
  Block.ascending_run (by decide)

/-- What the course of a single declaration comes to. -/
theorem LaysOut.of_course {pages : List Page} {lost : List Frame}
    (course : AddressSpace.Course memory space pages pages lost (.ok ()) changed after)
    (declared : command.pages = pages)
    (regions : changed.regions.entries = space.regions.entries ++ command.region?.toList) :
    LaysOut [command] memory space changed after := by
  have single : [command].flatMap SpaceCommand.pages = pages := by
    rw [List.flatMap_singleton, declared]
  refine ⟨⟨lost, ?_⟩, ?_, course.root, ?_⟩
  · rw [single]
    exact course.reshapes
  · rw [single]
    exact course.furnishes
  · rw [regions]
    cases recorded : command.region? <;> simp [recorded]

theorem LaysOut.record (laysOut : LaysOut commands memory space changed after) {event : Event}
    (quiet : event.lostFrame? = none) :
    LaysOut commands memory space changed { after with log := event :: after.log } where
  reshapes := by
    obtain ⟨lost, reshapes⟩ := laysOut.reshapes
    exact ⟨lost, reshapes.record quiet⟩
  furnishes := laysOut.furnishes.record event
  root := laysOut.root
  regions := laysOut.regions

/-- A declaration succeeds if there are frames for all tables that it misses. -/
theorem run_laysOut (owns : memory.Owns (memory.ram.reach space.root ++ rest))
    (tree : memory.ram.Tree space.root) (declares : command.Declares)
    (enough : Nat.count (memory.ram.Missing space.root command.pages) slotsPerTable ≤
      memory.grants) :
    Ensures (command.run space) memory fun outcome after =>
      outcome.1.accepted = true ∧ LaysOut [command] memory space outcome.2 after := by
  cases declares with
  | @region start size rights valid =>
      have listed := AddressSpace.pagesOf_of_valid valid
      obtain ⟨roomy, reserved⟩ : ∃ roomy, space.regions.reserve? .available = some roomy := by
        rw [← Option.ne_none_iff_exists', Ne, AddressSpace.reserve?_eq_none_iff]
        exact fun full => nomatch full.1
      refine (AddressSpace.declare_course owns tree valid reserved rights).bind ?_
      rintro ⟨outcome, changed⟩ between ⟨done, lost, course, rfl⟩
      rw [SpaceCommand.pages, listed] at enough
      obtain ⟨rfl, rfl⟩ := course.finishes_of_enough
        (Block.ascending_run (AddressSpace.pageSpan_fits valid)) enough
      refine Ensures.pure ⟨rfl, .of_course course listed ?_⟩
      rw [← AddressSpace.entries_of_reserve? reserved]
      rfl
  | stack =>
      have ran : Ensures space.declareStack memory fun outcome between =>
          (∃ top, outcome.1 = .ok top) ∧
            LaysOut [.declareStack] memory space outcome.2 between := by
        refine (AddressSpace.declareAll_course space owns tree AddressSpace.stackRun).bind ?_
        rintro ⟨outcome, changed⟩ between ⟨done, lost, course, rfl⟩
        obtain ⟨rfl, rfl⟩ := course.finishes_of_enough ascending_stackRun enough
        apply Ensures.record_then
        refine Ensures.pure ⟨⟨_, rfl⟩, (LaysOut.of_course course rfl ?_).record rfl⟩
        exact (List.append_nil _).symm
      refine ran.bind ?_
      rintro ⟨outcome, changed⟩ between ⟨⟨top, rfl⟩, laysOut⟩
      exact Ensures.pure ⟨rfl, laysOut⟩

/-- Declarations succeed one after the other if there are frames for all tables that are
missing at the beginning. -/
theorem runAll_laysOut (owns : memory.Owns (memory.ram.reach space.root ++ rest))
    (tree : memory.ram.Tree space.root) (declares : ∀ command ∈ commands, command.Declares)
    (enough : Nat.count (memory.ram.Missing space.root (commands.flatMap pages)) slotsPerTable ≤
      memory.grants) :
    Ensures (runAll space commands) memory fun outcome after =>
      (∀ answer ∈ outcome.1, answer.accepted = true) ∧
        LaysOut commands memory space outcome.2 after := by
  induction commands generalizing memory space rest with
  | nil => exact Ensures.pure ⟨nofun, .refl owns.sound tree⟩
  | cons command commands induction =>
      rw [List.forall_mem_cons] at declares
      rw [List.flatMap_cons] at enough
      have now := Nat.le_trans (Ram.count_missing_mono memory.ram space.root
        (List.subset_append_left command.pages _) slotsPerTable) enough
      refine (run_laysOut owns tree declares.1 now).bind ?_
      rintro ⟨answer, middle⟩ between ⟨accepted, first⟩
      obtain ⟨lost, reshapes⟩ := first.reshapes
      have furnished := first.furnishes
      rw [List.flatMap_singleton] at furnished
      -- what was missing for all is what the first one has filled and what is missing now
      have cost := furnished.grants_eq
      have total := furnished.count_missing_append (commands.flatMap pages)
      have root : middle.root = space.root := first.root
      have owns' := reshapes.owns owns
      have tree' := reshapes.tree
      have left : Nat.count (between.ram.Missing middle.root (commands.flatMap pages))
          slotsPerTable ≤ between.grants := by
        rw [root]
        omega
      rw [← root] at owns' tree'
      refine (induction owns' tree' declares.2 left).bind ?_
      rintro ⟨answers, changed⟩ after ⟨others, later⟩
      exact Ensures.pure ⟨List.forall_mem_cons.mpr ⟨accepted, others⟩, first.cons later⟩

/-- Declarations that do not compete for pages.  Those of the user stack may be among
them, wherever it lies. -/
structure Independent (commands : List SpaceCommand) : Prop where
  declares : ∀ command ∈ commands, command.Declares
  apart : (commands.filterMap region?).Pairwise fun region other =>
    region.pages.Disjoint other.pages

theorem Independent.perm {reordered : List SpaceCommand} (independent : Independent commands)
    (perm : commands.Perm reordered) : Independent reordered where
  declares command member := independent.declares command (perm.mem_iff.mpr member)
  apart := ((perm.filterMap region?).pairwise_iff fun apart => apart.symm).mp independent.apart

end SpaceCommand

namespace AddressSpace

/-- Two spaces, each with the memory that it is in, are laid out alike: they have the
same rights and the same frames at all addresses, and tables in the same slots; and as
many frames are left. -/
structure Alike (memory : Memory) (space : AddressSpace) (memory' : Memory)
    (space' : AddressSpace) : Prop where
  rights : ∀ address, space.rightsAt? address = space'.rightsAt? address
  lookups : ∀ address, ∃ found, space.frameBehind address memory = .ok (found, memory) ∧
    space'.frameBehind address memory' = .ok (found, memory')
  slots : ∀ slot, (memory.ram.slot space.root slot).isSome =
    (memory'.ram.slot space'.root slot).isSome
  freeFrames : memory.pool.freeFrames = memory'.pool.freeFrames

variable {space changed changed' : AddressSpace} {memory after after' : Memory}
  {commands reordered : List SpaceCommand}

/-- No address has two of some regions without a common page around it, so it does not
matter in which order they have been recorded. -/
theorem rightsAt?_of_perm {recorded added added' : List Region}
    (regions : changed.regions.entries = recorded ++ added)
    (regions' : changed'.regions.entries = recorded ++ added') (perm : added.Perm added')
    (apart : added.Pairwise fun region other => region.pages.Disjoint other.pages)
    (address : VirtAddr) : changed.rightsAt? address = changed'.rightsAt? address := by
  have symmetric : Std.Symm fun region other : Region => region.pages.Disjoint other.pages :=
    ⟨fun _ _ disjoint => disjoint.symm⟩
  have around : {region | region ∈ added ∧ region.contains address = true}.Subsingleton := by
    rintro region ⟨member, inside⟩ other ⟨member', inside'⟩
    by_contra differ
    exact apart.forall member member' differ (Region.contains_iff.mp inside)
      (Region.contains_iff.mp inside')
  have found : changed.regions.find? address = changed'.regions.find? address := by
    rw [RegionList.find?, RegionList.find?, regions, regions', List.find?_append,
      List.find?_append, List.find?_eq_find?_of_perm perm around]
  rw [rightsAt?, rightsAt?, found]

/-- What some declarations lay out does not depend on their order. -/
theorem alike_of_laysOut {bounds : TableBounds}
    (table : memory.pool.territory = .table bounds)
    (independent : SpaceCommand.Independent commands) (perm : commands.Perm reordered)
    (first : SpaceCommand.LaysOut commands memory space changed after)
    (second : SpaceCommand.LaysOut reordered memory space changed' after') :
    Alike after changed after' changed' := by
  obtain ⟨lost, reshapes⟩ := first.reshapes
  obtain ⟨lost', reshapes'⟩ := second.reshapes
  have pages := perm.flatMap_right SpaceCommand.pages
  have member (page : Page) : page ∈ commands.flatMap SpaceCommand.pages ↔
      page ∈ reordered.flatMap SpaceCommand.pages := pages.mem_iff
  refine ⟨?_, fun address => ?_, fun slot => ?_, ?_⟩
  · exact rightsAt?_of_perm first.regions second.regions (perm.filterMap _) independent.apart
  · have tree := reshapes.tree
    have tree' := reshapes'.tree
    rw [← first.root] at tree
    rw [← second.root] at tree'
    refine ⟨_, frameBehind_eq tree address, ?_⟩
    rw [frameBehind_eq tree' address, first.root, second.root, reshapes.declares.behind,
      reshapes'.declares.behind, PageMap.clear, PageMap.clear]
    simp only [member]
  · have same : after.ram.slot space.root slot = none ↔ after'.ram.slot space.root slot = none := by
      rw [first.furnishes.filled, second.furnishes.filled]
      simp only [member]
    rw [first.root, second.root, Bool.eq_iff_iff, Option.isSome_iff_ne_none,
      Option.isSome_iff_ne_none, not_iff_not]
    exact same
  · have free := reshapes.exchange.sound.freeFrames_eq
      (FramePool.counters_of_table (reshapes.exchange.territory.trans table)).1
    have free' := reshapes'.exchange.sound.freeFrames_eq
      (FramePool.counters_of_table (reshapes'.exchange.territory.trans table)).1
    have cost := first.furnishes.available_eq
    have cost' := second.furnishes.available_eq
    have fewer := Ram.count_missing_mono memory.ram space.root pages.subset slotsPerTable
    have more := Ram.count_missing_mono memory.ram space.root pages.symm.subset slotsPerTable
    omega

end AddressSpace

namespace Machine

variable {machine : Machine} {name : Nat} {space changed : AddressSpace} {after : Memory}

/-- Execute commands one after the other, with their answers. -/
def executeAll (machine : Machine) : List Command → Checked (List Answer × Machine)
  | [] => return ([], machine)
  | command :: rest => do
      let (answer, machine) ← machine.execute command
      let (answers, machine) ← machine.executeAll rest
      return (answer :: answers, machine)

/-- Commands to one space work on that space and its memory. -/
theorem executeAll_change {commands : List SpaceCommand} {answers : List Answer}
    (found : machine.spaces.find? name = some space)
    (returns : SpaceCommand.runAll space commands machine.memory =
      .ok ((answers, changed), after)) :
    ∃ spaces, machine.executeAll (commands.map (.change name)) =
        .ok (answers, ⟨after, spaces⟩) ∧
      spaces.find? name = some changed := by
  induction commands generalizing machine space answers with
  | nil =>
      cases returns
      exact ⟨machine.spaces, rfl, found⟩
  | cons command rest induction =>
      obtain ⟨⟨answer, middle⟩, between, ran, continued⟩ := bind_eq_ok.mp returns
      obtain ⟨⟨others, last⟩, later, followed, answered⟩ := bind_eq_ok.mp continued
      cases answered
      have executed := execute_change found ran
      obtain ⟨spaces, executedAll, located⟩ :=
        @induction ⟨between, machine.spaces.insert name middle⟩ middle others
          (SpaceTable.find?_insert_self _ _ _) followed
      refine ⟨spaces, ?_, located⟩
      simp only [List.map_cons, executeAll, executed, bind, Except.bind, executedAll]
      rfl

end Machine

namespace Ledger

variable {machine : Machine} {bounds : TableBounds} {ledger : Ledger}

/-- Declarations without a common page, and any number of declarations of the user stack
among them, succeed in every order if there are frames for all tables that are missing.
Whatever the order, the space is laid out alike in the end. -/
theorem declarations_commute (starts : machine.Starts bounds)
    (reached : ownership.Reaches (start machine) ledger) {name : Nat} {space : AddressSpace}
    (found : ledger.machine.spaces.find? name = some space)
    {commands reordered : List SpaceCommand} (independent : SpaceCommand.Independent commands)
    (perm : commands.Perm reordered)
    (enough : Nat.count (ledger.memory.ram.Missing space.root
      (commands.flatMap SpaceCommand.pages)) slotsPerTable ≤ ledger.memory.pool.freeFrames)
    (allowed : ∀ left ∈ ledger.memory.allowance, Nat.count (ledger.memory.ram.Missing space.root
      (commands.flatMap SpaceCommand.pages)) slotsPerTable ≤ left) :
    ∃ answers answers' after after' changed changed',
      ledger.machine.executeAll (commands.map (.change name)) = .ok (answers, after) ∧
      ledger.machine.executeAll (reordered.map (.change name)) = .ok (answers', after') ∧
      (∀ answer ∈ answers ++ answers', answer.accepted = true) ∧
      after.spaces.find? name = some changed ∧ after'.spaces.find? name = some changed' ∧
      AddressSpace.Alike after.memory changed after'.memory changed' := by
  obtain ⟨balanced, table⟩ := balanced_of_reaches starts reached
  have owns : ledger.memory.Owns (ledger.memory.ram.reach space.root ++ ledger.held) :=
    (balanced.owns_of_found found).of_perm List.perm_append_comm
  have tree := (balanced.sound_of_found found).tree
  have granted : Nat.count (ledger.memory.ram.Missing space.root
      (commands.flatMap SpaceCommand.pages)) slotsPerTable ≤ ledger.memory.grants := by
    rw [← requests_eq_grants owns.sound table]
    split
    next => exact enough
    next left limited => exact Nat.le_min.mpr ⟨allowed left limited, enough⟩
  have granted' := Nat.le_trans (Ram.count_missing_mono ledger.memory.ram space.root
    (perm.flatMap_right SpaceCommand.pages).symm.subset slotsPerTable) granted
  obtain ⟨⟨answers, changed⟩, after, returns, accepted, laysOut⟩ :=
    SpaceCommand.runAll_laysOut owns tree independent.declares granted
  obtain ⟨⟨answers', changed'⟩, after', returns', accepted', laysOut'⟩ :=
    SpaceCommand.runAll_laysOut owns tree (independent.perm perm).declares granted'
  obtain ⟨spaces, executed, located⟩ := Machine.executeAll_change found returns
  obtain ⟨spaces', executed', located'⟩ := Machine.executeAll_change found returns'
  refine ⟨answers, answers', _, _, changed, changed', executed, executed', ?_, located, located',
    AddressSpace.alike_of_laysOut table independent perm laysOut laysOut'⟩
  intro answer member
  rcases List.mem_append.mp member with early | late
  · exact accepted answer early
  · exact accepted' answer late

/-- A region in one slot, one that reaches from that slot into the next, and the user
stack: three tables are built in either order. -/
theorem declarations_commute_in_shared_slot :
    let single : SpaceCommand := .declare ⟨0x400000⟩ 0x1000 ⟨5⟩ .available
    let double : SpaceCommand := .declare ⟨0x7FF000⟩ 0x2000 ⟨7⟩ .available
    let commands := [single, double, .declareStack]
    let reordered := [double, .declareStack, single]
    ∃ ledger answers answers' after after' changed changed',
      ownership.follow (start Machine.eightFrames) [.create 0] = some ledger ∧
      ledger.machine.executeAll (commands.map (.change 0)) = .ok (answers, after) ∧
      ledger.machine.executeAll (reordered.map (.change 0)) = .ok (answers', after') ∧
      after.spaces.find? 0 = some changed ∧ after'.spaces.find? 0 = some changed' ∧
      AddressSpace.Alike after.memory changed after'.memory changed' ∧
      ledger.memory.pool.freeFrames = 6 ∧ after'.memory.pool.freeFrames = 3 := by
  intro single double commands reordered
  have outcome : (ownership.follow (start Machine.eightFrames) [.create 0]).bind (fun ledger =>
      (ledger.machine.spaces.find? 0).bind fun _ =>
        (ledger.machine.executeAll (commands.map (.change 0))).toOption.map fun ran =>
          (ledger.memory.allowance, ledger.memory.pool.freeFrames,
            ran.2.memory.pool.freeFrames)) = some (none, 6, 3) := by
    decide +kernel
  rcases Option.bind_eq_some_iff.mp outcome with ⟨ledger, followed, outcome⟩
  rcases Option.bind_eq_some_iff.mp outcome with ⟨space, found, outcome⟩
  rcases Option.map_eq_some_iff.mp outcome with ⟨⟨answers, after⟩, ran, observed⟩
  simp only [Prod.mk.injEq] at observed
  rcases observed with ⟨unlimited, free, left⟩
  have independent : SpaceCommand.Independent commands := by
    refine ⟨?_, ?_⟩
    · intro command member
      simp only [commands, List.mem_cons, List.not_mem_nil, or_false] at member
      rcases member with rfl | rfl | rfl
      · exact .region (by decide)
      · exact .region (by decide)
      · exact .stack
    · have disjoint : ∀ page ∈ (AddressSpace.regionOf ⟨0x400000⟩ 0x1000 ⟨5⟩).pages,
          page ∉ (AddressSpace.regionOf ⟨0x7FF000⟩ 0x2000 ⟨7⟩).pages := by decide +kernel
      exact List.pairwise_pair.mpr disjoint
  have perm : commands.Perm reordered := by decide
  have needed : Nat.count (ledger.memory.ram.Missing space.root
      (commands.flatMap SpaceCommand.pages)) slotsPerTable ≤ 3 :=
    Ram.count_missing_le ledger.memory.ram space.root
      (by decide +kernel : ∀ page ∈ commands.flatMap SpaceCommand.pages,
        page.directoryIndex ∈ [1, 2, 511]) slotsPerTable
  have reached := Regime.reaches_of_follow followed
  obtain ⟨_, answers', _, after', changed, changed', executed, executed', -, located, located',
      alike⟩ :=
    declarations_commute Machine.starts_eightFrames reached found independent perm (by omega)
      (by simp [unlimited])
  cases (Checked.ok_of_toOption ran).symm.trans executed
  exact ⟨ledger, answers, answers', after, after', changed, changed', followed, executed,
    executed', located, located', alike, free, alike.freeFrames.symm.trans left⟩

end Ledger

end PagedMemory
