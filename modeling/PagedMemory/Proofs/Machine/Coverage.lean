import PagedMemory.Proofs.Machine.Directories
import PagedMemory.Proofs.Machine.PageMaps

/-!
# Tables cover what was declared

In every run that obeys frame ownership, a space has tables exactly where something
was declared: every page that was declared with success is covered from then on, and
every table covers a page of some region, or of the user stack if that was asked for.
A table stays where it is for as long as the space lives.
-/

namespace PagedMemory

open Memory

/-! ## Accesses leave directories alone -/

namespace AddressSpace

variable {memory : Memory} {space : AddressSpace} {rest : List Frame}

/-- Whatever a computation does, it writes no directory slot of a space. -/
def KeepsDirectory {α : Type} (space : AddressSpace) (program : MemoryM α) (memory : Memory) :
    Prop :=
  Leaves program memory fun _ after =>
    after.ram.contentsOf space.root = memory.ram.contentsOf space.root

theorem attach_keepsDirectory (skeleton : memory.ram.Skeleton space.root) (address : VirtAddr)
    (frame : Frame) : space.KeepsDirectory (space.attach address frame) memory := by
  refine (Leaves.of_ensures (attach_attempts_of_skeleton skeleton address frame)).imp ?_
  intro outcome after attempts
  cases attempts with
  | undeclared absent => rfl
  | alreadyBacked named backed => rfl
  | written named unmapped writes =>
      exact writes.replaced.others space.root (skeleton.apart _ _ named).symm

/-- Taking a frame writes none that is owned. -/
theorem kept_of_obtains {before after : Memory} {frames : List Frame} {contents : FrameContents}
    {result : Except TakeError Frame} (owns : before.Owns frames)
    (obtains : Obtains before contents result after) {frame : Frame} (member : frame ∈ frames) :
    after.ram.contentsOf frame = before.ram.contentsOf frame := by
  cases result with
  | error refusal => rw [obtains.ram_of_refused]
  | ok taken => exact obtains.extension.kept owns member

theorem serveFault_keepsDirectory (owns : memory.Owns (memory.ram.bones space.root))
    (skeleton : memory.ram.Skeleton space.root) (address : VirtAddr) :
    space.KeepsDirectory (space.serveFault address) memory := by
  unfold KeepsDirectory serveFault
  cases space.rightsAt? address with
  | none => exact Leaves.pure rfl
  | some rights =>
      refine (Leaves.of_ensures (takeZeroed_ensures owns)).bind ?_
      intro result between obtains
      have kept (frame : Frame) (member : frame ∈ memory.ram.bones space.root) :
          between.ram.contentsOf frame = memory.ram.contentsOf frame :=
        kept_of_obtains owns obtains member
      have keptRoot := kept space.root List.mem_cons_self
      cases result with
      | error refusal => exact Leaves.pure keptRoot
      | ok frame =>
          have still := skeleton.congr obtains.exchange.extent kept
          refine (attach_keepsDirectory still address frame).bind ?_
          intro outcome later attached
          cases outcome with
          | ok _ => exact Leaves.pure (attached.trans keptRoot)
          | error refusal =>
              intro answer after returns
              rcases bind_eq_ok.mp returns with ⟨_, given, released, finished⟩
              rcases onPool_eq_ok.mp released with ⟨reply, -, -, rfl⟩
              rcases pure_eq_ok.mp finished with ⟨-, rfl⟩
              exact attached.trans keptRoot

end AddressSpace

namespace SpaceAccess

open AddressSpace

variable {memory : Memory} {space : AddressSpace} {rest : List Frame}

/-- An access to the data frame behind an address, if there is one. -/
theorem withFrame_keepsDirectory (tree : memory.ram.Tree space.root) (address : VirtAddr)
    {use : Frame → MemoryM Answer}
    (uses : ∀ frame, memory.ram.holds frame = true → frame ≠ space.root →
      space.KeepsDirectory (use frame) memory) :
    space.KeepsDirectory (withFrame space address use) memory := by
  refine (Leaves.of_ensures (frameBehind_ensures tree address)).bind ?_
  rintro found memory ⟨rfl, rfl⟩
  cases behind : memory.ram.behind space.root address.block with
  | none => exact Leaves.pure rfl
  | some frame =>
      exact uses frame (tree.held frame (Ram.behind_mem_reach behind)) (tree.behind_apart behind).1

/-- Writing some frame other than the directory. -/
theorem keepsDirectory_of_writes {write : MemoryM Unit} {frame : Frame}
    {contents : FrameContents} {answer : Answer} (apart : frame ≠ space.root)
    (writes : Ensures write memory fun _ after => Writes memory frame contents after) :
    space.KeepsDirectory (do write; return answer) memory := by
  refine (Leaves.of_ensures writes).bind ?_
  intro _ after writes
  exact Leaves.pure (writes.replaced.others space.root apart.symm)

theorem run_keepsDirectory (owns : memory.Owns (memory.ram.reach space.root))
    (tree : memory.ram.Tree space.root) (command : SpaceAccess) :
    space.KeepsDirectory (command.run space) memory := by
  have bones : memory.Owns (memory.ram.bones space.root) :=
    (owns.of_perm (memory.ram.reach_perm_bones space.root)).left
  cases command with
  | attach address frame =>
      exact (attach_keepsDirectory tree.skeleton address frame).bind
        fun outcome after kept => Leaves.pure kept
  | fault address =>
      exact (serveFault_keepsDirectory bones tree.skeleton address).bind
        fun outcome after kept => Leaves.pure kept
  | fillAt address byte =>
      exact withFrame_keepsDirectory tree address fun frame held apart =>
        keepsDirectory_of_writes apart (fillFrame_ensures held byte)
  | storeAt address word =>
      exact withFrame_keepsDirectory tree address fun frame held apart =>
        keepsDirectory_of_writes apart
          (writeWord_ensures held (RamCommand.wordIndex_lt address) word)
  | hashAt address =>
      refine withFrame_keepsDirectory tree address fun frame held apart => ?_
      refine (Leaves.of_ensures (contents_ensures held)).bind ?_
      rintro found after ⟨rfl, -⟩
      exact Leaves.pure rfl
  | frameBehind address =>
      refine (Leaves.of_ensures (frameBehind_ensures tree address)).bind ?_
      rintro found after ⟨rfl, -⟩
      exact Leaves.pure rfl
  | layout =>
      refine (Leaves.of_ensures (layout_ensures tree)).bind ?_
      rintro found after ⟨rfl, -⟩
      exact Leaves.pure rfl
  | activate slots enabled => exact Leaves.pure rfl
  | rightsAt address => exact Leaves.pure rfl
  | regions => exact Leaves.pure rfl
  | inspectRegions => exact Leaves.pure rfl
  | contains address => exact Leaves.pure rfl
  | regionPages => exact Leaves.pure rfl
  | inspect => exact Leaves.pure rfl

end SpaceAccess

namespace Ledger

variable {ledger : Ledger} {command : Command} {answer : Answer} {after : Machine} {name : Nat}
  {space : AddressSpace}

/-! ## Commands that obey frame ownership -/

theorem Balanced.owns_reach (balanced : ledger.Balanced)
    (found : ledger.machine.spaces.find? name = some space) :
    ledger.memory.Owns (ledger.memory.ram.reach space.root) :=
  (balanced.owns_of_found found).right

theorem Balanced.owns_bones (balanced : ledger.Balanced)
    (found : ledger.machine.spaces.find? name = some space) :
    ledger.memory.Owns (ledger.memory.ram.bones space.root) :=
  ((balanced.owns_reach found).of_perm (ledger.memory.ram.reach_perm_bones space.root)).left

/-- A copy has the slots of its source if that has regions, and none otherwise. -/
theorem slots_of_forked {before after : Memory} {copy : AddressSpace}
    (forked : AddressSpace.Forked before space copy after) (index : Nat) :
    (after.ram.slot copy.root index).isSome = true ↔
      space.regions.entries ≠ [] ∧ (before.ram.slot space.root index).isSome = true := by
  by_cases regions : space.regions.entries = []
  · rw [Ram.slot, (forked.fresh regions).2, FrameContents.slot_zero]
    simp [regions]
  · rw [AddressSpace.isSome_of_rel ((forked.deep regions).2 index)]
    exact (and_iff_right regions).symm

/-- The space that a command has made or worked on, from what the command came to. -/
theorem Balanced.retables (balanced : ledger.Balanced) (permitted : ledger.Permits command)
    (executed : ledger.machine.execute command = .ok (answer, after))
    (target : command.target? answer = some name) :
    ledger.machine.Retables name command answer after := by
  cases balanced.outcome permitted executed with
  | missing about missing =>
      cases about.symm.trans (Command.subject?_of_target? target)
      exact .missing missing missing
  | settled nowhere settles lostFrames => cases nowhere.symm.trans target
  | bootstrapped early bootstrapped changed => cases target
  | created vacant creates =>
      cases target
      cases creates with
      | created extension tree zeroed =>
          exact .created vacant (SpaceTable.find?_insert_self _ _ _) rfl zeroed
  | forked about vacant forked =>
      cases target
      have recorded := congrArg (List.flatMap Region.pages) forked.entries
      exact .forked about vacant (SpaceTable.find?_insert_self _ _ _) recorded
        (slots_of_forked forked)
  | @changed _ command _ space changed _ memory about changes =>
      cases target
      -- The outcome does not say what has been recorded, so the command is looked at again.
      rcases ledger with ⟨machine, held, past⟩
      rw [Machine.execute, Machine.withSpace_of_found about] at executed
      rcases Checked.bind_eq_ok.mp executed with ⟨⟨⟨reply, later⟩, between⟩, returns, answered⟩
      cases answered
      rcases SpaceCommand.run_redeclares (balanced.owns_bones about)
        (balanced.sound_of_found about).tree.skeleton command _ _ returns with
        ⟨added, built, redeclares⟩
      exact .changed about (SpaceTable.find?_insert_self _ _ _) redeclares
  | @accessed _ command _ space memory about serves =>
      cases target
      rcases ledger with ⟨machine, held, past⟩
      rw [Machine.execute, Machine.withSpace_of_found about] at executed
      rcases Checked.bind_eq_ok.mp executed with ⟨⟨reply, between⟩, returns, answered⟩
      cases answered
      exact .accessed about about (SpaceAccess.run_keepsDirectory (balanced.owns_reach about)
        (balanced.sound_of_found about).tree command _ _ returns)
  | removed removes about returns =>
      cases (Command.target?_of_removes removes _).symm.trans target
      refine .removed removes ?_
      rw [SpaceTable.find?_erase, if_pos rfl]

theorem Balanced.rewires (balanced : ledger.Balanced) (permitted : ledger.Permits command)
    (executed : ledger.machine.execute command = .ok (answer, after)) :
    ledger.machine.Rewires command answer after where
  target _ target := balanced.retables permitted executed target
  records _ apart := (balanced.outcome permitted executed).find?_of_ne apart
  directories name space apart found := by
    have works : command.worksOn? ≠ some name :=
      fun works => apart (Command.target?_of_worksOn? works answer)
    have outcome := balanced.outcome permitted executed
    exact (balanced.keeps outcome found works).2 _ (Ram.root_mem_reach _ _)

/-! ## Runs -/

/-- Runs that obey frame ownership, with the lineages that spaces come to have. -/
abbrev tracing : Regime (Ledger × (Nat → Lineage)) :=
  ownership.recording fun ledger lineage command answer _ =>
    ledger.machine.traced lineage command answer

/-- Directories stand as lineages say in every run. -/
theorem tabled_of_reaches {machine : Machine} {state : Ledger × (Nat → Lineage)}
    (fresh : machine.Fresh) (traces : tracing.Reaches (start machine, fun _ => []) state) :
    state.1.machine.Tabled state.2 := by
  induction traces with
  | refl =>
      intro name space found
      change machine.spaces.find? name = some space at found
      rw [fresh.spaces] at found
      cases found
  | step traced permitted executed induction =>
      have balanced := (fresh.balanced.of_reaches traced.forget).1
      exact induction.rewires (balanced.rewires permitted executed)

/-- The tables of a space stay where they are through every run that does not end the space. -/
theorem Balanced.tables_stay (balanced : ledger.Balanced) {later : Ledger}
    (found : ledger.machine.spaces.find? name = some space)
    (since : (ownership.among fun command =>
      command ≠ .destroy name ∧ command ≠ .discard name).Reaches ledger later) :
    ∃ current, later.machine.spaces.find? name = some current ∧ current.root = space.root ∧
      ∀ index table, ledger.memory.ram.slot space.root index = some table →
        later.memory.ram.slot space.root index = some table := by
  induction since with
  | refl => exact ⟨space, found, rfl, fun _ _ named => named⟩
  | step earlier allowed executed induction =>
      rcases allowed with ⟨permitted, stays⟩
      rcases induction with ⟨current, found', root, kept⟩
      have before := (balanced.of_reaches earlier.widen).1
      rcases (before.rewires permitted executed).stays found' stays with
        ⟨next, found'', root', -, kept'⟩
      rw [root] at root' kept'
      exact ⟨next, found'', root', fun index table named =>
        kept' index table (kept index table named)⟩

end Ledger

namespace AddressSpace

/-- The table that the directory of a space names at a slot. -/
def tableAt? (space : AddressSpace) (memory : Memory) (index : Nat) : Option Frame :=
  match directorySlot space.root index memory with
  | .ok (.table table, _) => some table
  | .ok (.absent, _) | .error _ => none

theorem tableAt?_eq {space : AddressSpace} {memory : Memory}
    (held : memory.ram.holds space.root = true) (index : Nat) :
    space.tableAt? memory index = memory.ram.slot space.root index := by
  unfold tableAt?
  by_cases bounded : index < slotsPerTable
  · rcases directorySlot_ensures held bounded with ⟨slot, after, returns, rfl, rfl⟩
    rw [returns]
    cases after.ram.slot space.root index <;> rfl
  · rw [Ram.slot_of_le (Nat.le_of_not_lt bounded)]
    split
    next table after returns =>
      rcases bind_eq_ok.mp returns with ⟨word, between, read, -⟩
      rcases Checked.bind_eq_ok.mp (inspectRam_eq_ok.mp read).1 with ⟨contents, -, got⟩
      rw [FrameContents.get, dif_neg bounded] at got
      cases got
    · rfl
    · rfl

/-- A frame for a covered page is never refused for want of a declaration. -/
theorem attach_of_covered {space : AddressSpace} {memory : Memory} {address : VirtAddr}
    (skeleton : memory.ram.Skeleton space.root)
    (covered : memory.ram.covers space.root address.block = true) (frame : Frame) :
    ∃ result after, space.attach address frame memory = .ok (result, after) ∧
      ∀ other, result ≠ .error (.undeclared other) := by
  rcases attach_attempts_of_skeleton skeleton address frame with
    ⟨result, after, returns, attempts⟩
  refine ⟨result, after, returns, ?_⟩
  cases attempts with
  | written named unmapped writes => exact nofun
  | alreadyBacked named backed => exact nofun
  | undeclared absent =>
      rw [Ram.covers, absent] at covered
      cases covered

end AddressSpace

namespace Ledger

variable {ledger : Ledger} {machine : Machine} {lineage : Nat → Lineage} {name : Nat}
  {space : AddressSpace}

/--
In every run a live space has tables exactly where something was declared.  What was
declared with success, of the space or of one that it goes back to, is covered, so a
frame for any of its addresses is not refused as undeclared.  Every table covers a page
of a region, or a page of the user stack, which has been asked for then.  No table is
removed or replaced while the space lives, and a copy of it has the same slots filled if
the space has regions, and none otherwise.
-/
theorem tables_cover_declarations (fresh : machine.Fresh)
    (traces : tracing.Reaches (start machine, fun _ => []) (ledger, lineage))
    (found : ledger.machine.spaces.find? name = some space) :
    (∀ command answer, (command, answer) ∈ lineage name → answer.accepted = true →
      ∀ address : VirtAddr, (address.block : Page) ∈ command.pages →
        (space.tableAt? ledger.memory (Page.directoryIndex address.block)).isSome = true ∧
        ∀ frame, ∃ result after, space.attach address frame ledger.memory = .ok (result, after) ∧
          ∀ other, result ≠ .error (.undeclared other)) ∧
    (∀ index table, space.tableAt? ledger.memory index = some table →
      (∃ region ∈ space.regions.entries, ∃ page ∈ region.pages, page.directoryIndex = index) ∨
      (∃ page ∈ AddressSpace.stackRun, page.directoryIndex = index) ∧
        ∃ answer, (SpaceCommand.declareStack, answer) ∈ lineage name) ∧
    (∀ later, (ownership.among fun command =>
        command ≠ .destroy name ∧ command ≠ .discard name).Reaches ledger later →
      ∃ current, later.machine.spaces.find? name = some current ∧ current.root = space.root ∧
        ∀ index table, space.tableAt? ledger.memory index = some table →
          current.tableAt? later.memory index = some table) ∧
    ∀ copy heap root after,
      ledger.machine.execute (.fork name copy heap) = .ok (.frame root, after) →
        ∃ made, after.spaces.find? copy = some made ∧
          ∀ index, (made.tableAt? after.memory index).isSome = true ↔
            space.regions.entries ≠ [] ∧ (space.tableAt? ledger.memory index).isSome = true := by
  have balanced := (fresh.balanced.of_reaches traces.forget).1
  have tree := (balanced.sound_of_found found).tree
  have tabled : space.Tabled ledger.memory.ram (lineage name) :=
    tabled_of_reaches fresh traces name space found
  have tableAt (index : Nat) :
      space.tableAt? ledger.memory index = ledger.memory.ram.slot space.root index :=
    AddressSpace.tableAt?_eq tree.held_root index
  refine ⟨?_, ?_, ?_, ?_⟩
  · intro command answer entry accepted address member
    have covered := tabled.covered command answer entry accepted address.block member
    refine ⟨?_, AddressSpace.attach_of_covered tree.skeleton covered⟩
    rw [tableAt]
    exact covered
  · intro index table named
    rw [tableAt] at named
    rcases tabled.origin index table named with ⟨page, place, recorded | ⟨stack, asked⟩⟩
    · rcases AddressSpace.mem_recorded.mp recorded with ⟨region, member, inside⟩
      exact Or.inl ⟨region, member, page, inside, place⟩
    · exact Or.inr ⟨⟨page, stack, place⟩, asked⟩
  · intro later since
    rcases balanced.tables_stay found since with ⟨current, found', root, kept⟩
    have afterwards := (balanced.of_reaches since.widen).1
    refine ⟨current, found', root, fun index table named => ?_⟩
    rw [tableAt] at named
    rw [AddressSpace.tableAt?_eq (afterwards.sound_of_found found').tree.held_root, root]
    exact kept index table named
  · intro copy heap root after executed
    rcases balanced.forked_of_execute found executed with ⟨made, located, forked⟩
    refine ⟨made, located, fun index => ?_⟩
    rw [AddressSpace.tableAt?_eq forked.tree.held_root, tableAt]
    exact slots_of_forked forked index

/-- A range crosses two slots; of another one only the first slot gets its table. -/
theorem tables_cover_declarations_half_built :
    let commands : List Command := [
      .create 0,
      .change 0 (.declare ⟨0x3FF000⟩ 0x2000 ⟨7⟩ .available),
      .change 0 .declareStack,
      .pool (.allow (some 1)),
      .change 0 (.declare ⟨0xBFF000⟩ 0x2000 ⟨5⟩ .available)]
    let rest : List Command := [.change 0 (.declare ⟨0xBFF000⟩ 0x2000 ⟨7⟩ .available)]
    ∃ ledger lineage space later,
      tracing.follow (start Machine.eightFrames, fun _ => []) commands = some (ledger, lineage) ∧
      ledger.machine.spaces.find? 0 = some space ∧
      (lineage 0).map (fun entry => entry.2.accepted) = [true, true, false] ∧
      (∃ result after, space.attach ⟨0x400FFF⟩ ⟨8, by decide⟩ ledger.memory =
        .ok (result, after) ∧ ∀ other, result ≠ .error (.undeclared other)) ∧
      space.tableAt? ledger.memory 2 = some ⟨6, by decide⟩ ∧
      space.tableAt? ledger.memory 3 = none ∧
      (∃ region ∈ space.regions.entries, ∃ page ∈ region.pages, page.directoryIndex = 2) ∧
      ownership.follow ledger rest = some later ∧
      ∃ current, later.machine.spaces.find? 0 = some current ∧
        current.tableAt? later.memory 2 = some ⟨6, by decide⟩ := by
  intro commands rest
  have outcome : (tracing.follow (start Machine.eightFrames, fun _ => []) commands).bind
      (fun traced => (traced.1.machine.spaces.find? 0).bind fun space =>
        (ownership.follow traced.1 rest).map fun _ =>
          (traced.2 0, space.tableAt? traced.1.memory 2, space.tableAt? traced.1.memory 3)) =
      some ([(.declare ⟨0x3FF000⟩ 0x2000 ⟨7⟩ .available, .done),
        (.declareStack, .address ⟨0x80000000⟩),
        (.declare ⟨0xBFF000⟩ 0x2000 ⟨5⟩ .available, .refused (.space .outOfFrames))],
        some ⟨6, by decide⟩, none) := by
    decide +kernel
  rcases Option.bind_eq_some_iff.mp outcome with ⟨⟨ledger, lineage⟩, ran, outcome⟩
  rcases Option.bind_eq_some_iff.mp outcome with ⟨space, found, outcome⟩
  rcases Option.map_eq_some_iff.mp outcome with ⟨later, followed, observed⟩
  simp only [Prod.mk.injEq] at observed
  rcases observed with ⟨asked, built, missing⟩
  have fresh : Machine.eightFrames.Fresh := .bootstrapped Machine.starts_eightFrames
  rcases tables_cover_declarations fresh (Regime.reaches_of_follow ran) found with
    ⟨covered, origin, stay, -⟩
  have declared : (.declare ⟨0x3FF000⟩ 0x2000 ⟨7⟩ .available, .done) ∈ lineage 0 := by
    rw [asked]
    exact List.mem_cons_self
  have attached := (covered _ _ declared rfl ⟨0x400FFF⟩ (by decide +kernel)).2 ⟨8, by decide⟩
  have region := (origin 2 _ built).resolve_right fun stack =>
    absurd stack.1 (by decide +kernel)
  rcases stay later (Regime.reaches_among_of_follow (by decide) followed) with
    ⟨current, found', -, kept⟩
  refine ⟨ledger, lineage, space, later, ran, found, ?_, attached, built, missing, region,
    followed, current, found', kept 2 _ built⟩
  rw [asked]
  rfl

end Ledger

end PagedMemory
