import PagedMemory.Proofs.Machine.Client
import PagedMemory.Proofs.Space.LoadWindow
import PagedMemory.Proofs.Space.PageFault

/-!
# What commands do to a space

A command to a live space changes the space and its tree, or works on the memory
behind it.  The one command through which a space takes over a frame of a client
is the attachment; all others leave clients with what they hold.

What becomes of the page map of the space can be told from the command and its
answer: some pages have been declared, or one page has been given a data frame.
-/

namespace PagedMemory

open Memory

namespace SpaceCommand

/-- The pages that a command is to declare. -/
def pages : SpaceCommand → List Page
  | .declare start size _ _ => AddressSpace.pagesOf start size
  | .declareStack => AddressSpace.stackRun
  | .openWindow | .closeWindow => []

/--
The pages that a command has declared, by its answer: all of them, or those before
the first that no table covers, or none if it did not come to declaring pages.
-/
def processed (command : SpaceCommand) (answer : Answer) (covered : Page → Bool) : List Page :=
  match answer with
  | .refused (.space .outOfFrames) => command.pages.takeWhile covered
  | .refused _ => []
  | _ => command.pages

theorem processed_ofResult {α : Type} (command : SpaceCommand) (covered : Page → Bool)
    (value : α → Answer) (granted : ∀ result reason, value result ≠ .refused reason)
    (outcome : Except SpaceError α) :
    command.processed (.ofResult .space value outcome) covered =
      AddressSpace.processed command.pages covered outcome := by
  cases outcome with
  | error refusal => cases refusal <;> rfl
  | ok result =>
      have answered := granted result
      unfold processed
      simp only [Answer.ofResult, AddressSpace.processed]
      split
      · exact absurd ‹_› (answered _)
      · exact absurd ‹_› (answered _)
      · rfl

/-- A command that is to declare no pages declares none. -/
theorem processed_nil {command : SpaceCommand} (none : command.pages = []) (answer : Answer)
    (covered : Page → Bool) : command.processed answer covered = [] := by
  unfold processed
  rw [none]
  split <;> rfl

/-- Commands that change what a space records about itself. -/
theorem run_ensures {memory : Memory} {rest : List Frame} {space : AddressSpace}
    (owns : memory.Owns (memory.ram.reach space.root ++ rest))
    (sound : space.Sound memory.ram) (command : SpaceCommand) :
    Ensures (command.run space) memory fun outcome after =>
      ∃ lost, AddressSpace.Changes memory space outcome.2
        (command.processed outcome.1 (after.ram.covers space.root)) lost after := by
  cases command with
  | declare start size rights heap =>
      refine (AddressSpace.declare_ensures owns sound.tree start size rights heap).bind ?_
      rintro ⟨outcome, changed⟩ after ⟨lost, changes⟩
      refine Ensures.pure ⟨lost, ?_⟩
      rw [processed_ofResult _ _ _ nofun]
      exact changes
  | declareStack =>
      refine (AddressSpace.declareStack_ensures owns sound.tree).bind ?_
      rintro ⟨outcome, changed⟩ after ⟨lost, changes⟩
      refine Ensures.pure ⟨lost, ?_⟩
      rw [processed_ofResult _ _ _ nofun]
      exact changes
  | openWindow =>
      refine (AddressSpace.openWindow_ensures sound.settled owns.sound sound.tree).bind ?_
      rintro ⟨outcome, changed⟩ after changes
      refine Ensures.pure ⟨[], ?_⟩
      rw [processed_nil rfl]
      exact changes
  | closeWindow =>
      refine (AddressSpace.closeWindow_ensures owns.sound sound.tree).bind ?_
      rintro ⟨outcome, changed⟩ after changes
      refine Ensures.pure ⟨[], ?_⟩
      rw [processed_nil rfl]
      exact changes

end SpaceCommand

namespace SpaceAccess

variable {memory : Memory} {held : List Frame} {space : AddressSpace}

/-- The page that an access has given a data frame, by its answer. -/
def backs? : SpaceAccess → Answer → Option (Page × Frame)
  | .attach address frame, .done => some (address.block, frame)
  | .fault address, .frame frame => some (address.block, frame)
  | _, _ => none

/--
What an access comes to for clients that end up with certain frames, and the entry
that it has made.
-/
structure Serves (before : Memory) (held : List Frame) (space : AddressSpace)
    (added? : Option (Page × Frame)) (after : Memory) (left : List Frame) : Prop where
  settles : Settles before (held ++ before.ram.reach space.root) after
    (left ++ after.ram.reach space.root)
  tree : after.ram.Tree space.root
  unbacked : ∀ entry ∈ added?, before.ram.behind space.root entry.1 = none
  behind : after.ram.behind space.root = PageMap.extend (before.ram.behind space.root) added?
  lostFrames : after.lostFrames = before.lostFrames

theorem Serves.refl (owns : memory.Owns (held ++ memory.ram.reach space.root))
    (tree : memory.ram.Tree space.root) : Serves memory held space none memory held :=
  ⟨.of_exchange (.refl owns.sound _), tree, nofun, rfl, rfl⟩

/-- An access to the data frame behind an address, if there is one. -/
theorem withFrame_ensures (owns : memory.Owns (held ++ memory.ram.reach space.root))
    (tree : memory.ram.Tree space.root) (address : VirtAddr) {use : Frame → MemoryM Answer}
    (uses : ∀ frame, memory.ram.behind space.root address.block = some frame →
      Ensures (use frame) memory fun _ after => Serves memory held space none after held) :
    Ensures (withFrame space address use) memory
      fun _ after => Serves memory held space none after held := by
  refine (AddressSpace.frameBehind_ensures tree address).bind ?_
  rintro found memory ⟨rfl, rfl⟩
  cases behind : memory.ram.behind space.root address.block with
  | none => exact Ensures.pure (.refl owns tree)
  | some frame => exact uses frame behind

/-- Writing the data frame behind a page. -/
theorem serves_of_writes {after : Memory} {page : Page} {frame : Frame}
    {contents : FrameContents} (owns : memory.Owns (held ++ memory.ram.reach space.root))
    (tree : memory.ram.Tree space.root)
    (behind : memory.ram.behind space.root page = some frame)
    (writes : Writes memory frame contents after) : Serves memory held space none after held := by
  have reached := Ram.behind_mem_reach behind
  rcases Option.bind_eq_some_iff.mp behind with ⟨table, named, backed⟩
  have kept := tree.writeData named backed writes.replaced
  have exchange : Exchange memory (held ++ memory.ram.reach space.root) after
      (held ++ memory.ram.reach space.root) :=
    .of_writes owns.sound writes
      (List.mem_append_right _ (List.mem_append_right held reached))
  refine ⟨?_, kept.1, nofun, tree.behind_of_data named backed writes.replaced, ?_⟩
  · rw [kept.2]
    exact .of_exchange exchange
  · rw [Memory.lostFrames, writes.log]
    rfl

/-- The entry that an attachment has made. -/
def attached? (address : VirtAddr) (frame : Frame) :
    Except SpaceError Unit → Option (Page × Frame)
  | .ok () => some (address.block, frame)
  | .error _ => none

theorem attach_serves (owns : memory.Owns (held ++ memory.ram.reach space.root))
    (tree : memory.ram.Tree space.root) (address : VirtAddr) {frame : Frame}
    (member : frame ∈ held) :
    Ensures (space.attach address frame) memory fun outcome after =>
      Serves memory held space (attached? address frame outcome) after
        (match outcome with
          | .ok () => held.erase frame
          | .error _ => held) := by
  have perm := List.perm_cons_erase member
  have split : (held ++ memory.ram.reach space.root).Perm
      ((frame :: memory.ram.reach space.root) ++ held.erase frame) :=
    (perm.append_right _).trans ((List.perm_append_comm).cons frame)
  have owned := (owns.of_perm split).left
  refine (AddressSpace.attach_ensures owned tree address).imp ?_
  intro outcome after attaches
  cases attaches with
  | attached exchange tree' unbacked behind pool log =>
      refine ⟨.of_exchange ?_, tree', ?_, behind, ?_⟩
      · have beside := exchange.beside (held.erase frame)
        exact (beside.of_perm_given split.symm).of_perm_left List.perm_append_comm
      · intro entry member
        cases member
        exact unbacked
      · rw [Memory.lostFrames, log]
        rfl
  | refused => exact .refl owns tree

/-- An access leaves clients with what they hold after its answer. -/
theorem run_ensures (owns : memory.Owns (held ++ memory.ram.reach space.root))
    (tree : memory.ram.Tree space.root) {command : SpaceAccess}
    (permitted : ∀ frame ∈ command.given?, frame ∈ held)
    (name : Nat) :
    Ensures (command.run space) memory fun answer after =>
      Serves memory held space (command.backs? answer) after
        (Ledger.heldAfter held (.access name command) answer) := by
  have unchanged := Serves.refl owns tree
  cases command with
  | attach address frame =>
      refine (attach_serves owns tree address (permitted frame rfl)).bind ?_
      intro outcome after serves
      cases outcome with
      | ok _ => exact Ensures.pure serves
      | error refusal => exact Ensures.pure serves
  | fault address =>
      have owned := owns.of_perm List.perm_append_comm
      refine (AddressSpace.serveFault_ensures owned tree address).bind ?_
      intro result after faults
      have settles := faults.settles.beside held
      have shuffled :=
        (settles.of_perm_given List.perm_append_comm).of_perm_left List.perm_append_comm
      cases result with
      | ok frame =>
          exact Ensures.pure
            ⟨shuffled, faults.tree, faults.unbacked, faults.behind, faults.lostFrames⟩
      | error refusal =>
          exact Ensures.pure
            ⟨shuffled, faults.tree, faults.unbacked, faults.behind, faults.lostFrames⟩
  | fillAt address byte =>
      refine withFrame_ensures owns tree address ?_
      intro frame behind
      have heldFrame := tree.held frame (Ram.behind_mem_reach behind)
      refine (fillFrame_ensures heldFrame byte).bind ?_
      intro _ after writes
      exact Ensures.pure (serves_of_writes owns tree behind writes)
  | storeAt address word =>
      refine withFrame_ensures owns tree address ?_
      intro frame behind
      have heldFrame := tree.held frame (Ram.behind_mem_reach behind)
      refine (writeWord_ensures heldFrame (RamCommand.wordIndex_lt address) word).bind ?_
      intro _ after writes
      exact Ensures.pure (serves_of_writes owns tree behind writes)
  | hashAt address =>
      refine withFrame_ensures owns tree address ?_
      intro frame behind
      have heldFrame := tree.held frame (Ram.behind_mem_reach behind)
      refine (contents_ensures heldFrame).bind ?_
      rintro found after ⟨rfl, -⟩
      exact Ensures.pure unchanged
  | frameBehind address =>
      refine (AddressSpace.frameBehind_ensures tree address).bind ?_
      rintro found after ⟨rfl, -⟩
      exact Ensures.pure unchanged
  | layout =>
      refine (AddressSpace.layout_ensures tree).bind ?_
      rintro found after ⟨rfl, -⟩
      exact Ensures.pure unchanged
  | activate slots enabled => exact Ensures.pure unchanged
  | rightsAt address => exact Ensures.pure unchanged
  | regions => exact Ensures.pure unchanged
  | inspectRegions => exact Ensures.pure unchanged
  | contains address => exact Ensures.pure unchanged
  | regionPages => exact Ensures.pure unchanged
  | inspect => exact Ensures.pure unchanged

end SpaceAccess

end PagedMemory
