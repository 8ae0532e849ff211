import PagedMemory.Proofs.Machine.Outcome
import PagedMemory.Proofs.Space.Building

/-!
# Directories in the course of a run

Which slots of its directory a space has filled can be told from its *lineage*: the
commands that have been asked of it, and of the spaces that it is a copy of until they
were copied.  A space without regions hands nothing on to its copies.

A run is looked at through `Rewires`, which says what a command may do to records
and directories and is silent about everything else.  That the directories of all
spaces stand as their lineages say follows from this alone, so it holds of every kind
of run in which commands do no more.
-/

namespace PagedMemory

open Memory

/-- Whether a command was carried out. -/
def Answer.accepted : Answer → Bool
  | .refused _ => false
  | _ => true

namespace SpaceCommand

open AddressSpace

variable {memory : Memory} {space : AddressSpace}

/--
A command to a space has recorded some pages and built tables for some: for recorded
ones, or for those of the user stack.
-/
structure Redeclares (command : SpaceCommand) (before : Memory) (space changed : AddressSpace)
    (added built : List Page) (answer : Answer) (after : Memory) : Prop
    extends Declares before space changed added built after where
  asked : added ⊆ command.pages
  origin : ∀ page ∈ built, page ∈ added ∨ page ∈ stackRun ∧ command = .declareStack
  covered : answer.accepted = true → ∀ page ∈ command.pages,
    after.ram.covers space.root page = true

theorem run_redeclares (owns : memory.Owns (memory.ram.bones space.root))
    (skeleton : memory.ram.Skeleton space.root) (command : SpaceCommand) :
    Leaves (command.run space) memory fun outcome after => ∃ added built,
      command.Redeclares memory space outcome.2 added built outcome.1 after := by
  cases command with
  | declare start size rights heap =>
      refine (Leaves.of_ensures (declare_declares owns skeleton start size rights heap)).bind ?_
      rintro ⟨outcome, changed⟩ after ⟨added, asked, declares, covered⟩
      refine Leaves.pure ⟨added, added, declares, asked, fun page => Or.inl, ?_⟩
      cases outcome with
      | error refusal => exact nofun
      | ok _ => exact fun _ => covered rfl
  | declareStack =>
      refine (Leaves.of_ensures (declareStack_declares owns skeleton)).bind ?_
      rintro ⟨outcome, changed⟩ after ⟨declares, covered⟩
      refine Leaves.pure ⟨[], stackRun, declares, List.nil_subset _,
        fun page member => Or.inr ⟨member, rfl⟩, ?_⟩
      cases outcome with
      | error refusal => exact nofun
      | ok pointer => exact fun _ => covered ⟨pointer, rfl⟩
  | openWindow =>
      refine (openWindow_declares skeleton).bind ?_
      rintro ⟨outcome, changed⟩ after declares
      exact Leaves.pure ⟨[], [], declares, List.nil_subset _, nofun, fun _ => nofun⟩
  | closeWindow =>
      refine (closeWindow_declares skeleton).bind ?_
      rintro ⟨outcome, changed⟩ after declares
      exact Leaves.pure ⟨[], [], declares, List.nil_subset _, nofun, fun _ => nofun⟩

end SpaceCommand

/-! ## Lineages -/

/-- The commands that a space goes back to, each with its answer. -/
abbrev Lineage := List (SpaceCommand × Answer)

namespace Machine

/-- The lineage that a copy of a space is given. -/
def inherited (machine : Machine) (lineage : Nat → Lineage) (name : Nat) : Lineage :=
  match machine.spaces.find? name with
  | none => []
  | some space => if space.regions.entries = [] then [] else lineage name

/-- The lineages of all spaces once a command is answered. -/
def traced (machine : Machine) (lineage : Nat → Lineage) : Command → Answer → Nat → Lineage
  | .create name, .frame _ => Function.update lineage name []
  | .fork name copy _, .frame _ => Function.update lineage copy (machine.inherited lineage name)
  | .change name command, answer =>
      Function.update lineage name (lineage name ++ [(command, answer)])
  | _, _ => lineage

variable {machine before after : Machine} {lineage : Nat → Lineage} {command : Command}
  {answer : Answer} {name : Nat} {space : AddressSpace}

theorem traced_of_ne (apart : command.target? answer ≠ some name) :
    machine.traced lineage command answer name = lineage name := by
  unfold traced
  split
  · exact Function.update_of_ne (fun same => apart (congrArg some same.symm)) _ _
  · exact Function.update_of_ne (fun same => apart (congrArg some same.symm)) _ _
  · exact Function.update_of_ne (fun same => apart (congrArg some same.symm)) _ _
  · rfl

/-! ## What a command does to directories -/

/-- What a command has done to the space that it has made or worked on. -/
inductive Retables (before : Machine) (name : Nat) : Command → Answer → Machine → Prop where
  /-- There was no such space. -/
  | missing {command : Command} {answer : Answer} {after : Machine}
      (absent : before.spaces.find? name = none) (still : after.spaces.find? name = none) :
      Retables before name command answer after
  | removed {command : Command} {answer : Answer} {after : Machine}
      (removes : command = .destroy name ∨ command = .discard name)
      (gone : after.spaces.find? name = none) : Retables before name command answer after
  | created {root : Frame} {after : Machine} {made : AddressSpace}
      (vacant : before.spaces.find? name = none)
      (found : after.spaces.find? name = some made) (recorded : made.recorded = [])
      (zeroed : after.memory.ram.contentsOf made.root = .zero) :
      Retables before name (.create name) (.frame root) after
  /-- A copy has the slots of its source if that has regions, and none otherwise. -/
  | forked {source : Nat} {heap : Heap} {root : Frame} {after : Machine}
      {original made : AddressSpace} (about : before.spaces.find? source = some original)
      (vacant : before.spaces.find? name = none)
      (found : after.spaces.find? name = some made)
      (recorded : made.recorded = original.recorded)
      (slots : ∀ index, (after.memory.ram.slot made.root index).isSome = true ↔
        original.regions.entries ≠ [] ∧
          (before.memory.ram.slot original.root index).isSome = true) :
      Retables before name (.fork source name heap) (.frame root) after
  | changed {command : SpaceCommand} {answer : Answer} {after : Machine}
      {space changed : AddressSpace} {added built : List Page}
      (about : before.spaces.find? name = some space)
      (found : after.spaces.find? name = some changed)
      (redeclares : command.Redeclares before.memory space changed added built answer
        after.memory) :
      Retables before name (.change name command) answer after
  | accessed {command : SpaceAccess} {answer : Answer} {after : Machine} {space : AddressSpace}
      (about : before.spaces.find? name = some space)
      (found : after.spaces.find? name = some space)
      (kept : after.memory.ram.contentsOf space.root = before.memory.ram.contentsOf space.root) :
      Retables before name (.access name command) answer after

/-- What a command has done to the records and the directories of spaces. -/
structure Rewires (before : Machine) (command : Command) (answer : Answer) (after : Machine) :
    Prop where
  target : ∀ name, command.target? answer = some name →
    before.Retables name command answer after
  records : ∀ name, command.target? answer ≠ some name →
    after.spaces.find? name = before.spaces.find? name
  directories : ∀ name space, command.target? answer ≠ some name →
    before.spaces.find? name = some space →
      after.memory.ram.contentsOf space.root = before.memory.ram.contentsOf space.root

/--
Only the end of a space empties a slot of its directory, makes it name another table,
or forgets a region.
-/
theorem Rewires.stays (rewires : before.Rewires command answer after)
    (found : before.spaces.find? name = some space)
    (stays : command ≠ .destroy name ∧ command ≠ .discard name) :
    ∃ current, after.spaces.find? name = some current ∧ current.root = space.root ∧
      space.recorded ⊆ current.recorded ∧
      ∀ index table, before.memory.ram.slot space.root index = some table →
        after.memory.ram.slot space.root index = some table := by
  by_cases target : command.target? answer = some name
  · cases rewires.target name target with
    | missing absent still => cases absent.symm.trans found
    | removed removes gone => exact absurd removes (not_or.mpr stays)
    | created vacant found' recorded zeroed => cases vacant.symm.trans found
    | forked about vacant found' recorded slots => cases vacant.symm.trans found
    | changed about found' redeclares =>
        cases about.symm.trans found
        refine ⟨_, found', redeclares.root, ?_, redeclares.builds.kept⟩
        rw [redeclares.recorded]
        exact List.subset_append_left _ _
    | accessed about found' kept =>
        cases about.symm.trans found
        refine ⟨space, found', rfl, List.Subset.refl _, fun index table named => ?_⟩
        rw [Ram.slot_congr kept, named]
  · refine ⟨space, (rewires.records name target).trans found, rfl, List.Subset.refl _,
      fun index table named => ?_⟩
    rw [Ram.slot_congr (rewires.directories name space target found), named]

end Machine

/-! ## Directories stand as lineages say -/

namespace AddressSpace

/-- The directory of a space stands as its lineage says. -/
structure Tabled (space : AddressSpace) (ram : Ram) (lineage : Lineage) : Prop where
  /-- What has been declared is covered. -/
  covered : ∀ command answer, (command, answer) ∈ lineage → answer.accepted = true →
    ∀ page ∈ command.pages, ram.covers space.root page = true
  /-- Every page of a region was asked for. -/
  asked : ∀ page ∈ space.recorded, ∃ command answer, (command, answer) ∈ lineage ∧
    page ∈ command.pages
  /-- Every table was built for a page of a region or of the user stack. -/
  origin : ∀ index table, ram.slot space.root index = some table →
    ∃ page : Page, page.directoryIndex = index ∧
      (page ∈ space.recorded ∨
        page ∈ stackRun ∧ ∃ answer, (SpaceCommand.declareStack, answer) ∈ lineage)

namespace Tabled

variable {space changed : AddressSpace} {ram after : Ram} {lineage : Lineage}

/-- Nothing has been asked of a space whose directory is empty. -/
theorem of_new (recorded : space.recorded = [])
    (absent : ∀ index, ram.slot space.root index = none) : space.Tabled ram [] := by
  refine ⟨fun _ _ entry => absurd entry List.not_mem_nil, ?_, ?_⟩
  · rw [recorded]
    exact List.forall_mem_nil _
  · intro index table named
    cases (absent index).symm.trans named

/-- A directory with the same slots filled stands as well. -/
theorem of_slots (tabled : space.Tabled ram lineage) (recorded : changed.recorded = space.recorded)
    (slots : ∀ index, (after.slot changed.root index).isSome = (ram.slot space.root index).isSome) :
    changed.Tabled after lineage := by
  refine ⟨?_, ?_, ?_⟩
  · intro command answer entry accepted page member
    rw [Ram.covers, slots]
    exact tabled.covered command answer entry accepted page member
  · rw [recorded]
    exact tabled.asked
  · intro index table named
    have filled : (ram.slot space.root index).isSome = true := by
      rw [← slots, named]
      rfl
    rcases Option.isSome_iff_exists.mp filled with ⟨original, named'⟩
    rw [recorded]
    exact tabled.origin index original named'

theorem of_redeclares {command : SpaceCommand} {answer : Answer} {before later : Memory}
    {added built : List Page} (tabled : space.Tabled before.ram lineage)
    (redeclares : command.Redeclares before space changed added built answer later) :
    changed.Tabled later.ram (lineage ++ [(command, answer)]) := by
  have builds := redeclares.builds
  refine ⟨?_, ?_, ?_⟩
  · intro other reply entry accepted page member
    rw [redeclares.root]
    rcases List.mem_append.mp entry with old | new
    · exact builds.covers (tabled.covered other reply old accepted page member)
    · cases List.mem_singleton.mp new
      exact redeclares.covered accepted page member
  · intro page member
    rw [redeclares.recorded] at member
    rcases List.mem_append.mp member with old | new
    · rcases tabled.asked page old with ⟨other, reply, entry, inside⟩
      exact ⟨other, reply, List.mem_append_left _ entry, inside⟩
    · exact ⟨command, answer, List.mem_append_right _ (List.mem_singleton_self _),
        redeclares.asked new⟩
  · intro index table named
    rw [redeclares.root] at named
    rw [redeclares.recorded]
    rcases builds.added index table named with old | new
    · rcases tabled.origin index table old with ⟨page, place, known | ⟨stack, reply, entry⟩⟩
      · exact ⟨page, place, Or.inl (List.mem_append_left _ known)⟩
      · exact ⟨page, place, Or.inr ⟨stack, reply, List.mem_append_left _ entry⟩⟩
    · rcases List.mem_map.mp new with ⟨page, member, place⟩
      refine ⟨page, place, ?_⟩
      rcases redeclares.origin page member with known | ⟨stack, rfl⟩
      · exact Or.inl (List.mem_append_right _ known)
      · exact Or.inr ⟨stack, answer, List.mem_append_right _ (List.mem_singleton_self _)⟩

end Tabled

end AddressSpace

namespace Machine

variable {before after : Machine} {lineage : Nat → Lineage} {command : Command}
  {answer : Answer}

/-- The directories of all spaces stand as their lineages say. -/
def Tabled (machine : Machine) (lineage : Nat → Lineage) : Prop :=
  ∀ name space, machine.spaces.find? name = some space →
    space.Tabled machine.memory.ram (lineage name)

/-- Whatever a command has done, directories still stand as lineages say. -/
theorem Tabled.rewires (tabled : before.Tabled lineage)
    (rewires : before.Rewires command answer after) :
    after.Tabled (before.traced lineage command answer) := by
  intro name space found
  by_cases target : command.target? answer = some name
  · cases rewires.target name target with
    | missing absent still => cases still.symm.trans found
    | removed removes gone => cases gone.symm.trans found
    | created vacant found' recorded zeroed =>
        cases found'.symm.trans found
        rw [traced, Function.update_self]
        refine .of_new recorded fun index => ?_
        rw [Ram.slot, zeroed, FrameContents.slot_zero]
    | @forked source _ _ _ original _ about vacant found' recorded slots =>
        cases found'.symm.trans found
        rw [traced, Function.update_self]
        simp only [inherited, about]
        by_cases regions : original.regions.entries = []
        · rw [if_pos regions]
          refine .of_new ?_ fun index => ?_
          · rw [recorded, AddressSpace.recorded, regions]
            rfl
          · rw [← Option.not_isSome_iff_eq_none, slots]
            exact fun filled => filled.1 regions
        · rw [if_neg regions]
          refine (tabled source original about).of_slots recorded fun index => ?_
          rw [Bool.eq_iff_iff, slots]
          exact and_iff_right regions
    | changed about found' redeclares =>
        cases found'.symm.trans found
        rw [traced, Function.update_self]
        exact (tabled name _ about).of_redeclares redeclares
    | accessed about found' kept =>
        cases found'.symm.trans found
        refine (tabled name space about).of_slots rfl fun index => ?_
        rw [Ram.slot_congr kept]
  · rw [rewires.records name target] at found
    rw [traced_of_ne target]
    refine (tabled name space found).of_slots rfl fun index => ?_
    rw [Ram.slot_congr (rewires.directories name space target found)]

end Machine

end PagedMemory
