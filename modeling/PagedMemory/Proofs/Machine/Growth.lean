import PagedMemory.Proofs.Machine.Coverage
import PagedMemory.Proofs.Space.ForkTables

/-!
# Spaces that only grow

Making spaces, declaring pages, attaching frames and making copies gives no frame back.
As long as nothing else is done, directories and tables are nobody else's, whatever
frames have been put behind pages: the same one twice, one of another space, or one that
is not in RAM.  So directories stand as lineages say, without a word on who owns data
frames.
-/

namespace PagedMemory

open Memory

/-- Commands that make spaces and add to them: they take nothing away and give nothing back. -/
def Command.adds : Command → Bool
  | .create _ | .change _ _ | .access _ (.attach _ _) | .fork _ _ _ => true
  | .pool .bootstrap | .pool (.allocate _) | .pool (.allocateKernel _) | .pool .take
  | .pool .statistics | .pool (.allow _) => true
  | _ => false

/-- A command about a space has been carried out; of other commands nothing is asked. -/
def Command.CarriedOut (command : Command) (answer : Answer) : Prop :=
  command.subject?.isSome = true → answer.accepted = true

instance (command : Command) (answer : Answer) : Decidable (command.CarriedOut answer) :=
  inferInstanceAs (Decidable (_ → _))

/-- The frames that walks through some spaces read. -/
def Ram.framework (ram : Ram) (entries : List (Nat × AddressSpace)) : List Frame :=
  entries.flatMap fun entry => ram.bones entry.2.root

theorem Ram.framework_append (ram : Ram) (first second : List (Nat × AddressSpace)) :
    ram.framework (first ++ second) = ram.framework first ++ ram.framework second :=
  List.flatMap_append

theorem Ram.framework_singleton (ram : Ram) (name : Nat) (space : AddressSpace) :
    ram.framework [(name, space)] = ram.bones space.root := by
  rw [framework, List.flatMap_cons, List.flatMap_nil, List.append_nil]

namespace Machine

/-- Directories and tables of all spaces are outstanding, and walks can be relied on. -/
structure Framed (machine : Machine) : Prop where
  owns : machine.memory.Owns (machine.memory.ram.framework machine.spaces.entries)
  names : (machine.spaces.entries.map Prod.fst).Nodup
  skeletons : ∀ entry ∈ machine.spaces.entries, machine.memory.ram.Skeleton entry.2.root

namespace Framed

variable {machine before after : Machine} {name : Nat} {space made : AddressSpace}
  {command : Command} {answer : Answer}

theorem mem_of_found (framed : machine.Framed)
    (found : machine.spaces.find? name = some space) : (name, space) ∈ machine.spaces.entries :=
  (SpaceTable.entries_perm framed.names found).mem_iff.mpr List.mem_cons_self

theorem skeleton (framed : machine.Framed) (found : machine.spaces.find? name = some space) :
    machine.memory.ram.Skeleton space.root :=
  framed.skeletons _ (framed.mem_of_found found)

theorem mem_framework (framed : machine.Framed)
    (found : machine.spaces.find? name = some space) {frame : Frame}
    (member : frame ∈ machine.memory.ram.bones space.root) :
    frame ∈ machine.memory.ram.framework machine.spaces.entries :=
  List.mem_flatMap.mpr ⟨_, framed.mem_of_found found, member⟩

/-- The directory and the tables of one space can be put in front of all others. -/
theorem framework_perm (framed : machine.Framed)
    (found : machine.spaces.find? name = some space) :
    (machine.memory.ram.framework machine.spaces.entries).Perm
      (machine.memory.ram.bones space.root ++
        machine.memory.ram.framework (machine.spaces.erase name).entries) :=
  (SpaceTable.entries_perm framed.names found).flatMap_right _

theorem owns_bones (framed : machine.Framed)
    (found : machine.spaces.find? name = some space) :
    machine.memory.Owns (machine.memory.ram.bones space.root) :=
  (framed.owns.of_perm (framed.framework_perm found)).left

/-- A step that takes care of some spaces leaves the others as they are. -/
theorem of_handsOn {old new others : List (Nat × AddressSpace)} (framed : before.Framed)
    (entries : before.spaces.entries.Perm (old ++ others))
    (entries' : after.spaces.entries.Perm (new ++ others))
    (handsOn : HandsOn before.memory (before.memory.ram.framework old) after.memory
      (after.memory.ram.framework new))
    (names : ((new ++ others).map Prod.fst).Nodup)
    (skeletons : ∀ entry ∈ new, after.memory.ram.Skeleton entry.2.root) :
    after.Framed ∧ ∀ entry ∈ others, after.memory.ram.contentsOf entry.2.root =
      before.memory.ram.contentsOf entry.2.root := by
  have owns : before.memory.Owns (before.memory.ram.framework old ++
      before.memory.ram.framework others) := by
    rw [← Ram.framework_append]
    exact framed.owns.of_perm (entries.flatMap_right _)
  rcases handsOn.passes _ owns with ⟨moved, kept⟩
  have same (entry : Nat × AddressSpace) (member : entry ∈ others) (frame : Frame)
      (inside : frame ∈ before.memory.ram.bones entry.2.root) :
      after.memory.ram.contentsOf frame = before.memory.ram.contentsOf frame :=
    kept frame (List.mem_flatMap.mpr ⟨entry, member, inside⟩)
  have sameRoot (entry : Nat × AddressSpace) (member : entry ∈ others) :=
    same entry member entry.2.root List.mem_cons_self
  have others' : after.memory.ram.framework others = before.memory.ram.framework others :=
    List.flatMap_congr fun entry member => Ram.bones_congr (sameRoot entry member)
  refine ⟨⟨?_, ?_, ?_⟩, sameRoot⟩
  · rw [← others', ← Ram.framework_append] at moved
    exact moved.of_perm (entries'.symm.flatMap_right _)
  · exact (entries'.map Prod.fst).nodup_iff.mpr names
  · intro entry member
    rcases List.mem_append.mp (entries'.mem_iff.mp member) with touched | other
    · exact skeletons entry touched
    · have old := framed.skeletons entry (entries.mem_iff.mpr (List.mem_append_right _ other))
      exact old.congr handsOn.extent (same entry other)

/-- A step about one space: it is made, or it is found and goes on as it is then. -/
theorem about (framed : before.Framed)
    (entries : after.spaces.entries.Perm ((name, made) :: (before.spaces.erase name).entries))
    (handsOn : HandsOn before.memory
      ((before.spaces.find? name).elim [] fun space => before.memory.ram.bones space.root)
      after.memory (after.memory.ram.bones made.root))
    (skeleton : after.memory.ram.Skeleton made.root) :
    after.Framed ∧ ∀ other space, other ≠ name → before.spaces.find? other = some space →
      after.memory.ram.contentsOf space.root = before.memory.ram.contentsOf space.root := by
  rcases SpaceTable.nodup_names_erase framed.names name with ⟨distinct, fresh⟩
  have names : (([(name, made)] ++ (before.spaces.erase name).entries).map Prod.fst).Nodup :=
    List.nodup_cons.mpr ⟨fresh, distinct⟩
  have skeletons : ∀ entry ∈ [(name, made)], after.memory.ram.Skeleton entry.2.root := by
    intro entry member
    cases List.mem_singleton.mp member
    exact skeleton
  rw [← Ram.framework_singleton _ name] at handsOn
  have stays : after.Framed ∧ ∀ entry ∈ (before.spaces.erase name).entries,
      after.memory.ram.contentsOf entry.2.root = before.memory.ram.contentsOf entry.2.root := by
    cases found : before.spaces.find? name with
    | none =>
        rw [found] at handsOn
        have all : before.spaces.entries.Perm ([] ++ (before.spaces.erase name).entries) := by
          rw [SpaceTable.erase_of_none found]
          exact List.Perm.refl _
        exact framed.of_handsOn all entries handsOn names skeletons
    | some space =>
        rw [found] at handsOn
        have all : before.spaces.entries.Perm
            ([(name, space)] ++ (before.spaces.erase name).entries) :=
          SpaceTable.entries_perm framed.names found
        rw [Option.elim_some, ← Ram.framework_singleton _ name] at handsOn
        exact framed.of_handsOn all entries handsOn names skeletons
  refine ⟨stays.1, fun other space apart found => stays.2 (other, space) ?_⟩
  exact List.mem_filter.mpr ⟨framed.mem_of_found found, by simpa using apart⟩

/-! ## Commands that add -/

/-- A command about one space has done to directories what it has done to that space. -/
theorem rewires (framed : machine.Framed) (target : command.target? answer = some name)
    (entries : after.spaces.entries.Perm ((name, made) :: (machine.spaces.erase name).entries))
    (records : ∀ other, other ≠ name → after.spaces.find? other = machine.spaces.find? other)
    (handsOn : HandsOn machine.memory
      ((machine.spaces.find? name).elim [] fun space => machine.memory.ram.bones space.root)
      after.memory (after.memory.ram.bones made.root))
    (skeleton : after.memory.ram.Skeleton made.root)
    (retables : machine.Retables name command answer after) :
    after.Framed ∧ machine.Rewires command answer after := by
  rcases framed.about entries handsOn skeleton with ⟨framed', kept⟩
  refine ⟨framed', ?_, ?_, ?_⟩
  · intro other same
    cases target.symm.trans same
    exact retables
  · exact fun other apart => records other fun same => apart (same ▸ target)
  · intro other space apart found
    exact kept other space (fun same => apart (same ▸ target)) found

theorem rewires_insert {memory : Memory} (framed : machine.Framed)
    (target : command.target? answer = some name)
    (handsOn : HandsOn machine.memory
      ((machine.spaces.find? name).elim [] fun space => machine.memory.ram.bones space.root)
      memory (memory.ram.bones made.root)) (skeleton : memory.ram.Skeleton made.root)
    (retables : machine.Retables name command answer ⟨memory, machine.spaces.insert name made⟩) :
    Framed ⟨memory, machine.spaces.insert name made⟩ ∧
      machine.Rewires command answer ⟨memory, machine.spaces.insert name made⟩ :=
  framed.rewires target (List.Perm.refl _) (fun _ => SpaceTable.find?_insert_of_ne _ _) handsOn
    skeleton retables

theorem create (framed : machine.Framed)
    (executed : machine.execute (.create name) = .ok (answer, after))
    (accepted : answer.accepted = true) :
    after.Framed ∧ machine.Rewires (.create name) answer after := by
  by_cases occupied : machine.spaces.holds name = true
  · rw [execute, if_pos occupied] at executed
    cases executed
    cases accepted
  · rcases AddressSpace.create_ensures framed.owns with ⟨result, memory, returns, creates⟩
    rw [execute_create occupied returns] at executed
    cases creates with
    | refused extension none =>
        cases executed
        cases accepted
    | @created root _ extension tree zeroed =>
        cases executed
        have vacant := SpaceTable.find?_of_vacant occupied
        refine framed.rewires_insert rfl ?_ tree.skeleton
          (.created vacant (SpaceTable.find?_insert_self _ _ _) rfl zeroed)
        rw [vacant, Ram.bones_of_zero zeroed]
        exact .of_exchange extension.exchange

/-- A command that was carried out was about a space that there is. -/
theorem found_of_accepted {use : AddressSpace → Machine → Checked (Answer × Machine)}
    (executed : machine.withSpace name use = .ok (answer, after))
    (accepted : answer.accepted = true) :
    ∃ space, machine.spaces.find? name = some space ∧ use space machine = .ok (answer, after) := by
  cases found : machine.spaces.find? name with
  | none =>
      rw [withSpace_of_missing found] at executed
      cases executed
      cases accepted
  | some space =>
      rw [withSpace_of_found found] at executed
      exact ⟨space, rfl, executed⟩

theorem fork {copy : Nat} {heap : Heap} (framed : machine.Framed)
    (executed : machine.execute (.fork name copy heap) = .ok (answer, after))
    (accepted : answer.accepted = true) :
    after.Framed ∧ machine.Rewires (.fork name copy heap) answer after := by
  -- A fork may panic over data frames, so that it returned is used before its outcome.
  have whole := executed
  rw [execute] at executed
  rcases found_of_accepted executed accepted with ⟨space, about, ran⟩
  by_cases occupied : machine.spaces.holds copy = true
  · rw [if_pos occupied] at ran
    cases ran
    cases accepted
  · rw [if_neg occupied] at ran
    rcases Checked.bind_eq_ok.mp ran with ⟨⟨result, memory⟩, returns, -⟩
    rw [execute_fork about occupied returns] at whole
    cases result with
    | error refusal =>
        cases whole
        cases accepted
    | ok made =>
        cases whole
        have among := framed.mem_framework about List.mem_cons_self
        have copied := AddressSpace.fork_copies framed.owns among heap _ _ returns made rfl
        have vacant := SpaceTable.find?_of_vacant occupied
        have recorded : made.recorded = space.recorded :=
          congrArg (List.flatMap Region.pages) copied.entries
        refine framed.rewires_insert rfl ?_ copied.skeleton
          (.forked about vacant (SpaceTable.find?_insert_self _ _ _) recorded copied.slots)
        rw [vacant]
        exact copied.handsOn

theorem change {command : SpaceCommand} (framed : machine.Framed)
    (executed : machine.execute (.change name command) = .ok (answer, after))
    (accepted : answer.accepted = true) :
    after.Framed ∧ machine.Rewires (.change name command) answer after := by
  rw [execute] at executed
  rcases found_of_accepted executed accepted with ⟨space, about, ran⟩
  rcases Checked.bind_eq_ok.mp ran with ⟨⟨⟨reply, changed⟩, memory⟩, returns, answered⟩
  cases answered
  rcases SpaceCommand.run_redeclares (framed.owns_bones about) (framed.skeleton about)
    command _ _ returns with ⟨added, built, redeclares⟩
  have builds := redeclares.builds
  rw [← redeclares.root] at builds
  refine framed.rewires_insert rfl ?_ builds.skeleton
    (.changed about (SpaceTable.find?_insert_self _ _ _) redeclares)
  rw [about, Option.elim_some, ← redeclares.root]
  exact builds.handsOn

theorem attach {address : VirtAddr} {frame : Frame} (framed : machine.Framed)
    (executed : machine.execute (.access name (.attach address frame)) = .ok (answer, after))
    (accepted : answer.accepted = true) :
    after.Framed ∧ machine.Rewires (.access name (.attach address frame)) answer after := by
  rw [execute] at executed
  rcases found_of_accepted executed accepted with ⟨space, about, ran⟩
  rcases Checked.bind_eq_ok.mp ran with ⟨⟨reply, memory⟩, returns, answered⟩
  cases answered
  rcases bind_eq_ok.mp returns with ⟨result, between, attached, finished⟩
  rcases pure_eq_ok.mp finished with ⟨-, rfl⟩
  have skeleton := framed.skeleton about
  have builds := (AddressSpace.attach_builds (framed.owns_bones about) skeleton address
    frame).of_returns attached
  have kept := AddressSpace.attach_keepsDirectory skeleton address frame _ _ attached
  refine framed.rewires rfl (SpaceTable.entries_perm framed.names about)
    (fun _ _ => rfl) ?_ builds.skeleton (.accessed about about kept)
  rw [about]
  exact builds.handsOn

/-- A command that no space is concerned with. -/
theorem rewires_nowhere (framed : machine.Framed) (target : command.target? answer = none)
    (spaces : after.spaces = machine.spaces)
    (handsOn : HandsOn machine.memory [] after.memory []) :
    after.Framed ∧ machine.Rewires command answer after := by
  have all : machine.spaces.entries.Perm ([] ++ machine.spaces.entries) := List.Perm.refl _
  have all' : after.spaces.entries.Perm ([] ++ machine.spaces.entries) := by
    rw [spaces]
    exact all
  rcases framed.of_handsOn all all' handsOn framed.names nofun with ⟨framed', kept⟩
  refine ⟨framed', ?_, ?_, ?_⟩
  · intro name some
    cases target.symm.trans some
  · exact fun name _ => congrArg (fun table : SpaceTable => table.find? name) spaces
  · exact fun name space _ found => kept (name, space) (framed.mem_of_found found)

theorem pool {command : PoolCommand} (framed : machine.Framed)
    (adds : (Command.pool command).adds = true)
    (executed : machine.execute (.pool command) = .ok (answer, after)) :
    after.Framed ∧ machine.Rewires (.pool command) answer after := by
  by_cases boot : command = .bootstrap
  · subst boot
    rcases PoolCommand.bootstrap_ensures framed.owns with ⟨reply, memory, returns, outcome⟩
    rw [execute_pool returns] at executed
    cases executed
    -- This is no exchange: the frames of the table itself are not available any more.
    have handsOn : HandsOn machine.memory [] memory [] := by
      rcases outcome with same | ⟨range, leaked, stack, early, bootstrapped, changed⟩
      · exact .of_settles (PoolCommand.settles_of_same framed.owns.sound same)
      · refine ⟨fun frame => by rw [changed.ram], fun rest owns => ⟨?_, fun frame _ => ?_⟩⟩
        · exact (PoolCommand.owns_of_bootstrapped owns early bootstrapped changed).1
        · rw [changed.ram]
    exact framed.rewires_nowhere rfl rfl handsOn
  · have permitted : (Ledger.start machine).PermitsPool command := by
      cases command <;> trivial
    have served : PoolCommand.Serves command machine.memory [] :=
      PoolCommand.serves_of_permits (show (Ledger.start machine).memory.Owns _ from framed.owns)
        permitted boot
    rcases served with ⟨reply, memory, returns, settles, -⟩
    rw [execute_pool returns] at executed
    cases executed
    rw [← List.append_nil (Ledger.heldAfter _ _ _)] at settles
    exact framed.rewires_nowhere rfl rfl (HandsOn.of_settles settles).drop

/-- Whatever has been added, directories and tables are still nobody else's. -/
theorem step (framed : machine.Framed) (adds : command.adds = true)
    (executed : machine.execute command = .ok (answer, after))
    (carriedOut : command.CarriedOut answer) :
    after.Framed ∧ machine.Rewires command answer after := by
  cases command with
  | pool command => exact framed.pool adds executed
  | create name => exact framed.create executed (carriedOut rfl)
  | change name command => exact framed.change executed (carriedOut rfl)
  | fork name copy heap => exact framed.fork executed (carriedOut rfl)
  | access name command =>
      cases command with
      | attach address frame => exact framed.attach executed (carriedOut rfl)
      | _ => cases adds
  | _ => cases adds

end Framed

theorem Fresh.framed {machine : Machine} (fresh : machine.Fresh) : machine.Framed := by
  have entries : machine.spaces.entries = [] := congrArg SpaceTable.entries fresh.spaces
  refine ⟨?_, ?_, ?_⟩
  · rw [entries]
    exact fresh.balanced.owns.left
  · rw [entries]
    exact List.nodup_nil
  · rw [entries]
    exact nofun

end Machine

end PagedMemory
