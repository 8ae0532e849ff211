import PagedMemory.Proofs.Machine.Spaces
import PagedMemory.Proofs.Space.Fork

/-!
# What a command comes to

Executing a permitted command on a balanced ledger has one of a few outcomes:
clients settle with the pool, the ready phase is entered, or one space is made,
changed, worked on or torn down.  An `Outcome` says which of them it was and all
that the command can have done.  Whatever holds of runs is read off outcomes,
without another look at how commands are executed.
-/

namespace PagedMemory

open Memory

/-! ## Tables of spaces -/

namespace SpaceTable

variable {table : SpaceTable} {name : Nat} {space : AddressSpace}

/-- The entry of a name can be put in front of the others. -/
theorem entries_perm (names : (table.entries.map Prod.fst).Nodup)
    (found : table.find? name = some space) :
    table.entries.Perm ((name, space) :: (table.erase name).entries) := by
  rcases table with ⟨entries⟩
  simp only [find?, erase] at *
  induction entries with
  | nil => cases found
  | cons entry rest induction =>
      rcases entry with ⟨key, other⟩
      rcases List.nodup_cons.mp names with ⟨fresh, distinct⟩
      by_cases same : key = name
      · subst same
        rw [List.lookup_cons, beq_self_eq_true] at found
        cases found
        have kept : rest.filter (fun entry => entry.1 != key) = rest := by
          apply List.filter_eq_self.mpr
          intro entry member
          apply bne_iff_ne.mpr
          intro same
          exact fresh (List.mem_map.mpr ⟨entry, member, same⟩)
        rw [List.filter_cons_of_neg (by simp), kept]
      · rw [List.lookup_cons, beq_false_of_ne (Ne.symm same)] at found
        rw [List.filter_cons_of_pos (by simpa using same)]
        exact ((induction distinct found).cons _).trans (List.Perm.swap _ _ _)

theorem find?_insert_self (table : SpaceTable) (name : Nat) (space : AddressSpace) :
    (table.insert name space).find? name = some space := by
  rw [find?_insert, if_pos rfl]

/-- A new name leaves other names alone. -/
theorem find?_insert_of_ne (table : SpaceTable) (space : AddressSpace) {other : Nat}
    (apart : other ≠ name) : (table.insert name space).find? other = table.find? other := by
  rw [find?_insert, if_neg apart]

theorem find?_of_vacant (vacant : ¬ table.holds name = true) : table.find? name = none :=
  Option.not_isSome_iff_eq_none.mp vacant

/-- Erasing a name that nothing has changes nothing. -/
theorem erase_of_none (absent : table.find? name = none) : table.erase name = table := by
  rcases table with ⟨entries⟩
  apply congrArg mk
  apply List.filter_eq_self.mpr
  intro entry member
  have differs := List.lookup_eq_none_iff.mp absent entry member
  exact bne_iff_ne.mpr fun same => bne_iff_ne.mp differs same.symm

theorem nodup_names_erase (names : (table.entries.map Prod.fst).Nodup) (name : Nat) :
    (((table.erase name).entries).map Prod.fst).Nodup ∧
      name ∉ ((table.erase name).entries).map Prod.fst := by
  refine ⟨names.sublist (List.Sublist.map _ List.filter_sublist), ?_⟩
  intro member
  rcases List.mem_map.mp member with ⟨entry, kept, same⟩
  have differs := (List.mem_filter.mp kept).2
  simp [same] at differs

end SpaceTable

/-! ## Answering commands -/

namespace Machine

variable {machine : Machine} {name : Nat} {space : AddressSpace} {answer : Answer}
  {after : Memory}

theorem execute_pool {command : PoolCommand}
    (returns : command.run machine.memory = .ok (answer, after)) :
    machine.execute (.pool command) = .ok (answer, ⟨after, machine.spaces⟩) := by
  simp only [execute, returns]
  rfl

theorem execute_ram {command : RamCommand}
    (returns : command.run machine.memory = .ok (answer, after)) :
    machine.execute (.ram command) = .ok (answer, ⟨after, machine.spaces⟩) := by
  simp only [execute, returns]
  rfl

/-- The answer to a command that makes a space, under a name. -/
def answerMade (machine : Machine) (name : Nat) (after : Memory) :
    Except SpaceError AddressSpace → Answer × Machine
  | .error refusal => (.refused (.space refusal), ⟨after, machine.spaces⟩)
  | .ok space => (.frame space.root, ⟨after, machine.spaces.insert name space⟩)

theorem execute_create {result : Except SpaceError AddressSpace}
    (vacant : ¬ machine.spaces.holds name = true)
    (returns : AddressSpace.create machine.memory = .ok (result, after)) :
    machine.execute (.create name) = .ok (machine.answerMade name after result) := by
  rw [execute, if_neg vacant]
  simp only [returns]
  cases result <;> rfl

theorem withSpace_of_missing (missing : machine.spaces.find? name = none)
    (use : AddressSpace → Machine → Checked (Answer × Machine)) :
    machine.withSpace name use = .ok (.refused .noSpace, machine) := by
  rw [withSpace, missing]
  rfl

theorem withSpace_of_found (found : machine.spaces.find? name = some space)
    (use : AddressSpace → Machine → Checked (Answer × Machine)) :
    machine.withSpace name use = use space machine := by
  rw [withSpace, found]

theorem execute_fork {copy : Nat} {heap : Heap} {result : Except SpaceError AddressSpace}
    (found : machine.spaces.find? name = some space)
    (vacant : ¬ machine.spaces.holds copy = true)
    (returns : space.fork heap machine.memory = .ok (result, after)) :
    machine.execute (.fork name copy heap) = .ok (machine.answerMade copy after result) := by
  rw [execute, withSpace_of_found found, if_neg vacant]
  simp only [returns]
  cases result <;> rfl

theorem execute_change {command : SpaceCommand} {changed : AddressSpace}
    (found : machine.spaces.find? name = some space)
    (returns : command.run space machine.memory = .ok ((answer, changed), after)) :
    machine.execute (.change name command) =
      .ok (answer, ⟨after, machine.spaces.insert name changed⟩) := by
  rw [execute, withSpace_of_found found]
  simp only [returns]
  rfl

theorem execute_access {command : SpaceAccess}
    (found : machine.spaces.find? name = some space)
    (returns : command.run space machine.memory = .ok (answer, after)) :
    machine.execute (.access name command) = .ok (answer, ⟨after, machine.spaces⟩) := by
  rw [execute, withSpace_of_found found]
  simp only [returns]
  rfl

theorem execute_destroy (found : machine.spaces.find? name = some space)
    (returns : space.destroy machine.memory = .ok (.ok (), after)) :
    machine.execute (.destroy name) = .ok (.done, ⟨after, machine.spaces.erase name⟩) := by
  rw [execute, withSpace_of_found found]
  simp only [returns]
  rfl

theorem execute_discard (found : machine.spaces.find? name = some space)
    (returns : space.discard machine.memory = .ok ((), after)) :
    machine.execute (.discard name) = .ok (.done, ⟨after, machine.spaces.erase name⟩) := by
  rw [execute, withSpace_of_found found]
  simp only [returns]
  rfl

end Machine

namespace Ledger

theorem reached_singleton (ram : Ram) (name : Nat) (space : AddressSpace) :
    ram.reached [(name, space)] = ram.reach space.root := by
  rw [Ram.reached, List.flatMap_cons, List.flatMap_nil, List.append_nil]

variable {ledger : Ledger}

/-! ## Spaces of a balanced ledger -/

theorem Balanced.entries_perm (balanced : ledger.Balanced) {name : Nat} {space : AddressSpace}
    (found : ledger.machine.spaces.find? name = some space) :
    ledger.spaces.Perm ([(name, space)] ++ (ledger.machine.spaces.erase name).entries) :=
  SpaceTable.entries_perm balanced.names found

theorem Balanced.mem_of_found (balanced : ledger.Balanced) {name : Nat} {space : AddressSpace}
    (found : ledger.machine.spaces.find? name = some space) : (name, space) ∈ ledger.spaces :=
  (balanced.entries_perm found).mem_iff.mpr List.mem_cons_self

theorem Balanced.sound_of_found (balanced : ledger.Balanced) {name : Nat} {space : AddressSpace}
    (found : ledger.machine.spaces.find? name = some space) : space.Sound ledger.memory.ram :=
  balanced.spaces (name, space) (balanced.mem_of_found found)

/-- The frames of one space can be put in front of all others. -/
theorem Balanced.outstanding_of_found (balanced : ledger.Balanced) {name : Nat}
    {space : AddressSpace} (found : ledger.machine.spaces.find? name = some space) :
    ledger.outstanding.Perm ((ledger.held ++ ledger.memory.ram.reach space.root) ++
      (ledger.memory.lostFrames ++
        ledger.memory.ram.reached (ledger.machine.spaces.erase name).entries)) := by
  have perm := outstanding_perm (balanced.entries_perm found)
    (List.nil_append ledger.memory.lostFrames).symm
  rw [reached_singleton] at perm
  exact perm

theorem Balanced.owns_of_found (balanced : ledger.Balanced) {name : Nat} {space : AddressSpace}
    (found : ledger.machine.spaces.find? name = some space) :
    ledger.memory.Owns (ledger.held ++ ledger.memory.ram.reach space.root) :=
  (balanced.owns.of_perm (balanced.outstanding_of_found found)).left

/-- Frames of a space that is not the one in question are frames beside it. -/
theorem Balanced.mem_beside (balanced : ledger.Balanced) {name other : Nat}
    {space : AddressSpace} (found : ledger.machine.spaces.find? name = some space)
    (apart : other ≠ name) {frame : Frame}
    (inside : frame ∈ ledger.memory.ram.reach space.root) :
    frame ∈ ledger.memory.ram.reached (ledger.machine.spaces.erase other).entries := by
  have kept : (name, space) ∈ (ledger.machine.spaces.erase other).entries :=
    List.mem_filter.mpr ⟨balanced.mem_of_found found, by simpa using apart.symm⟩
  exact List.mem_flatMap.mpr ⟨(name, space), kept, inside⟩

theorem mem_outstanding {entry : Nat × AddressSpace} (member : entry ∈ ledger.spaces)
    {frame : Frame} (inside : frame ∈ ledger.memory.ram.reach entry.2.root) :
    frame ∈ ledger.outstanding :=
  List.mem_append_right _ (List.mem_append_right _ (List.mem_flatMap.mpr ⟨entry, member, inside⟩))

/-- What a fork of a space comes to. -/
theorem Balanced.forks (balanced : ledger.Balanced) {name : Nat} {space : AddressSpace}
    (found : ledger.machine.spaces.find? name = some space) (heap : Heap) :
    Ensures (space.fork heap) ledger.memory (AddressSpace.Forks ledger.memory space heap) :=
  AddressSpace.fork_ensures balanced.owns
    (fun _ => mem_outstanding (balanced.mem_of_found found)) heap

end Ledger

/-! ## Outcomes -/

namespace Command

/-- The name of the space that a command works on, which is not always the one it is about. -/
def worksOn? : Command → Option Nat
  | .change name _ | .access name _ | .destroy name | .discard name => some name
  | .pool _ | .ram _ | .create _ | .fork _ _ _ | .sameRegions _ _ => none

/-- The name of the space that a command has made or worked on, by its answer. -/
def target? : Command → Answer → Option Nat
  | .create name, .frame _ | .fork _ name _, .frame _ => some name
  | command, _ => command.worksOn?

theorem target?_of_worksOn? {command : Command} {name : Nat}
    (works : command.worksOn? = some name) (answer : Answer) :
    command.target? answer = some name := by
  cases command with
  | create other => cases works
  | fork source copy heap => cases works
  | _ => exact works

theorem target?_of_removes {command : Command} {name : Nat}
    (removes : command = .destroy name ∨ command = .discard name) (answer : Answer) :
    command.target? answer = some name := by
  rcases removes with rfl | rfl
  · rfl
  · rfl

/-- A refused command has worked on no other space than the one it was about. -/
theorem subject?_of_target? {command : Command} {reason : Refusal} {name : Nat}
    (target : command.target? (.refused reason) = some name) : command.subject? = some name := by
  cases command with
  | pool command => cases target
  | ram command => cases target
  | create other => cases target
  | fork source copy heap => cases target
  | sameRegions other rival => cases target
  | _ => exact target

end Command

namespace Ledger

/-- What a command has done, by its answer and the machine that it leaves. -/
inductive Outcome (before : Ledger) : Command → Answer → Machine → Prop where
  /-- The command was about a space that nobody has made. -/
  | missing {command : Command} {name : Nat} (about : command.subject? = some name)
      (missing : before.machine.spaces.find? name = none) :
      Outcome before command (.refused .noSpace) before.machine
  /-- Clients have settled with the pool, and no space was concerned. -/
  | settled {command : Command} {answer : Answer} {after : Memory}
      (target : command.target? answer = none)
      (settles : Settles before.memory before.held after (heldAfter before.held command answer))
      (lostFrames : after.lostFrames = before.memory.lostFrames) :
      Outcome before command answer ⟨after, before.machine.spaces⟩
  /-- The boot memory that was left has become a frame table. -/
  | bootstrapped {answer : Answer} {after : Memory} {range : BumpRange} {leaked : Nat}
      {stack : FreeStack} (early : before.memory.pool = ⟨.early (.bump range), leaked⟩)
      (bootstrapped : FramePool.Bootstrapped (.bump range) stack)
      (changed : HasPool before.memory ⟨.ready stack, leaked⟩ after) :
      Outcome before (.pool .bootstrap) answer ⟨after, before.machine.spaces⟩
  | created {name : Nat} {space : AddressSpace} {after : Memory}
      (vacant : before.machine.spaces.find? name = none)
      (creates : AddressSpace.Creates before.memory (.ok space) after) :
      Outcome before (.create name) (.frame space.root)
        ⟨after, before.machine.spaces.insert name space⟩
  | forked {name copy : Nat} {heap : Heap} {source made : AddressSpace} {after : Memory}
      (found : before.machine.spaces.find? name = some source)
      (vacant : before.machine.spaces.find? copy = none)
      (forked : AddressSpace.Forked before.memory source made after) :
      Outcome before (.fork name copy heap) (.frame made.root)
        ⟨after, before.machine.spaces.insert copy made⟩
  | changed {name : Nat} {command : SpaceCommand} {answer : Answer} {space changed : AddressSpace}
      {lost : List Frame} {after : Memory}
      (found : before.machine.spaces.find? name = some space)
      (changes : AddressSpace.Changes before.memory space changed
        (command.processed answer (after.ram.covers space.root)) lost after) :
      Outcome before (.change name command) answer
        ⟨after, before.machine.spaces.insert name changed⟩
  | accessed {name : Nat} {command : SpaceAccess} {answer : Answer} {space : AddressSpace}
      {after : Memory} (found : before.machine.spaces.find? name = some space)
      (serves : SpaceAccess.Serves before.memory before.held space (command.backs? answer) after
        (heldAfter before.held (.access name command) answer)) :
      Outcome before (.access name command) answer ⟨after, before.machine.spaces⟩
  | removed {command : Command} {name : Nat} {space : AddressSpace} {gone : List Frame}
      {after : Memory} (removes : command = .destroy name ∨ command = .discard name)
      (found : before.machine.spaces.find? name = some space)
      (returns : Returns before.memory (before.memory.ram.reach space.root) gone after) :
      Outcome before command .done ⟨after, before.machine.spaces.erase name⟩

/-- A refusal changes nothing for clients. -/
theorem heldAfter_refused (held : List Frame) (command : Command) (reason : Refusal) :
    heldAfter held command (.refused reason) = held := by
  cases command with
  | pool command => cases command <;> rfl
  | access name command => cases command <;> rfl
  | _ => rfl

/-- A command is executed with some outcome. -/
def Answers (ledger : Ledger) (command : Command) : Prop :=
  ∃ answer after, ledger.machine.execute command = .ok (answer, after) ∧
    ledger.Outcome command answer after

variable {ledger : Ledger}

/-- A refusal that leaves frames and spaces alone. -/
theorem answers_of_idle {command : Command} {reason : Refusal} {after : Memory}
    (executed : ledger.machine.execute command =
      .ok (.refused reason, ⟨after, ledger.machine.spaces⟩))
    (target : command.target? (.refused reason) = none)
    (settles : Settles ledger.memory [] after [])
    (lostFrames : after.lostFrames = ledger.memory.lostFrames) : ledger.Answers command := by
  refine ⟨_, _, executed, .settled target ?_ lostFrames⟩
  rw [heldAfter_refused]
  exact settles.beside ledger.held

/-- A refusal that leaves the whole machine alone. -/
theorem answers_of_refused (balanced : ledger.Balanced) {command : Command} {reason : Refusal}
    (refused : ledger.machine.execute command = .ok (.refused reason, ledger.machine))
    (target : command.target? (.refused reason) = none) : ledger.Answers command :=
  answers_of_idle refused target (.of_exchange (.refl balanced.owns.sound [])) rfl

/-- A command about a space that nobody has made is refused, unless it makes the space. -/
theorem answers_of_missing {command : Command} {name : Nat}
    (missing : ledger.machine.spaces.find? name = none)
    (about : command.subject? = some name) (uses : command ≠ .create name) :
    ledger.Answers command := by
  have refused : ledger.machine.execute command = .ok (.refused .noSpace, ledger.machine) := by
    cases command with
    | pool command => cases about
    | ram command => cases about
    | create other =>
        cases about
        exact absurd rfl uses
    | _ =>
        cases about
        rw [Machine.execute]
        exact Machine.withSpace_of_missing missing _
  exact ⟨_, _, refused, .missing about missing⟩

theorem answers_pool (balanced : ledger.Balanced) {command : PoolCommand}
    (permitted : ledger.PermitsPool command) : ledger.Answers (.pool command) := by
  by_cases boot : command = .bootstrap
  · subst boot
    rcases PoolCommand.bootstrap_ensures balanced.owns with ⟨answer, after, returns, outcome⟩
    have executed := Machine.execute_pool returns
    rcases outcome with same | ⟨range, leaked, stack, early, bootstrapped, changed⟩
    · exact ⟨_, _, executed, .settled rfl
        (PoolCommand.settles_of_same balanced.owns.sound same) same.lostFrames⟩
    · exact ⟨_, _, executed, .bootstrapped early bootstrapped changed⟩
  · rcases PoolCommand.serves_of_permits balanced.owns permitted boot with
      ⟨answer, after, returns, settles, lostFrames⟩
    exact ⟨_, _, Machine.execute_pool returns, .settled rfl settles lostFrames⟩

theorem answers_ram (balanced : ledger.Balanced) {command : RamCommand}
    (permitted : ledger.PermitsRam command) : ledger.Answers (.ram command) := by
  rcases RamCommand.serves_of_permits balanced.owns permitted with
    ⟨answer, after, returns, settles, lostFrames⟩
  exact ⟨_, _, Machine.execute_ram returns, .settled rfl settles lostFrames⟩

theorem answers_create (balanced : ledger.Balanced) (name : Nat) :
    ledger.Answers (.create name) := by
  by_cases occupied : ledger.machine.spaces.holds name = true
  · have refused : ledger.machine.execute (.create name) =
        .ok (.refused .occupied, ledger.machine) := if_pos occupied
    exact answers_of_refused balanced refused rfl
  · rcases AddressSpace.create_ensures balanced.owns with ⟨result, after, returns, creates⟩
    have executed := Machine.execute_create occupied returns
    cases result with
    | error refusal =>
        cases creates with
        | refused extension none =>
            exact answers_of_idle executed rfl (.of_exchange extension.exchange)
              extension.lostFrames
    | ok space =>
        exact ⟨_, _, executed, .created (SpaceTable.find?_of_vacant occupied) creates⟩

theorem answers_fork (balanced : ledger.Balanced) (name copy : Nat) (heap : Heap) :
    ledger.Answers (.fork name copy heap) := by
  cases found : ledger.machine.spaces.find? name with
  | none => exact answers_of_missing found rfl nofun
  | some space =>
      by_cases occupied : ledger.machine.spaces.holds copy = true
      · have refused : ledger.machine.execute (.fork name copy heap) =
            .ok (.refused .occupied, ledger.machine) := by
          rw [Machine.execute, Machine.withSpace_of_found found]
          exact if_pos occupied
        exact answers_of_refused balanced refused rfl
      · rcases balanced.forks found heap with ⟨result, after, returns, forks⟩
        have executed := Machine.execute_fork found occupied returns
        cases forks with
        | forked room forked =>
            exact ⟨_, _, executed, .forked found (SpaceTable.find?_of_vacant occupied) forked⟩
        | failed shortage reason disposes =>
            exact answers_of_idle executed rfl (.of_disposes disposes) disposes.lostFrames

theorem answers_change (balanced : ledger.Balanced) (name : Nat) (command : SpaceCommand) :
    ledger.Answers (.change name command) := by
  cases found : ledger.machine.spaces.find? name with
  | none => exact answers_of_missing found rfl nofun
  | some space =>
      have owns := (balanced.owns_of_found found).of_perm List.perm_append_comm
      rcases SpaceCommand.run_ensures owns (balanced.sound_of_found found) command with
        ⟨⟨answer, changed⟩, after, returns, lost, changes⟩
      exact ⟨_, _, Machine.execute_change found returns, .changed found changes⟩

theorem answers_access (balanced : ledger.Balanced) {name : Nat} {command : SpaceAccess}
    (permitted : ledger.Permits (.access name command)) :
    ledger.Answers (.access name command) := by
  cases found : ledger.machine.spaces.find? name with
  | none => exact answers_of_missing found rfl nofun
  | some space =>
      have tree := (balanced.sound_of_found found).tree
      rcases SpaceAccess.run_ensures (balanced.owns_of_found found) tree permitted name with
        ⟨answer, after, returns, serves⟩
      exact ⟨_, _, Machine.execute_access found returns, .accessed found serves⟩

theorem answers_destroy (balanced : ledger.Balanced) (name : Nat) :
    ledger.Answers (.destroy name) := by
  cases found : ledger.machine.spaces.find? name with
  | none => exact answers_of_missing found rfl nofun
  | some space =>
      have owns := (balanced.owns_of_found found).of_perm List.perm_append_comm
      rcases AddressSpace.destroy_ensures (balanced.sound_of_found found).live owns with
        ⟨_, after, ran, rfl, gone, returns⟩
      exact ⟨_, _, Machine.execute_destroy found ran, .removed (Or.inl rfl) found returns⟩

theorem answers_discard (balanced : ledger.Balanced) (name : Nat) :
    ledger.Answers (.discard name) := by
  cases found : ledger.machine.spaces.find? name with
  | none => exact answers_of_missing found rfl nofun
  | some space =>
      have owns := (balanced.owns_of_found found).of_perm List.perm_append_comm
      rcases AddressSpace.discard_ensures (balanced.sound_of_found found).live owns with
        ⟨_, after, ran, gone, returns⟩
      exact ⟨_, _, Machine.execute_discard found ran, .removed (Or.inr rfl) found returns⟩

/-- A comparison changes nothing, whatever it finds. -/
theorem answers_sameRegions (balanced : ledger.Balanced) (name other : Nat) :
    ledger.Answers (.sameRegions name other) := by
  cases found : ledger.machine.spaces.find? name with
  | none => exact answers_of_missing found rfl nofun
  | some space =>
      cases against : ledger.machine.spaces.find? other with
      | none =>
          have refused : ledger.machine.execute (.sameRegions name other) =
              .ok (.refused .noSpace, ledger.machine) := by
            rw [Machine.execute, Machine.withSpace_of_found found]
            exact Machine.withSpace_of_missing against _
          exact answers_of_refused balanced refused rfl
      | some rival =>
          have executed : ledger.machine.execute (.sameRegions name other) =
              .ok (.truth (space.regions.entries = rival.regions.entries),
                ⟨ledger.memory, ledger.machine.spaces⟩) := by
            rw [Machine.execute, Machine.withSpace_of_found found,
              Machine.withSpace_of_found against]
            rfl
          exact ⟨_, _, executed, .settled rfl
            (.of_exchange (.refl balanced.owns.sound ledger.held)) rfl⟩

/-- On a balanced ledger every permitted command is executed. -/
theorem Balanced.answers (balanced : ledger.Balanced) {command : Command}
    (permitted : ledger.Permits command) : ledger.Answers command := by
  cases command with
  | pool command => exact answers_pool balanced permitted
  | ram command => exact answers_ram balanced permitted
  | create name => exact answers_create balanced name
  | change name command => exact answers_change balanced name command
  | access name command => exact answers_access balanced permitted
  | fork name copy heap => exact answers_fork balanced name copy heap
  | destroy name => exact answers_destroy balanced name
  | discard name => exact answers_discard balanced name
  | sameRegions name other => exact answers_sameRegions balanced name other

/-- Executing is a function, so what it comes to is an outcome. -/
theorem Balanced.outcome (balanced : ledger.Balanced) {command : Command} {answer : Answer}
    {after : Machine} (permitted : ledger.Permits command)
    (executed : ledger.machine.execute command = .ok (answer, after)) :
    ledger.Outcome command answer after := by
  rcases balanced.answers permitted with ⟨answer', after', same, outcome⟩
  rw [executed] at same
  cases same
  exact outcome

/-- A fork that was answered with a root has made a space under the new name. -/
theorem Balanced.forked_of_execute (balanced : ledger.Balanced) {name copy : Nat} {heap : Heap}
    {space : AddressSpace} {root : Frame} {after : Machine}
    (found : ledger.machine.spaces.find? name = some space)
    (executed : ledger.machine.execute (.fork name copy heap) = .ok (.frame root, after)) :
    ∃ made, after.spaces.find? copy = some made ∧
      AddressSpace.Forked ledger.memory space made after.memory := by
  have permitted : ledger.Permits (.fork name copy heap) := trivial
  cases balanced.outcome permitted executed with
  | settled nowhere settles lostFrames => cases nowhere
  | @forked _ _ _ source made memory about vacant forked =>
      cases about.symm.trans found
      exact ⟨made, SpaceTable.find?_insert_self _ _ _, forked⟩

end Ledger

end PagedMemory
