import PagedMemory.Proofs.Machine.Conservation
import PagedMemory.Proofs.Space.DeclaredRights

/-!
# Load windows in the course of a run

A run is followed from outside: from the commands and their answers alone, it is
known what has been declared of each space, and whether a window was opened
since.  However windows are opened and closed, in whatever order and with
whatever regions declared and forks made in between, every space stands as its
declarations say, and closing its window brings all declared rights back.

Nothing is asked of clients or of the pool: a run may damage the frame table or
write to frames that belong to spaces.
-/

namespace PagedMemory

open Memory

namespace AddressSpace

variable {space : AddressSpace} {declarations : List Declaration}

/-! ## Keeping declared rights -/

/-- What has become of the rights that were declared for a space. -/
structure KeepsRights (space : AddressSpace) (declarations : List Declaration) : Prop where
  /-- There is one region for each declaration, in order. -/
  pages : space.regions.entries.map Region.pages = declarations.map Declaration.pages
  declared : space.regions.entries.map Region.declaredRights = declarations.map Declaration.rights
  closed : space.loading = false →
    ∀ region ∈ space.regions.entries, region.rights = region.declaredRights
  /-- Writing is granted to the regions that the open window was opened over. -/
  opened : space.loading = true →
    space.regions.entries.map Region.rights = declarations.map fun declaration =>
      if declaration.opened then declaration.rights.set .write true else declaration.rights
  opens : ∀ memory, Ensures space.openWindow memory fun outcome after =>
    (outcome.1 = .error (.invariant .loadWindowAlreadyOpen) ↔ space.loading = true) ∧
      (outcome.1 = .ok () ↔ space.loading = false) ∧
      (space.loading = true → outcome.2 = space ∧ after = memory)
  closes : ∀ memory, Ensures space.closeWindow memory fun outcome after =>
    (outcome.1 = .error (.invariant .loadWindowNotOpen) ↔ space.loading = false) ∧
      (outcome.1 = .ok () ↔ space.loading = true) ∧
      (space.loading = false → outcome.2 = space ∧ after = memory) ∧
      outcome.2.regions.entries.map Region.rights = declarations.map Declaration.rights

theorem Reflects.map_rights (reflects : space.Reflects declarations)
    (closed : space.loading = false) :
    space.regions.entries.map Region.rights = declarations.map Declaration.rights := by
  rw [reflects, closed, List.map_map]
  apply List.map_congr_left
  intro declaration _
  exact declaration.rights_region_false

theorem Reflects.keepsRights (reflects : space.Reflects declarations) :
    space.KeepsRights declarations := by
  refine ⟨?_, ?_, ?_, ?_, ?_, ?_⟩
  · rw [reflects, List.map_map]
    apply List.map_congr_left
    intro declaration _
    exact declaration.pages_region space.loading
  · rw [reflects, List.map_map]
    apply List.map_congr_left
    intro declaration _
    exact declaration.declaredRights_region space.loading
  · intro closed region member
    rw [reflects, closed] at member
    rcases List.mem_map.mp member with ⟨declaration, -, rfl⟩
    rw [declaration.rights_region_false, declaration.declaredRights_region]
  · intro loading
    rw [reflects, loading, List.map_map]
    apply List.map_congr_left
    intro declaration _
    rw [Function.comp_apply, declaration.rights_region, Bool.true_and]
  · intro memory
    refine (reflects.openWindow memory).imp ?_
    rintro ⟨outcome, changed⟩ after ends
    cases loading : space.loading with
    | true =>
        rw [if_pos loading] at ends
        rcases ends with ⟨same, rfl⟩
        cases same
        simp
    | false =>
        rw [if_neg (ne_true_of_eq_false loading)] at ends
        rcases ends with ⟨rfl, -, -⟩
        simp
  · intro memory
    refine (reflects.closeWindow memory).imp ?_
    rintro ⟨outcome, changed⟩ after ends
    cases loading : space.loading with
    | true =>
        rw [if_pos loading] at ends
        rcases ends with ⟨rfl, closed, restored⟩
        have rights := restored.map_rights closed
        simpa using rights
    | false =>
        rw [if_neg (ne_true_of_eq_false loading)] at ends
        rcases ends with ⟨same, rfl⟩
        cases same
        have rights := reflects.map_rights loading
        simpa using rights

/-! ## Spaces that are made -/

/-- The regions of a space that has been made, if one has, and its window if there are any. -/
def Makes (entries : List Region) (loading : Bool) (outcome : Except SpaceError AddressSpace) :
    Prop :=
  ∀ made, outcome = .ok made →
    made.regions.entries = entries ∧ made.loading = (loading && !entries.isEmpty)

theorem makes_error (entries : List Region) (loading : Bool) (refusal : SpaceError) :
    Makes entries loading (.error refusal) := by
  intro made impossible
  cases impossible

theorem create_yields : Yields create (Makes [] false) := by
  refine Yields.after_any fun taken => ?_
  cases taken with
  | error refusal => exact Yields.pure (makes_error _ _ _)
  | ok root =>
      refine Yields.after_any fun _ => Yields.pure ?_
      rintro made same
      cases same
      exact ⟨rfl, rfl⟩

theorem abandon_yields (copy : AddressSpace) (refusal : SpaceError) (entries : List Region)
    (loading : Bool) : Yields (copy.abandon refusal) (Makes entries loading) :=
  Yields.after_any fun _ => Yields.pure (makes_error _ _ _)

/-- A fork has the regions of its source as they stand, and if there are any, its window too. -/
theorem fork_yields (space : AddressSpace) (heap : Heap) :
    Yields (space.fork heap) (Makes space.regions.entries space.loading) := by
  refine create_yields.bind ?_
  intro outcome made
  cases outcome with
  | error refusal => exact Yields.pure (makes_error _ _ _)
  | ok copy =>
      rcases made copy rfl with ⟨empty, closed⟩
      dsimp only
      split
      next none =>
        refine Yields.after_any fun _ => Yields.pure ?_
        rintro _ same
        cases same
        rw [none, closed, empty, List.isEmpty_iff.mp none, Bool.not_true, Bool.and_false]
        exact ⟨rfl, rfl⟩
      next some =>
        cases copied : space.regions.copy? heap with
        | none => exact abandon_yields _ _ _ _
        | some regions =>
            have entries : regions.entries = space.regions.entries := by
              cases heap with
              | exhausted => cases copied
              | available =>
                  cases copied
                  rfl
            refine Yields.after_any fun forked => ?_
            cases forked with
            | error refusal => exact abandon_yields _ _ _ _
            | ok frames =>
                refine Yields.after_any fun _ => Yields.pure ?_
                rintro _ same
                cases same
                rw [Bool.eq_false_iff.mpr some, Bool.not_false, Bool.and_true]
                exact ⟨entries, rfl⟩

theorem Reflects.of_makes (reflects : space.Reflects declarations) {made : AddressSpace}
    (makes : made.regions.entries = space.regions.entries ∧
      made.loading = (space.loading && !space.regions.entries.isEmpty)) :
    made.Reflects declarations := by
  rcases makes with ⟨entries, loading⟩
  cases none : space.regions.entries.isEmpty with
  | true =>
      have nothing := List.isEmpty_iff.mp none
      have empty : declarations = [] := by
        rw [reflects, List.map_eq_nil_iff] at nothing
        exact nothing
      rw [Reflects, entries, nothing, empty]
      rfl
  | false =>
      rw [none, Bool.not_false, Bool.and_true] at loading
      rw [Reflects, entries, loading, reflects]

end AddressSpace

/-! ## Following a run -/

namespace SpaceCommand

/-- What has been declared of a space once a command is answered. -/
def recorded (declarations : List Declaration) : SpaceCommand → Answer → List Declaration
  | .declare start size rights _, .done
  | .declare start size rights _, .refused (.space .outOfFrames)
  | .declare start size rights _, .refused (.space (.invariant _)) =>
      declarations ++ [⟨start, size, rights, false⟩]
  | .openWindow, .done => declarations.map fun declaration => { declaration with opened := true }
  | _, _ => declarations

variable {space : AddressSpace} {declarations : List Declaration}

/-- A command to a space leaves it as the declarations say that it has had. -/
theorem run_reflects (reflects : space.Reflects declarations) (command : SpaceCommand) :
    Yields (command.run space) fun outcome =>
      outcome.2.Reflects (command.recorded declarations outcome.1) := by
  cases command with
  | declare start size rights heap =>
      refine (reflects.declare start size rights heap).bind ?_
      rintro ⟨outcome, changed⟩ ends
      apply Yields.pure
      rcases ends with (same | same) | ⟨rfl | ⟨refusal, rfl⟩, declared⟩
      · cases same
        exact reflects
      · cases same
        exact reflects
      · exact declared
      · cases refusal <;> exact declared
  | declareStack =>
      refine (AddressSpace.declareStack_yields space).bind ?_
      rintro ⟨outcome, changed⟩ ⟨regions, loading⟩
      apply Yields.pure
      show changed.regions.entries = _
      rw [regions, loading]
      exact reflects
  | openWindow =>
      intro before result after returns
      rcases bind_eq_ok.mp returns with ⟨⟨outcome, changed⟩, between, opened, answered⟩
      rcases pure_eq_ok.mp answered with ⟨rfl, -⟩
      have ends := (reflects.openWindow before).of_returns opened
      split at ends
      · rcases ends with ⟨same, -⟩
        cases same
        exact reflects
      · rcases ends with ⟨rfl, -, seen⟩
        exact seen
  | closeWindow =>
      intro before result after returns
      rcases bind_eq_ok.mp returns with ⟨⟨outcome, changed⟩, between, closed, answered⟩
      rcases pure_eq_ok.mp answered with ⟨rfl, -⟩
      have ends := (reflects.closeWindow before).of_returns closed
      split at ends
      · rcases ends with ⟨rfl, -, restored⟩
        exact restored
      · rcases ends with ⟨same, -⟩
        cases same
        exact reflects

end SpaceCommand

/-- What has been declared of each space once a command is answered. -/
def Command.recorded (record : Nat → List Declaration) : Command → Answer → Nat → List Declaration
  | .create name, .frame _ => Function.update record name []
  | .fork name copy _, .frame _ => Function.update record copy (record name)
  | .change name command, answer =>
      Function.update record name (command.recorded (record name) answer)
  | _, _ => record

namespace SpaceTable

variable {record : Nat → List Declaration} {table : SpaceTable}

/-- Every space stands as what has been declared of it says. -/
def Reflects (table : SpaceTable) (record : Nat → List Declaration) : Prop :=
  ∀ name space, table.find? name = some space → space.Reflects (record name)

theorem Reflects.insert (reflects : table.Reflects record) {name : Nat} {space : AddressSpace}
    {declarations : List Declaration} (stands : space.Reflects declarations) :
    (table.insert name space).Reflects (Function.update record name declarations) := by
  intro other found located
  rw [find?_insert] at located
  by_cases same : other = name
  · subst same
    rw [if_pos rfl] at located
    cases located
    rw [Function.update_self]
    exact stands
  · rw [if_neg same] at located
    rw [Function.update_of_ne same]
    exact reflects other found located

theorem Reflects.erase (reflects : table.Reflects record) (name : Nat) :
    (table.erase name).Reflects record := by
  intro other space located
  rw [find?_erase] at located
  split at located
  · cases located
  · exact reflects other space located

end SpaceTable

namespace Machine

variable {machine after : Machine} {record : Nat → List Declaration} {answer : Answer}

/-- A command that uses a space is refused without one. -/
theorem withSpace_eq_ok {name : Nat}
    {use : AddressSpace → Machine → Checked (Answer × Machine)}
    (executed : machine.withSpace name use = .ok (answer, after)) :
    (machine.spaces.find? name = none ∧ answer = .refused .noSpace ∧ after = machine) ∨
      ∃ space, machine.spaces.find? name = some space ∧
        use space machine = .ok (answer, after) := by
  cases found : machine.spaces.find? name with
  | none =>
      rw [withSpace_of_missing found] at executed
      cases executed
      exact Or.inl ⟨rfl, rfl, rfl⟩
  | some space =>
      rw [withSpace_of_found found] at executed
      exact Or.inr ⟨space, rfl, executed⟩

/-- A fork that has been made is a space of its own, and its source is as it was. -/
theorem execute_fork_eq_ok {name copy : Nat} {heap : Heap}
    (executed : machine.execute (.fork name copy heap) = .ok (answer, after)) :
    ((∃ reason, answer = .refused reason) ∧ after.spaces = machine.spaces) ∨
      ∃ space made, answer = .frame made.root ∧ machine.spaces.find? name = some space ∧
        machine.spaces.find? copy = none ∧
        AddressSpace.Makes space.regions.entries space.loading (.ok made) ∧
        after.spaces = machine.spaces.insert copy made := by
  rw [execute] at executed
  rcases withSpace_eq_ok executed with ⟨-, rfl, rfl⟩ | ⟨space, found, forked⟩
  · exact Or.inl ⟨⟨_, rfl⟩, rfl⟩
  · split at forked
    · cases forked
      exact Or.inl ⟨⟨_, rfl⟩, rfl⟩
    next vacant =>
      rcases machine with ⟨memory, spaces⟩
      rcases Checked.bind_eq_ok.mp forked with ⟨⟨outcome, later⟩, returns, answered⟩
      have makes := AddressSpace.fork_yields space heap _ _ _ returns
      cases outcome with
      | error refusal =>
          cases answered
          exact Or.inl ⟨⟨_, rfl⟩, rfl⟩
      | ok made =>
          cases answered
          exact Or.inr ⟨space, made, rfl, found, SpaceTable.find?_of_vacant vacant, makes, rfl⟩

/-- After a fork was answered with a root, both spaces are there. -/
theorem finds_of_fork {name copy : Nat} {heap : Heap} {root : Frame} {space : AddressSpace}
    (found : machine.spaces.find? name = some space)
    (executed : machine.execute (.fork name copy heap) = .ok (.frame root, after)) :
    after.spaces.find? name = some space ∧
      ∃ made, after.spaces.find? copy = some made ∧
        made.regions.entries = space.regions.entries ∧
        made.loading = (space.loading && !space.regions.entries.isEmpty) := by
  rcases execute_fork_eq_ok executed with
    ⟨⟨reason, impossible⟩, -⟩ | ⟨source, made, -, located, vacant, makes, inserted⟩
  · cases impossible
  · rw [found] at located
    cases located
    have apart : name ≠ copy := by
      rintro rfl
      rw [vacant] at found
      cases found
    refine ⟨?_, made, ?_, makes made rfl⟩
    · rw [inserted, SpaceTable.find?_insert, if_neg apart, found]
    · rw [inserted, SpaceTable.find?_insert, if_pos rfl]

/-- What a command does to the spaces of a machine, whatever it does to memory. -/
inductive TableStep (before : Machine) : Command → Answer → SpaceTable → Prop where
  /-- Nothing has been declared of any space. -/
  | kept {command : Command} {answer : Answer}
      (unrecorded : ∀ record, command.recorded record answer = record) :
      TableStep before command answer before.spaces
  | created {name : Nat} {made : AddressSpace} (vacant : before.spaces.find? name = none)
      (makes : AddressSpace.Makes [] false (.ok made)) :
      TableStep before (.create name) (.frame made.root) (before.spaces.insert name made)
  | changed {name : Nat} {command : SpaceCommand} {answer : Answer} {space changed : AddressSpace}
      {memory later : Memory} (found : before.spaces.find? name = some space)
      (returns : command.run space memory = .ok ((answer, changed), later)) :
      TableStep before (.change name command) answer (before.spaces.insert name changed)
  | forked {name copy : Nat} {heap : Heap} {space made : AddressSpace}
      (found : before.spaces.find? name = some space) (vacant : before.spaces.find? copy = none)
      (makes : AddressSpace.Makes space.regions.entries space.loading (.ok made)) :
      TableStep before (.fork name copy heap) (.frame made.root) (before.spaces.insert copy made)
  | removed {command : Command} {name : Nat} {answer : Answer}
      (removes : command = .destroy name ∨ command = .discard name) :
      TableStep before command answer (before.spaces.erase name)

theorem step_of_create {name : Nat}
    (executed : machine.execute (.create name) = .ok (answer, after)) :
    machine.TableStep (.create name) answer after.spaces := by
  rw [execute] at executed
  split at executed
  · cases executed
    exact .kept fun _ => rfl
  next vacant =>
    rcases machine with ⟨memory, spaces⟩
    rcases Checked.bind_eq_ok.mp executed with ⟨⟨outcome, later⟩, returns, answered⟩
    have makes := AddressSpace.create_yields _ _ _ returns
    cases outcome with
    | error refusal =>
        cases answered
        exact .kept fun _ => rfl
    | ok made =>
        cases answered
        exact .created (SpaceTable.find?_of_vacant vacant) makes

theorem step_of_change {name : Nat} {command : SpaceCommand}
    (executed : machine.execute (.change name command) = .ok (answer, after)) :
    machine.TableStep (.change name command) answer after.spaces := by
  rw [execute] at executed
  rcases withSpace_eq_ok executed with ⟨missing, rfl, rfl⟩ | ⟨space, found, changed⟩
  · apply TableStep.kept
    intro record
    cases command <;> exact Function.update_eq_self name record
  · rcases machine with ⟨memory, spaces⟩
    rcases Checked.bind_eq_ok.mp changed with ⟨⟨⟨reply, later⟩, between⟩, returns, answered⟩
    cases answered
    exact .changed found returns

theorem step_of_fork {name copy : Nat} {heap : Heap}
    (executed : machine.execute (.fork name copy heap) = .ok (answer, after)) :
    machine.TableStep (.fork name copy heap) answer after.spaces := by
  rcases execute_fork_eq_ok executed with
    ⟨⟨reason, rfl⟩, same⟩ | ⟨space, made, rfl, found, vacant, makes, inserted⟩
  · rw [same]
    exact .kept fun _ => rfl
  · rw [inserted]
    exact .forked found vacant makes

/-- Every command that is executed does one of these things to the spaces. -/
theorem step_of_execute {command : Command}
    (executed : machine.execute command = .ok (answer, after)) :
    machine.TableStep command answer after.spaces := by
  cases command with
  | pool command =>
      rcases machine with ⟨memory, spaces⟩
      rcases Checked.bind_eq_ok.mp executed with ⟨⟨reply, later⟩, -, answered⟩
      cases answered
      exact .kept fun _ => rfl
  | ram command =>
      rcases machine with ⟨memory, spaces⟩
      rcases Checked.bind_eq_ok.mp executed with ⟨⟨reply, later⟩, -, answered⟩
      cases answered
      exact .kept fun _ => rfl
  | create name => exact step_of_create executed
  | change name command => exact step_of_change executed
  | access name command =>
      rw [execute] at executed
      rcases withSpace_eq_ok executed with ⟨-, -, rfl⟩ | ⟨space, -, used⟩
      · exact .kept fun _ => rfl
      · rcases machine with ⟨memory, spaces⟩
        rcases Checked.bind_eq_ok.mp used with ⟨⟨reply, later⟩, -, answered⟩
        cases answered
        exact .kept fun _ => rfl
  | fork name copy heap => exact step_of_fork executed
  | destroy name =>
      rw [execute] at executed
      rcases withSpace_eq_ok executed with ⟨-, -, rfl⟩ | ⟨space, -, used⟩
      · exact .kept fun _ => rfl
      · rcases machine with ⟨memory, spaces⟩
        rcases Checked.bind_eq_ok.mp used with ⟨⟨outcome, later⟩, -, answered⟩
        cases answered
        exact .removed (Or.inl rfl)
  | discard name =>
      rw [execute] at executed
      rcases withSpace_eq_ok executed with ⟨-, -, rfl⟩ | ⟨space, -, used⟩
      · exact .kept fun _ => rfl
      · rcases machine with ⟨memory, spaces⟩
        rcases Checked.bind_eq_ok.mp used with ⟨⟨_, later⟩, -, answered⟩
        cases answered
        exact .removed (Or.inr rfl)
  | sameRegions name other =>
      rw [execute] at executed
      rcases withSpace_eq_ok executed with ⟨-, -, rfl⟩ | ⟨space, -, used⟩
      · exact .kept fun _ => rfl
      · rcases withSpace_eq_ok used with ⟨-, -, rfl⟩ | ⟨rival, -, compared⟩
        · exact .kept fun _ => rfl
        · cases compared
          exact .kept fun _ => rfl

/-- What has been declared is updated just as the spaces are. -/
theorem reflects_step {command : Command} {table : SpaceTable}
    (reflects : machine.spaces.Reflects record) (step : machine.TableStep command answer table) :
    table.Reflects (command.recorded record answer) := by
  cases step with
  | kept unrecorded =>
      rw [unrecorded]
      exact reflects
  | created vacant makes => exact reflects.insert (makes _ rfl).1
  | @changed name command _ space changed memory later found returns =>
      exact reflects.insert
        (SpaceCommand.run_reflects (reflects name space found) command _ _ _ returns)
  | @forked name copy heap space made found vacant makes =>
      exact reflects.insert ((reflects name space found).of_makes (makes made rfl))
  | removed removes =>
      rcases removes with rfl | rfl
      · exact reflects.erase _
      · exact reflects.erase _

/-- Runs of any commands, with what is declared of each space meanwhile. -/
abbrev declaring : Regime (Machine × (Nat → List Declaration)) :=
  Regime.unrestricted.recording fun _ record command answer _ => command.recorded record answer

/-- Of every run it is known what has been declared meanwhile. -/
theorem exists_declaring {first : Machine} (reached : Regime.unrestricted.Reaches first machine) :
    ∃ record, declaring.Reaches (first, fun _ => []) (machine, record) :=
  reached.recorded _ _

theorem reflects_of_reaches {first : Machine} {state : Machine × (Nat → List Declaration)}
    (empty : first.spaces = .empty) (records : declaring.Reaches (first, fun _ => []) state) :
    state.1.spaces.Reflects state.2 := by
  induction records with
  | refl =>
      intro name space found
      rw [empty] at found
      cases found
  | step earlier _ executed induction => exact reflects_step induction (step_of_execute executed)

/--
Declared rights survive load windows.  In every state that a run reaches, a space
keeps the rights that were declared for it: they are in force while the window is
closed, all but for writing while it is open, and again as soon as it is closed.  A
fork that is made now keeps them as well, and leaves its source as it was.
-/
theorem declared_rights_survive_load_windows {first : Machine} (empty : first.spaces = .empty)
    (records : declaring.Reaches (first, fun _ => []) (machine, record)) {name : Nat}
    {space : AddressSpace} (found : machine.spaces.find? name = some space) :
    space.KeepsRights (record name) ∧
      ∀ copy heap root after, machine.execute (.fork name copy heap) = .ok (.frame root, after) →
        after.spaces.find? name = some space ∧
          ∃ made, after.spaces.find? copy = some made ∧
            made.regions.entries = space.regions.entries ∧ made.KeepsRights (record name) := by
  have reflects : space.Reflects (record name) := reflects_of_reaches empty records name space found
  refine ⟨reflects.keepsRights, ?_⟩
  intro copy heap root after executed
  rcases finds_of_fork found executed with ⟨kept, made, located, makes⟩
  exact ⟨kept, made, located, makes.1, (reflects.of_makes makes).keepsRights⟩

/-- One region is there when the window is opened, and one is declared inside. -/
theorem declared_rights_survive_declaration_in_window :
    let commands : List Command := [
      .create 0,
      .change 0 (.declare ⟨0x400000⟩ 0x2000 ⟨0xF5⟩ .available),
      .change 0 .openWindow,
      .change 0 (.declare ⟨0x402000⟩ 0x1000 ⟨0x61⟩ .available)]
    ∃ machine record space,
      declaring.follow (eightFrames, fun _ => []) commands = some (machine, record) ∧
      machine.spaces.find? 0 = some space ∧ space.loading = true ∧
      space.regions.entries.map Region.declaredRights = [⟨0xF5⟩, ⟨0x61⟩] ∧
      space.regions.entries.map Region.rights = [⟨0xF7⟩, ⟨0x61⟩] ∧
      Ensures space.closeWindow machine.memory fun outcome _ =>
        outcome.1 = .ok () ∧
          outcome.2.regions.entries.map Region.rights = [⟨0xF5⟩, ⟨0x61⟩] := by
  intro commands
  have outcome : (declaring.follow (eightFrames, fun _ => []) commands).bind (fun reached =>
      (reached.1.spaces.find? 0).map fun space => (space.loading, reached.2 0)) =
      some (true, [⟨⟨0x400000⟩, 0x2000, ⟨0xF5⟩, true⟩, ⟨⟨0x402000⟩, 0x1000, ⟨0x61⟩, false⟩]) := by
    decide +kernel
  rcases Option.bind_eq_some_iff.mp outcome with ⟨⟨machine, record⟩, ran, outcome⟩
  rcases Option.map_eq_some_iff.mp outcome with ⟨space, found, observed⟩
  rcases Prod.mk.inj observed with ⟨loading, recorded⟩
  rcases declared_rights_survive_load_windows rfl (Regime.reaches_of_follow ran) found with
    ⟨keeps, -⟩
  have declared := keeps.declared
  have opened := keeps.opened loading
  have closes := keeps.closes machine.memory
  dsimp only at recorded
  rw [recorded] at declared opened closes
  refine ⟨machine, record, space, ran, found, loading, declared, opened, ?_⟩
  refine closes.imp ?_
  rintro outcome after ⟨-, closed, -, restored⟩
  exact ⟨closed.mpr loading, restored⟩

end Machine

end PagedMemory
