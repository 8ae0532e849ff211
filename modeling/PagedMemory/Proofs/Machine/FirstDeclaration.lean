import Mathlib.Data.List.Find
import PagedMemory.Proofs.Machine.OpenWindows
import PagedMemory.Proofs.Space.Widening

/-!
# The first declaration decides

While no load window is open, the rights at an address are those of the earliest
declaration around it.  Which one that is can be told from the course of the run alone:
a declaration counts as soon as its range is valid and the list of regions can grow, so
one that failed halfway for want of frames counts as well, and a fork starts with the
declarations of its source.

The course of a run only adds declarations at the end, so an address that has been
declared keeps its rights for as long as the space is there.
-/

namespace PagedMemory

open Memory

namespace Declaration

/-- An address of a page that the declared range touches. -/
def Around (declaration : Declaration) (address : VirtAddr) : Prop :=
  AddressSpace.Widened declaration.start declaration.size address

instance (declaration : Declaration) (address : VirtAddr) :
    Decidable (declaration.Around address) :=
  inferInstanceAs (Decidable (AddressSpace.Widened _ _ _))

def Valid (declaration : Declaration) : Prop :=
  AddressSpace.ValidRange declaration.start declaration.size

theorem mem_pages_iff {declaration : Declaration} (valid : declaration.Valid)
    (address : VirtAddr) :
    (address.block : Page) ∈ declaration.pages ↔ declaration.Around address := by
  rw [pages, AddressSpace.pagesOf_of_valid valid]
  exact AddressSpace.mem_run_span_iff

/-- The rights of the earliest declaration around an address. -/
def firstRights? (declarations : List Declaration) (address : VirtAddr) : Option Rights :=
  (declarations.find? fun declaration => declaration.Around address).map Declaration.rights

variable {declarations : List Declaration} {address : VirtAddr} {rights : Rights}

/-- A later declaration does not come first. -/
theorem firstRights?_append (first : firstRights? declarations address = some rights)
    (more : List Declaration) : firstRights? (declarations ++ more) address = some rights := by
  rcases Option.map_eq_some_iff.mp first with ⟨declaration, found, same⟩
  rw [firstRights?, List.find?_append, found, Option.some_or, Option.map_some, same]

/-- Whether a window has been opened is of no account. -/
theorem firstRights?_opened (declarations : List Declaration) (address : VirtAddr) :
    firstRights? (declarations.map fun declaration => { declaration with opened := true })
      address = firstRights? declarations address := by
  rw [firstRights?, List.find?_map, Option.map_map]
  rfl

end Declaration

open Declaration

namespace AddressSpace

variable {space : AddressSpace} {declarations : List Declaration}

/-- While the window is closed, declarations and the place of the stack decide about rights. -/
theorem Reflects.rightsAt?_eq (reflects : space.Reflects declarations)
    (valid : ∀ declaration ∈ declarations, declaration.Valid) (closed : space.loading = false)
    (address : VirtAddr) :
    space.rightsAt? address = (firstRights? declarations address).or
      (if inStack address then some .readWrite else none) := by
  have around : declarations.find? (fun declaration =>
        (address.block : Page) ∈ declaration.pages) =
      declarations.find? fun declaration => declaration.Around address := by
    apply List.find?_congr
    intro declaration member
    exact decide_eq_decide.mpr (mem_pages_iff (valid declaration member) address)
  rw [rightsAt?, reflects.find?_regions, around, firstRights?, closed]
  cases declarations.find? fun declaration => declaration.Around address with
  | none => rfl
  | some declaration => exact congrArg some declaration.rights_region_false

theorem inStack_iff_between (address : VirtAddr) : inStack address = true ↔
    stackTop - stackPages * pageSize ≤ address.toNat ∧ address.toNat < stackTop := by
  rw [inStack, Bool.and_eq_true, decide_eq_true_eq, decide_eq_true_eq, stackBottom]

end AddressSpace

namespace SpaceCommand

variable {space changed : AddressSpace} {declarations : List Declaration}
  {declaration : Declaration} {command : SpaceCommand} {answer : Answer}

/-- What is recorded once a command is answered is new, or it was recorded before. -/
theorem mem_recorded (member : declaration ∈ command.recorded declarations answer) :
    (∃ heap, command =
        .declare declaration.start declaration.size declaration.rights heap) ∨
      ∃ old ∈ declarations, declaration = old ∨ declaration = { old with opened := true } := by
  have appended {start : VirtAddr} {size : UInt32} {rights : Rights}
      (member : declaration ∈ declarations ++ [⟨start, size, rights, false⟩]) (heap : Heap) :
      (∃ heap', SpaceCommand.declare start size rights heap =
          .declare declaration.start declaration.size declaration.rights heap') ∨
        ∃ old ∈ declarations, declaration = old ∨ declaration = { old with opened := true } := by
    rcases List.mem_append.mp member with old | new
    · exact Or.inr ⟨declaration, old, Or.inl rfl⟩
    · rw [List.mem_singleton.mp new]
      exact Or.inl ⟨heap, rfl⟩
  unfold recorded at member
  split at member
  · exact appended member _
  · exact appended member _
  · exact appended member _
  · rcases List.mem_map.mp member with ⟨old, known, rfl⟩
    exact Or.inr ⟨old, known, Or.inr rfl⟩
  · exact Or.inr ⟨declaration, member, Or.inl rfl⟩

/-- A declaration is recorded only if its range is valid. -/
theorem recorded_valid {memory later : Memory}
    (returns : command.run space memory = .ok ((answer, changed), later))
    (valid : ∀ declaration ∈ declarations, declaration.Valid) :
    ∀ declaration ∈ command.recorded declarations answer, declaration.Valid := by
  intro declaration member
  rcases mem_recorded member with ⟨heap, rfl⟩ | ⟨old, known, rfl | rfl⟩
  · by_contra invalid
    -- A refused range would have been answered so, and then it is not recorded.
    rcases bind_eq_ok.mp returns with ⟨⟨outcome, other⟩, between, declared, answered⟩
    rw [AddressSpace.declare_of_invalid invalid] at declared
    cases declared
    cases answered
    exact invalid (valid declaration member)
  · exact valid declaration known
  · exact valid old known

/-- Whatever a command is answered, rights that have been declared stay as they are. -/
theorem recorded_keeps (command : SpaceCommand) (answer : Answer) {address : VirtAddr}
    {rights : Rights} (first : firstRights? declarations address = some rights) :
    firstRights? (command.recorded declarations answer) address = some rights := by
  unfold recorded
  split
  · exact firstRights?_append first _
  · exact firstRights?_append first _
  · exact firstRights?_append first _
  · rw [firstRights?_opened]
    exact first
  · exact first

end SpaceCommand

namespace Machine

variable {first machine after : Machine} {record later : Nat → List Declaration} {name : Nat}
  {space : AddressSpace} {command : Command} {answer : Answer}

/-! ## The course of a run -/

theorem valid_step {table : SpaceTable} (step : machine.TableStep command answer table)
    (valid : ∀ name, ∀ declaration ∈ record name, declaration.Valid) :
    ∀ name, ∀ declaration ∈ command.recorded record answer name, declaration.Valid := by
  have updated (name : Nat) {declarations : List Declaration}
      (fresh : ∀ declaration ∈ declarations, declaration.Valid) :
      ∀ other, ∀ declaration ∈ Function.update record name declarations other,
        declaration.Valid := by
    intro other
    by_cases same : other = name
    · subst same
      rw [Function.update_self]
      exact fresh
    · rw [Function.update_of_ne same]
      exact valid other
  cases step with
  | kept unrecorded =>
      rw [unrecorded]
      exact valid
  | created vacant makes => exact updated _ nofun
  | @changed name command _ space changed memory later found returns =>
      exact updated name (SpaceCommand.recorded_valid returns (valid name))
  | @forked name copy heap space made found vacant makes => exact updated copy (valid name)
  | removed removes =>
      rcases removes with rfl | rfl
      · exact valid
      · exact valid

/-- Only valid ranges have been declared, on every run. -/
theorem valid_of_reaches {state : Machine × (Nat → List Declaration)}
    (records : declaring.Reaches (first, fun _ => []) state) :
    ∀ name, ∀ declaration ∈ state.2 name, declaration.Valid := by
  induction records with
  | refl => exact fun _ => nofun
  | step earlier _ executed induction => exact valid_step (step_of_execute executed) induction

/-- A space that is not removed stays, and its declared addresses keep their rights. -/
theorem keeps_step {table : SpaceTable} (step : machine.TableStep command answer table)
    (stays : command ≠ .destroy name ∧ command ≠ .discard name)
    (found : machine.spaces.find? name = some space) :
    (∃ changed, table.find? name = some changed) ∧
      ∀ address rights, firstRights? (record name) address = some rights →
        firstRights? (command.recorded record answer name) address = some rights := by
  have inserted {other : Nat} (made : AddressSpace) :
      ∃ changed, (machine.spaces.insert other made).find? name = some changed := by
    rw [SpaceTable.find?_insert]
    split
    · exact ⟨made, rfl⟩
    · exact ⟨space, found⟩
  have apart {other : Nat} (vacant : machine.spaces.find? other = none) : name ≠ other := by
    rintro rfl
    cases vacant.symm.trans found
  cases step with
  | kept unrecorded =>
      rw [unrecorded]
      exact ⟨⟨space, found⟩, fun _ _ known => known⟩
  | created vacant makes =>
      refine ⟨inserted _, fun address rights known => ?_⟩
      rw [Command.recorded, Function.update_of_ne (apart vacant)]
      exact known
  | @changed other command _ _ changed _ _ _ _ =>
      refine ⟨inserted _, fun address rights known => ?_⟩
      rw [Command.recorded]
      by_cases same : name = other
      · subst same
        rw [Function.update_self]
        exact SpaceCommand.recorded_keeps command answer known
      · rw [Function.update_of_ne same]
        exact known
  | forked _ vacant makes =>
      refine ⟨inserted _, fun address rights known => ?_⟩
      rw [Command.recorded, Function.update_of_ne (apart vacant)]
      exact known
  | @removed _ other _ removes =>
      have differs : name ≠ other := by
        rintro rfl
        exact removes.elim stays.1 stays.2
      rw [SpaceTable.find?_erase, if_neg differs]
      refine ⟨⟨space, found⟩, fun address rights known => ?_⟩
      rcases removes with rfl | rfl
      · exact known
      · exact known

theorem keeps_of_reaches {state : Machine × (Nat → List Declaration)}
    (found : machine.spaces.find? name = some space)
    (since : (declaring.among fun command =>
      command ≠ .destroy name ∧ command ≠ .discard name).Reaches (machine, record) state) :
    (∃ changed, state.1.spaces.find? name = some changed) ∧
      ∀ address rights, firstRights? (record name) address = some rights →
        firstRights? (state.2 name) address = some rights := by
  induction since with
  | refl => exact ⟨⟨space, found⟩, fun _ _ known => known⟩
  | step earlier allowed executed induction =>
      rcases induction with ⟨⟨changed, located⟩, kept⟩
      rcases keeps_step (step_of_execute executed) allowed.2 located with ⟨present, kept'⟩
      exact ⟨present, fun address rights known => kept' address rights (kept _ _ known)⟩

/--
While the load window is closed, the rights at an address are those of the earliest
declaration, by the course of the run, whose range has the address once it is widened to
whole pages; failing that, the user stack can be read and written, and nothing else is
legal.  Whatever commands follow, short of removing the space, an address that has been
declared has the same rights whenever the window is closed again.
-/
theorem first_declaration_decides_rights (empty : first.spaces = .empty)
    (records : declaring.Reaches (first, fun _ => []) (machine, record))
    (found : machine.spaces.find? name = some space) (address : VirtAddr) :
    let declared? (declarations : List Declaration) : Option Rights :=
      (declarations.find? fun declaration =>
        AddressSpace.Widened declaration.start declaration.size address).map Declaration.rights
    (space.loading = false → space.rightsAt? address = (declared? (record name)).or
      (if stackTop - stackPages * pageSize ≤ address.toNat ∧ address.toNat < stackTop then
        some .readWrite else none)) ∧
      ∀ rights, declared? (record name) = some rights → ∀ after later,
        (declaring.among fun command =>
          command ≠ .destroy name ∧ command ≠ .discard name).Reaches (machine, record)
            (after, later) →
        ∃ changed, after.spaces.find? name = some changed ∧
          (changed.loading = false → changed.rightsAt? address = some rights) := by
  intro declared?
  refine ⟨?_, ?_⟩
  · intro closed
    have reflects : space.Reflects (record name) :=
      reflects_of_reaches empty records name space found
    rw [reflects.rightsAt?_eq (valid_of_reaches records name) closed]
    simp only [AddressSpace.inStack_iff_between]
    rfl
  · intro rights known after later since
    rcases keeps_of_reaches found since with ⟨⟨changed, located⟩, kept⟩
    refine ⟨changed, located, fun closed => ?_⟩
    have continued := records.trans since.widen
    have reflects : changed.Reflects (later name) :=
      reflects_of_reaches empty continued name changed located
    rw [reflects.rightsAt?_eq (valid_of_reaches continued name) closed,
      kept address rights known, Option.some_or]

/--
Two ranges overlap, the second declared in an open window; a third one is declared
without a frame for its table, and again when there is one, with other rights.
-/
theorem first_declaration_decides_rights_past_failure :
    let commands : List Command := [
      .create 0,
      .change 0 (.declare ⟨0x400800⟩ 0x1000 ⟨5⟩ .available),
      .change 0 .openWindow,
      .change 0 (.declare ⟨0x401000⟩ 0x2000 ⟨7⟩ .available),
      .change 0 .closeWindow,
      .pool (.allow (some 0)),
      .change 0 (.declare ⟨0x800000⟩ 0x1000 ⟨0x61⟩ .available)]
    let further : List Command := [
      .pool (.allow none),
      .change 0 (.declare ⟨0x800000⟩ 0x1000 ⟨7⟩ .available),
      .access 0 (.fault ⟨0x800000⟩),
      .change 0 .openWindow,
      .change 0 .closeWindow]
    ∃ machine record space after later changed,
      declaring.follow (eightFrames, fun _ => []) commands = some (machine, record) ∧
      machine.spaces.find? 0 = some space ∧ space.loading = false ∧
      [0x401FFF, 0x402000, 0x403000, 0x800000, 0x7FFFFFFF].map
          (fun word => space.rightsAt? ⟨word⟩) =
        [some ⟨5⟩, some ⟨7⟩, none, some ⟨0x61⟩, some .readWrite] ∧
      declaring.follow (machine, record) further = some (after, later) ∧
      after.spaces.find? 0 = some changed ∧ changed.loading = false ∧
      changed.rightsAt? ⟨0x800000⟩ = some ⟨0x61⟩ := by
  intro commands further
  have outcome : (declaring.follow (eightFrames, fun _ => []) commands).bind (fun reached =>
      (reached.1.spaces.find? 0).bind fun space =>
        (declaring.follow reached further).bind fun ended =>
          (ended.1.spaces.find? 0).map fun changed =>
            (space.loading, reached.2 0, changed.loading)) =
      some (false, [⟨⟨0x400800⟩, 0x1000, ⟨5⟩, true⟩, ⟨⟨0x401000⟩, 0x2000, ⟨7⟩, false⟩,
        ⟨⟨0x800000⟩, 0x1000, ⟨0x61⟩, false⟩], false) := by
    decide +kernel
  rcases Option.bind_eq_some_iff.mp outcome with ⟨⟨machine, record⟩, ran, outcome⟩
  rcases Option.bind_eq_some_iff.mp outcome with ⟨space, found, outcome⟩
  rcases Option.bind_eq_some_iff.mp outcome with ⟨⟨after, later⟩, went, outcome⟩
  rcases Option.map_eq_some_iff.mp outcome with ⟨changed, located, observed⟩
  simp only [Prod.mk.injEq] at observed
  rcases observed with ⟨closed, recorded, closed'⟩
  have decides (word : UInt32) :=
    first_declaration_decides_rights rfl (Regime.reaches_of_follow ran) found ⟨word⟩
  simp only [recorded] at decides
  have answers (word : UInt32) := (decides word).1 closed
  have kept : ∃ changed, after.spaces.find? 0 = some changed ∧
      (changed.loading = false → changed.rightsAt? ⟨0x800000⟩ = some ⟨0x61⟩) :=
    (decides 0x800000).2 ⟨0x61⟩ (by decide +kernel) after later
      (Regime.reaches_among_of_follow (by decide) went)
  rcases kept with ⟨_, present, same⟩
  cases located.symm.trans present
  refine ⟨machine, record, space, after, later, changed, ran, found, closed, ?_, went, located,
    closed', same closed'⟩
  simp only [List.map_cons, List.map_nil, answers]
  decide +kernel

end Machine

end PagedMemory
