import PagedMemory.Machine.Command

/-!
# Machines

A machine is a memory system with address spaces known by number.  It executes
one command at a time.  `transcript` lists what can be observed of a run: after
every command the answer, the counters of the frame pool, the state of the
space the command was about, and the log records written meanwhile.  A panic
ends the run.
-/

namespace PagedMemory

/-- Address spaces with the numbers they are known by. -/
structure SpaceTable where
  entries : List (Nat × AddressSpace)
  deriving DecidableEq

namespace SpaceTable

def empty : SpaceTable := ⟨[]⟩

def find? (table : SpaceTable) (name : Nat) : Option AddressSpace :=
  table.entries.lookup name

/-- Whether a name is taken. -/
def holds (table : SpaceTable) (name : Nat) : Bool :=
  (table.find? name).isSome

def erase (table : SpaceTable) (name : Nat) : SpaceTable :=
  ⟨table.entries.filter fun entry => entry.1 != name⟩

/-- Give a name to a space, which replaces the one that had it. -/
def insert (table : SpaceTable) (name : Nat) (space : AddressSpace) : SpaceTable :=
  ⟨(name, space) :: (table.erase name).entries⟩

@[simp]
theorem find?_empty (name : Nat) : empty.find? name = none :=
  rfl

theorem find?_erase (table : SpaceTable) (name other : Nat) :
    (table.erase name).find? other = if other = name then none else table.find? other := by
  obtain ⟨entries⟩ := table
  simp only [find?, erase]
  induction entries with
  | nil => simp
  | cons entry rest ih =>
      obtain ⟨key, space⟩ := entry
      by_cases kept : key = name <;> by_cases asked : other = key
      · subst kept asked
        simpa using ih
      · have differs : other ≠ name := kept ▸ asked
        simpa [kept, differs, List.lookup_cons, beq_false_of_ne differs] using ih
      · simp [kept, asked]
      · simpa [kept, List.lookup_cons, beq_false_of_ne asked] using ih

theorem find?_insert (table : SpaceTable) (name other : Nat) (space : AddressSpace) :
    (table.insert name space).find? other =
      if other = name then some space else table.find? other := by
  by_cases asked : other = name
  · simp [insert, find?, asked]
  · have erased := table.find?_erase name other
    simp only [asked, if_false, find?] at erased
    simp [insert, find?, asked, erased, List.lookup_cons, beq_false_of_ne asked]

end SpaceTable

/-- A memory system with address spaces. -/
structure Machine where
  memory : Memory
  spaces : SpaceTable
  deriving DecidableEq

/-- What a machine can be told. -/
inductive Command where
  | pool (command : PoolCommand)
  | ram (command : RamCommand)
  | create (name : Nat)
  | change (name : Nat) (command : SpaceCommand)
  | access (name : Nat) (command : SpaceAccess)
  | fork (name copy : Nat) (heap : Heap)
  /-- Tear a space down and answer the outcome. -/
  | destroy (name : Nat)
  /-- Tear a space down without asking for the outcome. -/
  | discard (name : Nat)
  /-- Ask whether two spaces have the same regions. -/
  | sameRegions (name other : Nat)
  deriving DecidableEq

namespace Command

/-- The name of the space that a command is about. -/
def subject? : Command → Option Nat
  | .pool _ | .ram _ => none
  | .create name | .change name _ | .access name _ | .fork name _ _ | .destroy name
  | .discard name | .sameRegions name _ => some name

end Command

namespace Machine

/-- A machine that has just been switched on. -/
def start (ram : Ram) (memory : BootMemory) : Machine :=
  ⟨⟨ram, .new memory, none, []⟩, .empty⟩

/-- Work on a space by its name; a name without a space is refused. -/
def withSpace (machine : Machine) (name : Nat)
    (use : AddressSpace → Machine → Checked (Answer × Machine)) :
    Checked (Answer × Machine) :=
  match machine.spaces.find? name with
  | none => return (.refused .noSpace, machine)
  | some space => use space machine

/-- Execute a command. -/
def execute (machine : Machine) : Command → Checked (Answer × Machine)
  | .pool command => do
      let ⟨memory, spaces⟩ := machine
      let (answer, memory) ← command.run memory
      return (answer, ⟨memory, spaces⟩)
  | .ram command => do
      let ⟨memory, spaces⟩ := machine
      let (answer, memory) ← command.run memory
      return (answer, ⟨memory, spaces⟩)
  | .create name =>
      if machine.spaces.holds name then
        return (.refused .occupied, machine)
      else do
        let ⟨memory, spaces⟩ := machine
        let (outcome, memory) ← AddressSpace.create memory
        match outcome with
        | .error refusal => return (.refused (.space refusal), ⟨memory, spaces⟩)
        | .ok space => return (.frame space.root, ⟨memory, spaces.insert name space⟩)
  | .change name command => machine.withSpace name fun space machine => do
      let ⟨memory, spaces⟩ := machine
      let ((answer, space), memory) ← command.run space memory
      return (answer, ⟨memory, spaces.insert name space⟩)
  | .access name command => machine.withSpace name fun space machine => do
      let ⟨memory, spaces⟩ := machine
      let (answer, memory) ← command.run space memory
      return (answer, ⟨memory, spaces⟩)
  | .fork name copy heap => machine.withSpace name fun space machine =>
      if machine.spaces.holds copy then
        return (.refused .occupied, machine)
      else do
        let ⟨memory, spaces⟩ := machine
        let (outcome, memory) ← space.fork heap memory
        match outcome with
        | .error refusal => return (.refused (.space refusal), ⟨memory, spaces⟩)
        | .ok forked => return (.frame forked.root, ⟨memory, spaces.insert copy forked⟩)
  | .destroy name => machine.withSpace name fun space machine => do
      let ⟨memory, spaces⟩ := machine
      let (outcome, memory) ← space.destroy memory
      return (.ofResult .space (fun _ => .done) outcome, ⟨memory, spaces.erase name⟩)
  | .discard name => machine.withSpace name fun space machine => do
      let ⟨memory, spaces⟩ := machine
      let ((), memory) ← space.discard memory
      return (.done, ⟨memory, spaces.erase name⟩)
  | .sameRegions name other => machine.withSpace name fun space machine =>
      machine.withSpace other fun against machine =>
        return (.truth (space.regions.entries = against.regions.entries), machine)

/-! ## Observing a run -/

/-- What can be seen of a space without walking its tables. -/
structure SpaceStatus where
  root : Frame
  regions : Nat
  loading : Bool
  leakedFrames : Nat
  deriving DecidableEq

/-- What can be seen of a space at the moment. -/
def status? (machine : Machine) (name : Nat) : Option SpaceStatus :=
  (machine.spaces.find? name).map fun space =>
    ⟨space.root, space.regions.length, space.loading, space.leakedFrames⟩

/-- What can be seen after a command. -/
structure Observation where
  answer : Answer
  pool : PoolStatistics
  /-- The space that the command was about, if it exists. -/
  space : Option SpaceStatus
  /-- The log records written meanwhile, oldest first. -/
  log : List Event
  deriving DecidableEq

/-- Forget the log records. -/
def clearLog : Machine → Machine
  | ⟨⟨ram, pool, allowance, _⟩, spaces⟩ => ⟨⟨ram, pool, allowance, []⟩, spaces⟩

/-- Execute a command and look at the machine. -/
def observe (machine : Machine) (command : Command) : Checked (Observation × Machine) := do
  let (answer, machine) ← machine.execute command
  let observation : Observation := {
    answer
    pool := machine.memory.pool.statistics
    space := command.subject?.bind machine.status?
    log := machine.memory.log.reverse }
  return (observation, machine.clearLog)

/-- What can be seen of a run, up to the first panic. -/
def transcript (machine : Machine) : List Command → List (Checked Observation)
  | [] => []
  | command :: rest =>
      match machine.observe command with
      | .error panic => [.error panic]
      | .ok (observation, machine) => .ok observation :: machine.transcript rest

end Machine

end PagedMemory
