import PagedMemory.Machine.Answer

/-!
# What a machine can be told

Commands to the frame pool and to RAM concern the machine as a whole.  Of the
commands to an address space, some change what the space records about itself;
the others ask about it or work on the memory behind it.  Each kind of command
has its own `run`.
-/

namespace PagedMemory

open Memory

/-- A command to the frame pool. -/
inductive PoolCommand where
  | bootstrap
  | allocate (count : Nat)
  | release (frame : Frame)
  | allocateKernel (count : Nat)
  | releaseKernel (address : VirtAddr)
  /-- Take a single frame, within the allowance. -/
  | take
  | statistics
  | drain (keep : Nat)
  /-- Limit how many requests for single frames reach the pool, or lift the limit. -/
  | allow (requests : Option Nat)
  /-- Damage the frame table: one entry takes the value of another. -/
  | copyEntry (source target : Nat)
  deriving DecidableEq

namespace PoolCommand

/-- Drain the pool. -/
def drainPool (keep : Nat) : MemoryM Drained
  | ⟨ram, pool, allowance, log⟩ => do
      let (drained, pool) ← pool.drain keep
      return (drained, ⟨ram, pool, allowance, log⟩)

/-- Damage the frame table, if it has the entries. -/
def damage (source target : Nat) : MemoryM Answer
  | ⟨ram, pool, allowance, log⟩ =>
      match pool.copyEntry? source target with
      | some pool => return (.done, ⟨ram, pool, allowance, log⟩)
      | none => return (.refused .noEntry, ⟨ram, pool, allowance, log⟩)

def run : PoolCommand → MemoryM Answer
  | .bootstrap => do
      let ram := (← get).ram
      return .ofResult .bootstrap (fun _ => .done) (← onPool fun pool => pool.bootstrap ram.holds)
  | .allocate count => do
      return .ofResult .allocate .frame (← onPool fun pool => pool.allocate count)
  | .release frame => do
      return .ofResult .release (fun _ => .done) (← releaseFrame frame)
  | .allocateKernel count => do
      return .ofResult .allocate .address (← onPool fun pool => pool.allocateKernel count)
  | .releaseKernel address => do
      return .ofResult .release (fun _ => .done) (← onPool fun pool => pool.releaseKernel address)
  | .take => do
      return .ofResult .take .frame (← takeFrame)
  | .statistics => do
      return .statistics (← get).pool.statistics
  | .drain keep => do
      return .drained (← drainPool keep)
  | .allow requests => do
      modify fun memory => { memory with allowance := requests }
      return .done
  | .copyEntry source target => damage source target

end PoolCommand

/-- A command to RAM. -/
inductive RamCommand where
  | fill (frame : Frame) (byte : UInt8)
  | zero (frame : Frame)
  | copy (source target : Frame)
  /-- Read the word around an address. -/
  | peek (address : PhysAddr)
  /-- Write the word around an address. -/
  | poke (address : PhysAddr) (word : UInt32)
  | hash (frame : Frame)
  deriving DecidableEq

namespace RamCommand

/-- Which word of its frame or page an address lies in. -/
def wordIndex {kind : AddressKind} (address : Address kind) : Nat :=
  address.offset / 4

def run : RamCommand → MemoryM Answer
  | .fill frame byte => do
      fillFrame frame byte
      return .done
  | .zero frame => do
      zeroFrame frame
      return .done
  | .copy source target => do
      copyFrame source target
      return .done
  | .peek address => do
      return .word (← readWord address.block (wordIndex address))
  | .poke address word => do
      writeWord address.block (wordIndex address) word
      return .done
  | .hash frame => do
      return .word (← contents frame).hash

end RamCommand

/-- A command that changes what a space records about itself. -/
inductive SpaceCommand where
  | declare (start : VirtAddr) (size : UInt32) (rights : Rights) (heap : Heap)
  | declareStack
  | openWindow
  | closeWindow
  deriving DecidableEq

namespace SpaceCommand

/-- Run a command; the space is answered as it is afterwards. -/
def run (space : AddressSpace) : SpaceCommand → MemoryM (Answer × AddressSpace)
  | .declare start size rights heap => do
      let (outcome, space) ← space.declare start size rights heap
      return (.ofResult .space (fun _ => .done) outcome, space)
  | .declareStack => do
      let (outcome, space) ← space.declareStack
      return (.ofResult .space .address outcome, space)
  | .openWindow => do
      let (outcome, space) ← space.openWindow
      return (.ofResult .space (fun _ => .done) outcome, space)
  | .closeWindow => do
      let (outcome, space) ← space.closeWindow
      return (.ofResult .space (fun _ => .done) outcome, space)

end SpaceCommand

/-- A command that asks about a space or works on the memory behind it. -/
inductive SpaceAccess where
  /-- Make the space the running one on a processor with some cache slots. -/
  | activate (slots : Nat) (enabled : Bool)
  | rightsAt (address : VirtAddr)
  /-- Ask for the data frame behind an address. -/
  | frameBehind (address : VirtAddr)
  | attach (address : VirtAddr) (frame : Frame)
  | fault (address : VirtAddr)
  /-- Fill the data frame behind an address. -/
  | fillAt (address : VirtAddr) (byte : UInt8)
  /-- Write the word around an address. -/
  | storeAt (address : VirtAddr) (word : UInt32)
  /-- Hash the data frame behind an address. -/
  | hashAt (address : VirtAddr)
  | regions
  | inspectRegions
  | contains (address : VirtAddr)
  | regionPages
  | inspect
  | layout
  deriving DecidableEq

namespace SpaceAccess

/-- Do something with the data frame behind an address, if there is one. -/
def withFrame (space : AddressSpace) (address : VirtAddr) (use : Frame → MemoryM Answer) :
    MemoryM Answer := do
  match ← space.frameBehind address with
  | none => return .nothing
  | some frame => use frame

def run (space : AddressSpace) : SpaceAccess → MemoryM Answer
  | .activate slots enabled => do
      let (invalidations, cpu) := LookasideCache.activate slots (.fresh enabled)
      return .activated invalidations cpu
  | .rightsAt address => do
      return .ofOption .rights (space.rightsAt? address)
  | .frameBehind address => do
      return .ofOption .frame (← space.frameBehind address)
  | .attach address frame => do
      return .ofResult .space (fun _ => .done) (← space.attach address frame)
  | .fault address => do
      return .ofResult .ofFault .frame (← space.serveFault address)
  | .fillAt address byte => withFrame space address fun frame => do
      fillFrame frame byte
      return .frame frame
  | .storeAt address word => withFrame space address fun frame => do
      writeWord frame (RamCommand.wordIndex address) word
      return .frame frame
  | .hashAt address => withFrame space address fun frame => do
      return .word (← contents frame).hash
  | .regions => do
      return .regions space.regions.entries
  | .inspectRegions => do
      return .texts (space.regions.entries.map Region.inspect)
  | .contains address => do
      return .truths (space.regions.entries.map fun region => region.contains address)
  | .regionPages => do
      return .pages (space.regions.entries.map Region.pages)
  | .inspect => do
      return .text space.inspect
  | .layout => do
      return .layout (← space.layout)

end SpaceAccess

end PagedMemory
