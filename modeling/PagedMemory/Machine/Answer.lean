import PagedMemory.Frames.Drain
import PagedMemory.Space.Fork
import PagedMemory.Space.LoadWindow
import PagedMemory.Space.Declare
import PagedMemory.Space.PageFault
import PagedMemory.LookasideCache

/-!
# What a machine answers

Every command is answered with a value or with the reason why it was refused.
-/

namespace PagedMemory

/-- Why a machine refused a command. -/
inductive Refusal where
  | release (cause : ReleaseError)
  | take (cause : TakeError)
  | allocate (cause : AllocateError)
  | bootstrap (cause : BootstrapError)
  | space (cause : SpaceError)
  /-- A page fault at an address that nothing declares. -/
  | illegalAccess
  /-- No address space has the name. -/
  | noSpace
  /-- Another address space has the name. -/
  | occupied
  /-- The frame table has no such entry. -/
  | noEntry
  deriving DecidableEq

namespace Refusal

/-- The short name of the reason. -/
def kind : Refusal → String
  | .release cause => cause.kind
  | .take cause => cause.kind
  | .allocate cause => cause.kind
  | .bootstrap cause => cause.kind
  | .space cause => cause.kind
  | .illegalAccess => "segfault"
  | .noSpace => "no_space"
  | .occupied => "occupied"
  | .noEntry => "no_entry"

/-- The sentence that explains the reason, if the memory system gave it. -/
def message? : Refusal → Option String
  | .release cause => some cause.message
  | .take cause => some cause.message
  | .allocate cause => some cause.message
  | .bootstrap cause => some cause.message
  | .space cause => some cause.message
  | .illegalAccess | .noSpace | .occupied | .noEntry => none

/-- The refusal of a page fault. -/
def ofFault : AddressSpace.FaultError → Refusal
  | .illegalAccess => .illegalAccess
  | .noFrame cause => .take cause
  | .notAttached cause => .space cause

end Refusal

/-- The counters of the frame pool. -/
structure PoolStatistics where
  bootstrapped : Bool
  total : Nat
  free : Nat
  footprint : Nat
  leakedFrees : Nat
  deriving DecidableEq

/-- The counters as they stand. -/
def FramePool.statistics (pool : FramePool) : PoolStatistics :=
  ⟨pool.isBootstrapped, pool.totalFrames, pool.freeFrames, pool.footprintFrames,
    pool.leakedFrees⟩

/-- What a machine answers to a command. -/
inductive Answer where
  | done
  /-- There is nothing at the place that was asked about. -/
  | nothing
  | frame (frame : Frame)
  | address (address : VirtAddr)
  | word (word : UInt32)
  | truth (truth : Bool)
  | truths (truths : List Bool)
  | text (text : String)
  | texts (texts : List String)
  | rights (rights : Rights)
  | statistics (statistics : PoolStatistics)
  | drained (drained : Drained)
  | regions (regions : List Region)
  /-- The pages of each region. -/
  | pages (pages : List (List Page))
  | layout (tables : List AddressSpace.TableLayout)
  /-- The slots discarded, and the processor afterwards. -/
  | activated (invalidations : List Invalidation) (cpu : Cpu)
  | refused (reason : Refusal)
  deriving DecidableEq

namespace Answer

/-- The answer to a command that either succeeds or is refused. -/
def ofResult {ε α : Type} (refusal : ε → Refusal) (value : α → Answer) : Except ε α → Answer
  | .ok result => value result
  | .error error => .refused (refusal error)

/-- The answer to a question that may have none. -/
def ofOption {α : Type} (value : α → Answer) : Option α → Answer
  | some result => value result
  | none => .nothing

end Answer

end PagedMemory
