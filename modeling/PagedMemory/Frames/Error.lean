import PagedMemory.Address

/-!
# Refusals of the frame pool

Handing out frames, taking them back and building the frame table can each be
refused.  Every refusal names its cause; `kind` is the short name of the cause,
`message` the sentence for people, and `inspect` the diagnostic text that shows
the cause together with what it carries.
-/

namespace PagedMemory

/-- Why a frame could not be given back. -/
inductive ReleaseError where
  /-- The frame lies past the end of managed memory. -/
  | outOfRange (address : PhysAddr)
  /-- The frame is already free. -/
  | doubleFree (address : PhysAddr)
  /-- A kernel address outside the direct-mapped segment. -/
  | notDirectMapped (address : VirtAddr)
  deriving DecidableEq

namespace ReleaseError

def kind : ReleaseError → String
  | .outOfRange _ => "OutOfRange"
  | .doubleFree _ => "DoubleFree"
  | .notDirectMapped _ => "NotDirectMapped"

def message : ReleaseError → String
  | .outOfRange address => s!"frame {address} is outside managed memory"
  | .doubleFree address => s!"frame {address} freed twice"
  | .notDirectMapped address => s!"{address} is not a direct-mapped kernel address"

def inspect (error : ReleaseError) : String :=
  let address :=
    match error with
    | .outOfRange address => address.inspect
    | .doubleFree address => address.inspect
    | .notDirectMapped address => address.inspect
  s!"{error.kind}({address})"

end ReleaseError

/-- Why a single frame could not be taken. -/
inductive TakeError where
  /-- Every frame is in use. -/
  | exhausted
  /-- The frame at the top of the free stack is not marked free. -/
  | corrupt (address : PhysAddr)
  deriving DecidableEq

namespace TakeError

def kind : TakeError → String
  | .exhausted => "Exhausted"
  | .corrupt _ => "Corrupt"

def message : TakeError → String
  | .exhausted => "out of physical frames"
  | .corrupt address => s!"frame allocator corrupt at {address}"

def inspect : TakeError → String
  | .exhausted => "Exhausted"
  | .corrupt address => s!"Corrupt({address.inspect})"

end TakeError

/-- Why a run of frames could not be allocated. -/
inductive AllocateError where
  /-- No free frame is left. -/
  | outOfMemory
  /-- A run without frames was requested. -/
  | zeroFrames
  /-- Runs of several frames only come from boot memory. -/
  | multiFrameAfterBootstrap (requested : Nat)
  /-- The frame at the top of the free stack is not marked free. -/
  | corruptFreeStack (address : PhysAddr)
  /-- The run starts beyond the reach of the direct map. -/
  | notDirectMapped (address : PhysAddr)
  deriving DecidableEq

namespace AllocateError

/-- What a caller that asked for a run learns when a single frame is refused. -/
def ofTake : TakeError → AllocateError
  | .exhausted => .outOfMemory
  | .corrupt address => .corruptFreeStack address

def kind : AllocateError → String
  | .outOfMemory => "OutOfMemory"
  | .zeroFrames => "ZeroFrames"
  | .multiFrameAfterBootstrap _ => "MultiFrameAfterBootstrap"
  | .corruptFreeStack _ => "CorruptFreeList"
  | .notDirectMapped _ => "NotDirectMapped"

def message : AllocateError → String
  | .outOfMemory => "out of physical memory"
  | .zeroFrames => "zero frames requested"
  | .multiFrameAfterBootstrap requested =>
      s!"{requested} contiguous frames requested after bootstrap"
  | .corruptFreeStack address => s!"free list corrupt at {address}"
  | .notDirectMapped address => s!"frame {address} is outside the kernel direct map"

def inspect (error : AllocateError) : String :=
  match error with
  | .outOfMemory | .zeroFrames => error.kind
  | .multiFrameAfterBootstrap requested =>
      s!"{error.kind} \x7b requested: {requested} \x7d"
  | .corruptFreeStack address | .notDirectMapped address =>
      s!"{error.kind}({address.inspect})"

end AllocateError

/-- Why the frame table could not be built. -/
inductive BootstrapError where
  | alreadyBootstrapped
  /-- A bound of the usable memory is not a multiple of the frame size. -/
  | unaligned (first last : PhysAddr)
  | emptyRange
  /-- The table would leave no frame to manage. -/
  | footprintExhaustsMemory (footprint total : Nat)
  deriving DecidableEq

namespace BootstrapError

def kind : BootstrapError → String
  | .alreadyBootstrapped => "AlreadyBootstrapped"
  | .unaligned _ _ => "Unaligned"
  | .emptyRange => "EmptyRange"
  | .footprintExhaustsMemory _ _ => "FootprintExhaustsMemory"

def message : BootstrapError → String
  | .alreadyBootstrapped => "frame table already bootstrapped"
  | .unaligned first last => s!"usable range {first}..{last} is not frame-aligned"
  | .emptyRange => "usable range is empty"
  | .footprintExhaustsMemory footprint total =>
      s!"frame table needs {footprint} of {total} frames"

def inspect (error : BootstrapError) : String :=
  match error with
  | .alreadyBootstrapped | .emptyRange => error.kind
  | .unaligned first last =>
      s!"{error.kind} \x7b first: {first.inspect}, last: {last.inspect} \x7d"
  | .footprintExhaustsMemory footprint total =>
      s!"{error.kind} \x7b footprint_frames: {footprint}, total_frames: {total} \x7d"

end BootstrapError

end PagedMemory
