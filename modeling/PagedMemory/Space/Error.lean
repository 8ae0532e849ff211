import PagedMemory.Frames.Error

/-!
# Refusals of address spaces

An operation on an address space is refused because something ran out, because
its arguments make no sense for the space, or because a contract was broken.
A broken contract is a `Violation`; it passes through unchanged, so its message
and its cause are those of the space error that carries it.
-/

namespace PagedMemory

/-- A broken contract, as opposed to a shortage. -/
inductive Violation where
  | loadWindowAlreadyOpen
  | loadWindowNotOpen
  /-- The frame pool did not take a frame back. -/
  | frameRelease (cause : ReleaseError)
  /-- The frame pool's own records are damaged. -/
  | corruptAllocator (address : PhysAddr)
  deriving DecidableEq

namespace Violation

def kind : Violation → String
  | .loadWindowAlreadyOpen => "LoadWindowAlreadyOpen"
  | .loadWindowNotOpen => "LoadWindowNotOpen"
  | .frameRelease cause => s!"FrameRelease.{cause.kind}"
  | .corruptAllocator _ => "CorruptAllocator"

def message : Violation → String
  | .loadWindowAlreadyOpen => "load window opened twice"
  | .loadWindowNotOpen => "load window closed without being opened"
  | .frameRelease cause => s!"frame release rejected: {cause.message}"
  | .corruptAllocator address => s!"frame allocator corrupt at {address}"

def inspect : Violation → String
  | .loadWindowAlreadyOpen => "LoadWindowAlreadyOpen"
  | .loadWindowNotOpen => "LoadWindowNotOpen"
  | .frameRelease cause => s!"FrameRelease({cause.inspect})"
  | .corruptAllocator address => s!"CorruptAllocator({address.inspect})"

/-- The refusal behind a violation, if another part of the system caused it. -/
def cause? : Violation → Option ReleaseError
  | .frameRelease cause => some cause
  | .loadWindowAlreadyOpen | .loadWindowNotOpen | .corruptAllocator _ => none

end Violation

/-- Why an operation on an address space was refused. -/
inductive SpaceError where
  /-- The frame pool is empty. -/
  | outOfFrames
  /-- The kernel heap cannot hold a longer region list. -/
  | outOfHeap
  /-- The range is empty or runs past the top of the address space. -/
  | invalidRange (base : VirtAddr) (size : UInt32)
  /-- No second-level table covers the address. -/
  | undeclared (address : VirtAddr)
  /-- The page already has a data frame. -/
  | alreadyBacked (address : VirtAddr)
  | invariant (violation : Violation)
  deriving DecidableEq

namespace SpaceError

/-- What an address space reports when it is refused a frame. -/
def ofTake : TakeError → SpaceError
  | .exhausted => .outOfFrames
  | .corrupt address => .invariant (.corruptAllocator address)

/-- What an address space reports when it cannot give a frame back. -/
def ofRelease (error : ReleaseError) : SpaceError :=
  .invariant (.frameRelease error)

/-- A shortage, from which the caller may recover. -/
def isExhaustion : SpaceError → Bool
  | .outOfFrames | .outOfHeap => true
  | .invalidRange _ _ | .undeclared _ | .alreadyBacked _ | .invariant _ => false

/-- A broken contract, from which the caller should not try to recover. -/
def isViolation : SpaceError → Bool
  | .invariant _ => true
  | .outOfFrames | .outOfHeap | .invalidRange _ _ | .undeclared _ | .alreadyBacked _ => false

def kind : SpaceError → String
  | .outOfFrames => "OutOfFrames"
  | .outOfHeap => "OutOfHeap"
  | .invalidRange _ _ => "InvalidRange"
  | .undeclared _ => "Undeclared"
  | .alreadyBacked _ => "AlreadyBacked"
  | .invariant violation => s!"Invariant.{violation.kind}"

def message : SpaceError → String
  | .outOfFrames => "out of physical frames"
  | .outOfHeap => "out of kernel heap"
  | .invalidRange base size =>
      s!"invalid region at {base} with size {Hexadecimal.compact size.toNat}"
  | .undeclared address => s!"{address} is not declared"
  | .alreadyBacked address => s!"{address} is already backed"
  | .invariant violation => violation.message

def inspect : SpaceError → String
  | .outOfFrames => "OutOfFrames"
  | .outOfHeap => "OutOfHeap"
  | .invalidRange base size => s!"InvalidRange \x7b base: {base.inspect}, size: {size} \x7d"
  | .undeclared address => s!"Undeclared({address.inspect})"
  | .alreadyBacked address => s!"AlreadyBacked({address.inspect})"
  | .invariant violation => s!"Invariant({violation.inspect})"

/-- The refusal behind a space error; a violation passes its own through. -/
def cause? : SpaceError → Option ReleaseError
  | .invariant violation => violation.cause?
  | .outOfFrames | .outOfHeap | .invalidRange _ _ | .undeclared _ | .alreadyBacked _ => none

end SpaceError

end PagedMemory
