import PagedMemory.Frames.Error

/-!
# Log records of the frame pool

The pool reports what it does as values.  A record has a severity and a text.
-/

namespace PagedMemory

/-- How much attention a log record deserves. -/
inductive Severity where
  | trace
  | debug
  | info
  | warn
  | error
  deriving DecidableEq

/-- The name of a severity in front of a log record. -/
def Severity.tag : Severity → String
  | .trace => "TRACE"
  | .debug => "DEBUG"
  | .info => "INFO"
  | .warn => "WARN"
  | .error => "ERROR"

/-- What the frame pool reports. -/
inductive PoolEvent where
  /-- Memory past the reach of the direct map is left alone. -/
  | unreachableIgnored (limit last : PhysAddr)
  | tableBuilt (first last : PhysAddr) (total reserved free : Nat)
  /-- A frame that can never be handed out again was given back. -/
  | reservedReleased (frame : Frame) (leaked : Nat)
  | takeFailed (error : TakeError)
  /-- A frame that the kernel cannot reach could not be given back either. -/
  | returnFailed (frame : Frame) (error : ReleaseError)
  deriving DecidableEq

namespace PoolEvent

def severity : PoolEvent → Severity
  | .tableBuilt _ _ _ _ _ => .info
  | .unreachableIgnored _ _ | .reservedReleased _ _ => .warn
  | .takeFailed _ | .returnFailed _ _ => .error

def text : PoolEvent → String
  | .unreachableIgnored limit last => s!"ignoring RAM {limit}..{last} beyond the direct map"
  | .tableBuilt first last total reserved free =>
      s!"frame table over {first}..{last}: {total} frames, {reserved} reserved, {free} free"
  | .reservedReleased frame leaked =>
      s!"ignoring free of reserved frame {frame} ({leaked} leaked so far)"
  | .takeFailed error => s!"frame allocation failed: {error.message}"
  | .returnFailed frame error => s!"returning unreachable frame {frame} failed: {error.message}"

end PoolEvent

end PagedMemory
