import PagedMemory.Frames.Event
import PagedMemory.Space.Error
import PagedMemory.Space.Region

/-!
# Log records of address spaces

A log record comes from the frame pool or from an address space.
-/

namespace PagedMemory

/-- What the memory system reports. -/
inductive Event where
  | pool (event : PoolEvent)
  | spaceCreated (root : Frame)
  /-- A second-level table was added to the directory. -/
  | tableAdded (table : Frame) (slot : Nat)
  /-- A page was declared again and lost its data frame. -/
  | pageRedeclared (page : Page) (frame : Frame) (leaked : Nat)
  | regionDeclared (region : Region)
  | stackDeclared
  | windowOpened (regions : Nat)
  | windowClosed
  | emptyForked (source target : Frame)
  | forked (source target : Frame) (regions frames : Nat)
  | spaceDestroyed (root : Frame) (dataFrames : Nat)
  /-- A space that was dropped could not give back all of its frames. -/
  | dropFailed (root : Frame) (error : SpaceError)
  deriving DecidableEq

namespace Event

def severity : Event → Severity
  | .pool event => event.severity
  | .tableAdded _ _ | .regionDeclared _ | .stackDeclared | .windowOpened _ | .windowClosed =>
      .trace
  | .spaceCreated _ | .emptyForked _ _ | .forked _ _ _ _ | .spaceDestroyed _ _ => .debug
  | .pageRedeclared _ _ _ => .warn
  | .dropFailed _ _ => .error

def text : Event → String
  | .pool event => event.text
  | .spaceCreated root => s!"address space created, root {root}"
  | .tableAdded table slot => s!"page table {table} covers directory slot {slot}"
  | .pageRedeclared page frame leaked =>
      s!"redeclaring {page.inspect} leaks backing frame {frame} ({leaked} leaked so far)"
  | .regionDeclared region => s!"declared {region.inspect}"
  | .stackDeclared => s!"declared stack below {Hexadecimal.word (UInt32.ofNat stackTop)}"
  | .windowOpened regions => s!"load window open over {regions} regions"
  | .windowClosed => "load window closed"
  | .emptyForked source target => s!"copied empty address space {source} -> {target}"
  | .forked source target regions frames =>
      s!"copied address space {source} -> {target} ({regions} regions, {frames} frames)"
  | .spaceDestroyed root dataFrames =>
      s!"destroyed address space {root} ({dataFrames} data frames)"
  | .dropFailed root error => s!"address space {root} leaked frames on drop: {error.message}"

/-- A log record as one line. -/
def line (event : Event) : String :=
  s!"{event.severity.tag} {event.text}"

end Event

end PagedMemory
