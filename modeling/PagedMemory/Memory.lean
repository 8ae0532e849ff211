import PagedMemory.Frames.Pool
import PagedMemory.Space.Event
import PagedMemory.Ram

/-!
# The memory system

Everything that address spaces share: RAM, the frame pool and the log.  A
computation on the memory system is a `MemoryM`; it changes the state or
panics.  Refusals are part of its value, so the state that a refused operation
leaves behind is always explicit.

The frame table is part of the pool, and RAM does not show the bytes of its entries.
The frames that store them belong to the pool alone.

Single frames are taken through an *allowance*.  Once it is used up, requests
are refused without reaching the pool, which makes the point at which memory
runs out a parameter of every run.
-/

namespace PagedMemory

/-- The state that address spaces share. -/
structure Memory where
  ram : Ram
  pool : FramePool
  /-- How many requests for single frames still reach the pool; no bound if absent. -/
  allowance : Option Nat
  /-- The log records, newest first. -/
  log : List Event
  deriving DecidableEq

/-- A computation on the memory system. -/
abbrev MemoryM := StateT Memory Checked

namespace Memory

/-- Add a log record. -/
def record (event : Event) : MemoryM Unit
  | ⟨ram, pool, allowance, log⟩ => .ok ((), ⟨ram, pool, allowance, event :: log⟩)

/-! ## RAM -/

/-- Look at RAM. -/
def inspectRam {α : Type} (view : Ram → Checked α) : MemoryM α := fun memory => do
  let value ← view memory.ram
  return (value, memory)

/-- Change RAM. -/
def changeRam (change : Ram → Checked Ram) : MemoryM Unit
  | ⟨ram, pool, allowance, log⟩ => do
      let ram ← change ram
      return ((), ⟨ram, pool, allowance, log⟩)

def readWord (frame : Frame) (index : Nat) : MemoryM UInt32 :=
  inspectRam fun ram => ram.readWord frame index

def writeWord (frame : Frame) (index : Nat) (word : UInt32) : MemoryM Unit :=
  changeRam fun ram => ram.writeWord frame index word

def contents (frame : Frame) : MemoryM FrameContents :=
  inspectRam fun ram => ram.read frame

def fillFrame (frame : Frame) (byte : UInt8) : MemoryM Unit :=
  changeRam fun ram => ram.write frame (.filled byte)

def zeroFrame (frame : Frame) : MemoryM Unit :=
  changeRam fun ram => ram.write frame .zero

def copyFrame (source target : Frame) : MemoryM Unit :=
  changeRam fun ram => ram.copy source target

/-! ## Tables in RAM -/

/-- A slot of the directory in a frame. -/
def directorySlot (directory : Frame) (index : Nat) : MemoryM DirectorySlot := do
  return .decode ⟨← readWord directory index⟩

def setDirectorySlot (directory : Frame) (index : Nat) (slot : DirectorySlot) : MemoryM Unit :=
  writeWord directory index slot.encode.bits

/-- A slot of the second-level table in a frame. -/
def pageSlot (table : Frame) (index : Nat) : MemoryM PageSlot := do
  let word ← readWord table index
  PageSlot.decode ⟨word⟩

def setPageSlot (table : Frame) (index : Nat) (slot : PageSlot) : MemoryM Unit :=
  writeWord table index slot.encode.bits

/-- The frame that a slot of either level names, whatever the other bits say. -/
def slotFrame? (table : Frame) (index : Nat) : MemoryM (Option Frame) := do
  return (TableWord.mk (← readWord table index)).frame?

/-- The tables of the directory in a frame. -/
def tables (directory : Frame) : MemoryM (List (Nat × Frame)) := do
  return (PageDirectory.mk (← contents directory)).tables

/-- The data frames of the second-level table in a frame. -/
def backed (table : Frame) : MemoryM (List (Nat × Frame)) := do
  return (PageTable.mk (← contents table)).backed

/-! ## Frames -/

/-- Run an operation of the frame pool. -/
def onPool {ε α : Type} (operation : FramePool → Checked (Reply ε α)) : MemoryM (Except ε α)
  | ⟨ram, pool, allowance, log⟩ => do
      let ⟨result, pool, events⟩ ← operation pool
      let log := events.foldl (fun log event => .pool event :: log) log
      return (result, ⟨ram, pool, allowance, log⟩)

/-- Take a single frame, within the allowance. -/
def takeFrame : MemoryM (Except TakeError Frame)
  | ⟨ram, pool, some 0, log⟩ => .ok (.error .exhausted, ⟨ram, pool, some 0, log⟩)
  | ⟨ram, pool, some (left + 1), log⟩ => onPool FramePool.take ⟨ram, pool, some left, log⟩
  | ⟨ram, pool, none, log⟩ => onPool FramePool.take ⟨ram, pool, none, log⟩

/-- Give a frame back. -/
def releaseFrame (frame : Frame) : MemoryM (Except ReleaseError Unit) :=
  onPool fun pool => pool.release frame

/-- Take a frame and fill it with zeros. -/
def takeZeroed : MemoryM (Except TakeError Frame) := do
  match ← takeFrame with
  | .error refusal => return .error refusal
  | .ok frame =>
      zeroFrame frame
      return .ok frame

/-- Take a frame and give it the contents of another one. -/
def takeCopy (source : Frame) : MemoryM (Except TakeError Frame) := do
  match ← takeFrame with
  | .error refusal => return .error refusal
  | .ok frame =>
      copyFrame source frame
      return .ok frame

/-! ## What the steps do to the state -/

/-- A sequence ends in a state exactly if each of its steps does. -/
theorem bind_eq_ok {α β : Type} {step : MemoryM α} {next : α → MemoryM β}
    {before after : Memory} {result : β} :
    (step >>= next) before = .ok (result, after) ↔
      ∃ value between, step before = .ok (value, between) ∧
        next value between = .ok (result, after) := by
  change (step before >>= fun reached => next reached.1 reached.2) = _ ↔ _
  simp [Checked.bind_eq_ok]

theorem pure_eq_ok {α : Type} {value result : α} {before after : Memory} :
    (pure value : MemoryM α) before = .ok (result, after) ↔ result = value ∧ after = before := by
  change Except.ok (value, before) = Except.ok (result, after) ↔ _
  simp [eq_comm]

theorem record_eq (event : Event) (memory : Memory) :
    record event memory = .ok ((), { memory with log := event :: memory.log }) :=
  rfl

theorem inspectRam_eq_ok {α : Type} {view : Ram → Checked α} {before after : Memory} {value : α} :
    inspectRam view before = .ok (value, after) ↔
      view before.ram = .ok value ∧ after = before := by
  simp only [inspectRam, Checked.bind_eq_ok, pure, Except.pure, Except.ok.injEq, Prod.mk.injEq]
  constructor
  · rintro ⟨seen, viewed, rfl, rfl⟩
    exact ⟨viewed, rfl⟩
  · rintro ⟨viewed, rfl⟩
    exact ⟨value, viewed, rfl, rfl⟩

theorem changeRam_eq_ok {change : Ram → Checked Ram} {before after : Memory} :
    changeRam change before = .ok ((), after) ↔
      ∃ ram, change before.ram = .ok ram ∧ after = { before with ram } := by
  simp only [changeRam, Checked.bind_eq_ok, pure, Except.pure, Except.ok.injEq, Prod.mk.injEq,
    true_and]
  constructor
  · rintro ⟨ram, changed, rfl⟩
    exact ⟨ram, changed, rfl⟩
  · rintro ⟨ram, changed, rfl⟩
    exact ⟨ram, changed, rfl⟩

theorem onPool_eq_ok {ε α : Type} {operation : FramePool → Checked (Reply ε α)}
    {before after : Memory} {result : Except ε α} :
    onPool operation before = .ok (result, after) ↔
      ∃ reply, operation before.pool = .ok reply ∧ result = reply.result ∧
        after = { before with
          pool := reply.pool
          log := reply.events.foldl (fun log event => .pool event :: log) before.log } := by
  simp only [onPool, Checked.bind_eq_ok, pure, Except.pure, Except.ok.injEq, Prod.mk.injEq]
  constructor
  · rintro ⟨reply, replied, rfl, rfl⟩
    exact ⟨reply, replied, rfl, rfl⟩
  · rintro ⟨reply, replied, rfl, rfl⟩
    exact ⟨reply, replied, rfl, rfl⟩

/-- Without an allowance left, no request reaches the pool. -/
theorem takeFrame_of_spent {memory : Memory} (spent : memory.allowance = some 0) :
    takeFrame memory = .ok (.error .exhausted, memory) := by
  obtain ⟨ram, pool, allowance, log⟩ := memory
  subst spent
  rfl

/-- With an allowance, or without a limit, the pool decides. -/
theorem takeFrame_of_allowed {memory : Memory} (allowed : memory.allowance ≠ some 0) :
    takeFrame memory =
      onPool FramePool.take { memory with allowance := memory.allowance.map (· - 1) } := by
  obtain ⟨ram, pool, allowance, log⟩ := memory
  match allowance with
  | none => rfl
  | some 0 => exact absurd rfl allowed
  | some (left + 1) => rfl

end Memory

end PagedMemory
