import PagedMemory.Frames.Error

/-!
# The free stack

The frame table has one entry for every managed frame.  An entry says that its
frame is allocated, or that it is free and which free frame lies below it on
the stack:

```text
first                   first + reserved                       first + total
  ├── table's own frames ──┼──── frames handed out and given back ────┤
  │   (always allocated)   │  head → i → next of i → … → none         │
```

Entries follow one another from the base of the first frame on.  Their bytes have
no fixed layout, so they are kept as an array beside RAM.  The frames that store
them are never handed out, so nobody else writes there.

Links are indices into the table.  The most recently freed frame is handed out
first.  A frame is found to be free by looking at its own entry only, so a
damaged table can put an allocated frame on top of the stack; taking that frame
is refused.
-/

namespace PagedMemory

/-- The record of one managed frame. -/
inductive FrameEntry where
  | allocated
  /-- On the free stack, above the frame with the given index. -/
  | free (next : Option Nat)
  deriving DecidableEq

/-- How many bytes an entry of the frame table takes. -/
def entrySize : Nat := 8

/-- The frame table with the stack of free frames threaded through it. -/
structure FreeStack where
  /-- The frame of the first entry. -/
  first : Frame
  entries : Array FrameEntry
  /-- How many frames the table itself occupies. -/
  reserved : Nat
  /-- The index of the frame on top. -/
  head : Option Nat
  /-- How many frames are on the stack, in a word of 64 bits. -/
  freeCount : Nat
  deriving DecidableEq

namespace FreeStack

/-- How many frames it takes to store a table. -/
def footprint (total : Nat) : Checked Nat :=
  (pagesFor (UInt64.ofNat (total * entrySize))).map UInt64.toNat

/-- The entry of a frame before anything has been handed out. -/
def initialEntry (reserved total index : Nat) : FrameEntry :=
  if index < reserved then .allocated
  else .free (if index + 1 < total then some (index + 1) else none)

/-- A table over consecutive frames, stored in the lowest of them. -/
def build (first : Frame) (total : Nat) : Checked (Except BootstrapError FreeStack) := do
  let reserved ← footprint total
  if total ≤ reserved then
    return .error (.footprintExhaustsMemory reserved total)
  else
    return .ok {
      first
      entries := Array.ofFn fun index : Fin total => initialEntry reserved total index
      reserved
      head := some reserved
      freeCount := total - reserved }

/-- How many frames the table covers. -/
def total (stack : FreeStack) : Nat :=
  stack.entries.size

/-- The frame of an entry. -/
def frameAt (stack : FreeStack) (index : Nat) : Checked Frame :=
  Block.ofNumber (stack.first.number + index)

/-- The first frame past the table's own storage. -/
def reservedEnd (stack : FreeStack) : Checked Frame :=
  stack.frameAt stack.reserved

/-- The entry of a frame, if the table covers it. -/
def indexOf? (stack : FreeStack) (frame : Frame) : Option Nat :=
  if stack.first.number ≤ frame.number ∧ frame.number - stack.first.number < stack.total then
    some (frame.number - stack.first.number)
  else
    none

/-- Take the frame on top. -/
def pop (stack : FreeStack) : Checked (Except TakeError Frame × FreeStack) :=
  match stack.head with
  | none => return (.error .exhausted, stack)
  | some index =>
      if inside : index < stack.entries.size then
        match stack.entries[index] with
        | .allocated => do
            let frame ← stack.frameAt index
            return (.error (.corrupt frame.base), stack)
        | .free next => do
            Checked.require (stack.freeCount ≠ 0) .counterUnderflow
            let frame ← stack.frameAt index
            return (.ok frame, {
              stack with
              entries := stack.entries.set index .allocated
              head := next
              freeCount := stack.freeCount - 1 })
      else
        throw .indexOutOfBounds

/-- Put a frame on top; it must not be one of the table's own. -/
def push (stack : FreeStack) (frame : Frame) : Checked (Except ReleaseError Unit × FreeStack) :=
  match stack.indexOf? frame with
  | none => return (.error (.outOfRange frame.base), stack)
  | some index => do
      Checked.require (stack.reserved ≤ index) .reservedFramePushed
      if inside : index < stack.entries.size then
        match stack.entries[index] with
        | .free _ => return (.error (.doubleFree frame.base), stack)
        | .allocated => do
            Checked.require (stack.freeCount + 1 < UInt64.size) .counterOverflow
            return (.ok (), {
              stack with
              entries := stack.entries.set index (.free stack.head)
              head := some index
              freeCount := stack.freeCount + 1 })
      else
        throw .indexOutOfBounds

/-- Damage the table: one entry takes the value of another. -/
def copyEntry? (stack : FreeStack) (source target : Nat) : Option FreeStack := do
  let entry ← stack.entries[source]?
  if inside : target < stack.entries.size then
    some { stack with entries := stack.entries.set target entry }
  else
    none

/-- Handing out a frame lowers the count of free frames by one. -/
theorem freeCount_of_pop {stack after : FreeStack} {frame : Frame}
    (popped : stack.pop = .ok (.ok frame, after)) :
    after.freeCount + 1 = stack.freeCount := by
  unfold pop at popped
  split at popped
  · simp [pure, Except.pure] at popped
  · rename_i index top
    split at popped
    · split at popped
      · cases located : stack.frameAt index <;>
          simp [located, bind, Except.bind, pure, Except.pure] at popped
      · by_cases positive : stack.freeCount ≠ 0
        · cases located : stack.frameAt index
          · simp [located, positive, bind, Except.bind, Checked.require] at popped
          · simp only [Checked.require_of positive, located, bind, Except.bind, pure, Except.pure,
              Except.ok.injEq, Prod.mk.injEq] at popped
            obtain ⟨-, rfl⟩ := popped
            simp only [ne_eq] at *
            omega
        · simp [Checked.require, positive, bind, Except.bind] at popped
    · simp [throw, throwThe, MonadExceptOf.throw] at popped

end FreeStack

end PagedMemory
