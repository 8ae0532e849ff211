import PagedMemory.SpinLock.Basic

/-!
# Programs that use a spin lock

A program is what one thread does with a lock.  It goes through the value only under
a guard, and only a guard that it has can be let go, so its type tells how many guards
it has.  What comes next may depend on what was read and on how an attempt went, which
makes a program a tree.

A critical section is what is done under one guard.  It finishes with a result or
panics, and the guard is let go in either case: unwinding drops it like leaving does.
-/

namespace PagedMemory

/-- What a thread that has some number of guards does with a lock around values of one
type, up to the result that it ends with. -/
inductive LockProgram (α ρ : Type) : Nat → Type where
  /-- Nothing more; guards that are left are kept for good. -/
  | done {guards : Nat} (result : ρ) : LockProgram α ρ guards
  /-- Wait for a guard. -/
  | lock {guards : Nat} (next : LockProgram α ρ (guards + 1)) : LockProgram α ρ guards
  /-- Try once to get a guard. -/
  | tryLock {guards : Nat} (granted : LockProgram α ρ (guards + 1))
      (refused : LockProgram α ρ guards) : LockProgram α ρ guards
  /-- Read the value through a guard. -/
  | read {guards : Nat} (next : α → LockProgram α ρ (guards + 1)) :
      LockProgram α ρ (guards + 1)
  /-- Write the value through a guard. -/
  | write {guards : Nat} (value : α) (next : LockProgram α ρ (guards + 1)) :
      LockProgram α ρ (guards + 1)
  /-- Let a guard go. -/
  | release {guards : Nat} (next : LockProgram α ρ guards) : LockProgram α ρ (guards + 1)

/-- What is done with a value under one guard. -/
inductive CriticalSection (α β : Type) where
  | read (next : α → CriticalSection α β)
  | write (value : α) (next : CriticalSection α β)
  | finish (result : β)
  | panic

namespace CriticalSection

variable {α β ρ : Type}

/-- The result of a section that nobody interferes with, and the value after it.  A
panic has no result, but what was written before it stays. -/
def evaluate : CriticalSection α β → α → Option β × α
  | .read next, value => (next value).evaluate value
  | .write value next, _ => next.evaluate value
  | .finish result, value => (some result, value)
  | .panic, value => (none, value)

/-- Do a section under a guard, let the guard go and go on with the result, if any. -/
def thenRelease {guards : Nat} (after : Option β → LockProgram α ρ guards) :
    CriticalSection α β → LockProgram α ρ (guards + 1)
  | .read next => .read fun value => (next value).thenRelease after
  | .write value next => .write value (next.thenRelease after)
  | .finish result => .release (after (some result))
  | .panic => .release (after none)

/-- Finish with a result, or panic if there is none. -/
def leave : Option β → CriticalSection α β
  | some result => .finish result
  | none => .panic

/-- Add one to a counter, and finish or panic after it. -/
def increment (ending : Option Unit) : CriticalSection Nat Unit :=
  .read fun count => .write (count + 1) (leave ending)

/-- Append an item to a list, and finish or panic after it. -/
def push (item : α) (ending : Option Unit) : CriticalSection (List α) Unit :=
  .read fun items => .write (items ++ [item]) (leave ending)

/-- Remove the last item of a list. -/
def pop : CriticalSection (List α) (Option α) :=
  .read fun items =>
    match items.getLast? with
    | none => .finish none
    | some item => .write items.dropLast (.finish (some item))

end CriticalSection

namespace LockProgram

variable {α β ρ : Type} {guards : Nat}

/-- Do a section with the lock held. -/
def withLock (work : CriticalSection α β) (after : Option β → LockProgram α ρ guards) :
    LockProgram α ρ guards :=
  .lock (work.thenRelease after)

/-- Do a section if the lock can be had at once. -/
def tryWith (work : CriticalSection α β) (after : Option β → LockProgram α ρ guards)
    (refused : LockProgram α ρ guards) : LockProgram α ρ guards :=
  .tryLock (work.thenRelease after) refused

/-- Add one to a counter a number of times. -/
def countUp : Nat → LockProgram Nat Unit 0
  | 0 => .done ()
  | rounds + 1 => withLock (.increment (some ())) fun _ => countUp rounds

end LockProgram

end PagedMemory
