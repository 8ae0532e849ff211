/-!
# Spin locks

A spin lock is a flag beside the value it protects.  Whoever changes the flag
from clear to set may use the value, and clears the flag afterwards.

An attempt that does not wait makes a guard whatever the flag was.  A guard that
turns out to be of no use is let go like any other, and letting a guard go
clears the flag: a failed attempt leaves the lock free, whoever holds it.
-/

namespace PagedMemory

/-- A value protected by a flag. -/
structure SpinLock (α : Type) where
  locked : Bool
  value : α
  deriving DecidableEq

namespace SpinLock

variable {α : Type}

/-- A free lock. -/
def new (value : α) : SpinLock α := ⟨false, value⟩

/-- Set the flag if it is clear; the answer is whether it was. -/
def compareExchange (lock : SpinLock α) : Bool × SpinLock α :=
  if lock.locked then (false, lock) else (true, { lock with locked := true })

/-- Clear the flag. -/
def release (lock : SpinLock α) : SpinLock α :=
  { lock with locked := false }

/-- Try once; the answer is whether a guard was obtained. -/
def tryLock (lock : SpinLock α) : Bool × SpinLock α :=
  match lock.compareExchange with
  | (true, lock) => (true, lock)
  | (false, lock) => (false, lock.release)

/-- The lock as it stands in diagnostic text; the value is not shown. -/
def inspect (lock : SpinLock α) : String :=
  s!"SpinLock \x7b locked: {lock.locked}, .. \x7d"

end SpinLock

end PagedMemory
