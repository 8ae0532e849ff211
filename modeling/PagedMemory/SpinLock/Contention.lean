import PagedMemory.SpinLock.Program

/-!
# A lock used by many threads

Each thread works through a program.  The threads take turns in any order, and
one turn is one access to shared memory: a compare-exchange, a load of the flag
while waiting, a read of the value, a write of the value, or the store that
clears the flag.

`runRoundRobin` is the schedule in which the threads take turns in order until
all of them are done.
-/

namespace PagedMemory

/-- What a thread does when it is its turn. -/
inductive LockStage (α ρ : Type) : Nat → Type where
  /-- Go on with the program. -/
  | running {guards : Nat} (program : LockProgram α ρ guards) : LockStage α ρ guards
  /-- Load the flag, and ask for the lock again once it is clear. -/
  | waiting {guards : Nat} (next : LockProgram α ρ (guards + 1)) : LockStage α ρ guards
  /-- Let the guard of a failed attempt go. -/
  | refused {guards : Nat} (next : LockProgram α ρ guards) : LockStage α ρ guards

/-- A thread with the number of guards that it has. -/
structure LockThread (α ρ : Type) where
  guards : Nat
  stage : LockStage α ρ guards

namespace LockThread

variable {α ρ : Type}

/-- A thread that is about to begin a program. -/
def start (program : LockProgram α ρ 0) : LockThread α ρ := ⟨0, .running program⟩

/-- The result of a thread that is done. -/
def result? : LockThread α ρ → Option ρ
  | ⟨_, .running (.done result)⟩ => some result
  | _ => none

/-- Take one turn. -/
def step : LockThread α ρ → SpinLock α → LockThread α ρ × SpinLock α
  | ⟨guards, .running (.done result)⟩, lock => (⟨guards, .running (.done result)⟩, lock)
  | ⟨guards, .running (.lock next)⟩, lock =>
      match lock.compareExchange with
      | (true, lock) => (⟨guards + 1, .running next⟩, lock)
      | (false, lock) => (⟨guards, .waiting next⟩, lock)
  | ⟨guards, .running (.tryLock granted refused)⟩, lock =>
      match lock.compareExchange with
      | (true, lock) => (⟨guards + 1, .running granted⟩, lock)
      | (false, lock) => (⟨guards, .refused refused⟩, lock)
  | ⟨_, .running (.read next)⟩, lock => (⟨_, .running (next lock.value)⟩, lock)
  | ⟨_, .running (.write value next)⟩, lock => (⟨_, .running next⟩, { lock with value })
  | ⟨_, .running (.release next)⟩, lock => (⟨_, .running next⟩, lock.release)
  | ⟨guards, .waiting next⟩, lock =>
      (⟨guards, if lock.locked then .waiting next else .running (.lock next)⟩, lock)
  | ⟨guards, .refused next⟩, lock => (⟨guards, .running next⟩, lock.release)

end LockThread

/-- A lock and the threads that use it. -/
structure Contention (α ρ : Type) where
  lock : SpinLock α
  threads : List (LockThread α ρ)

namespace Contention

variable {α ρ : Type}

/-- A free lock and threads that are about to begin their programs. -/
def start (value : α) (programs : List (LockProgram α ρ 0)) : Contention α ρ :=
  ⟨.new value, programs.map .start⟩

/-- Let one thread take its turn. -/
def step (contention : Contention α ρ) (index : Nat) : Contention α ρ :=
  match contention.threads[index]? with
  | some thread =>
      let (thread, lock) := thread.step contention.lock
      ⟨lock, contention.threads.set index thread⟩
  | none => contention

/-- Let threads take turns in a given order. -/
def run (contention : Contention α ρ) (schedule : List Nat) : Contention α ρ :=
  schedule.foldl step contention

/-- How many guards are alive. -/
def liveGuards (contention : Contention α ρ) : Nat :=
  contention.threads.foldr (fun thread alive => thread.guards + alive) 0

/-- Whether every thread is done. -/
def isDone (contention : Contention α ρ) : Bool :=
  contention.threads.all (·.result?.isSome)

/-- The results of the threads that are done. -/
def results (contention : Contention α ρ) : List ρ :=
  contention.threads.filterMap LockThread.result?

/-- Let the threads take turns in order, for a number of rounds at most. -/
def runRoundRobin (contention : Contention α ρ) : Nat → Contention α ρ
  | 0 => contention
  | rounds + 1 =>
      if contention.isDone then
        contention
      else
        (contention.run (List.range contention.threads.length)).runRoundRobin rounds

/-- Threads that each add one to a counter a number of times. -/
def counting (threads increments : Nat) : Contention Nat Unit :=
  .start 0 (List.replicate threads (.countUp increments))

/--
The lock after all threads of `counting` are done.  A thread needs four turns
for an increment once it gets the lock, and a free lock is taken within two
rounds, so eight rounds for every increment are enough.
-/
def countTogether (threads increments : Nat) : SpinLock Nat :=
  ((counting threads increments).runRoundRobin (8 * threads * increments + 8)).lock

end Contention

end PagedMemory
