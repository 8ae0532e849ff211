import PagedMemory.SpinLock.Basic

/-!
# A lock used by one thread

One thread uses a lock around a list of integers and keeps at most one guard.
What would wait for a guard that the same thread holds is not even begun.
-/

namespace PagedMemory

/-- A lock with the guard that its only user may hold. -/
structure LockSession where
  lock : SpinLock (List Int)
  held : Bool
  deriving DecidableEq

namespace LockSession

/-- One use of the lock. -/
inductive Command where
  | lock
  | tryLock
  | unlock
  /-- Append through the guard. -/
  | push (item : Int)
  /-- Remove the last item through the guard. -/
  | pop
  /-- Look at the list through the guard. -/
  | read
  /-- Append while holding the lock for that long only. -/
  | withPush (item : Int)
  /-- The same, with a panic after the item was appended. -/
  | withPanic (item : Int)
  /-- Append without taking the lock, which no other user can hold. -/
  | exclusivePush (item : Int)
  | inspect
  deriving DecidableEq

/-- What a use of the lock answers. -/
inductive Answer where
  | done
  | flag (value : Bool)
  | length (value : Nat)
  | item (value : Option Int)
  | items (values : List Int)
  /-- There is no guard to go through. -/
  | noGuard
  | wouldBlock
  | panicked
  | text (value : String)
  deriving DecidableEq

/-- A free lock and no guard. -/
def start (items : List Int) : LockSession := ⟨.new items, false⟩

/-- The session with another list behind the lock. -/
def withItems (session : LockSession) (items : List Int) : LockSession :=
  { session with lock := { session.lock with value := items } }

/-- Do something that needs the lock to be free; it is free again afterwards. -/
def whenFree (session : LockSession) (change : List Int → Answer × List Int) :
    Answer × LockSession :=
  if session.held then
    (.wouldBlock, session)
  else
    let (answer, items) := change session.lock.value
    (answer, session.withItems items)

/-- Do something through the guard. -/
def throughGuard (session : LockSession) (change : List Int → Answer × List Int) :
    Answer × LockSession :=
  if session.held then
    let (answer, items) := change session.lock.value
    (answer, session.withItems items)
  else
    (.noGuard, session)

/-- Append an item and answer the new length. -/
def append (item : Int) (items : List Int) : Answer × List Int :=
  (.length (items.length + 1), items ++ [item])

def step (session : LockSession) : Command → Answer × LockSession
  | .lock =>
      if session.held then
        (.wouldBlock, session)
      else
        (.done, ⟨session.lock.compareExchange.2, true⟩)
  | .tryLock =>
      match session.lock.tryLock with
      | (false, lock) => (.flag false, { session with lock })
      | (true, lock) =>
          -- A guard held before gives way to the new one and is let go.
          (.flag true, ⟨if session.held then lock.release else lock, true⟩)
  | .unlock =>
      if session.held then
        (.flag true, ⟨session.lock.release, false⟩)
      else
        (.flag false, session)
  | .push item => session.throughGuard (append item)
  | .pop =>
      session.throughGuard fun items => (.item items.getLast?, items.dropLast)
  | .read => session.throughGuard fun items => (.items items, items)
  | .withPush item | .exclusivePush item => session.whenFree (append item)
  | .withPanic item => session.whenFree fun items => (.panicked, items ++ [item])
  | .inspect => (.text session.lock.inspect, session)

/-- The answers to some commands, each with the flag after it, and the list at the end. -/
def transcript (session : LockSession) : List Command → List (Answer × Bool) × List Int
  | [] => ([], session.lock.value)
  | command :: rest =>
      let (answer, session) := session.step command
      let (answers, items) := session.transcript rest
      ((answer, session.lock.locked) :: answers, items)

end LockSession

end PagedMemory
