import Mathlib.Algebra.Order.BigOperators.Group.List
import Mathlib.Algebra.Order.Ring.Canonical
import Mathlib.Algebra.Order.Ring.Nat
import PagedMemory.SpinLock.Contention

/-!
# One guard at a time

The flag counts the guards that are alive: it is set as long as there is one, and there
is never a second.  Every turn keeps this but one.  When the guard of a failed attempt
is let go while another thread has a guard, the flag is cleared under that guard, and
the next thread that asks gets a second one.

A schedule without such a turn is called undisturbed.  The count is right at every
moment of a schedule exactly if the schedule is undisturbed, and a thread that always
waits for the lock never makes an attempt that could fail.
-/

namespace PagedMemory

variable {α ρ : Type} {guards : Nat}

namespace LockProgram

/-- The program asks for a guard, and goes on under it. -/
inductive Asks : LockProgram α ρ guards → LockProgram α ρ (guards + 1) → Prop
  | lock {next} : Asks (.lock next) next
  | tryLock {granted refused} : Asks (.tryLock granted refused) granted

/-- The program asks for a guard only by waiting for it. -/
def Waits {guards : Nat} : LockProgram α ρ guards → Prop
  | .done _ => True
  | .lock next => next.Waits
  | .tryLock _ _ => False
  | .read next => ∀ value, (next value).Waits
  | .write _ next => next.Waits
  | .release next => next.Waits

end LockProgram

namespace LockStage

/-- What is left of the program of a thread. -/
def program : LockStage α ρ guards → LockProgram α ρ guards
  | .running program => program
  | .waiting next => .lock next
  | .refused next => next

/-- Whether an attempt has just failed, so that its guard is still to be let go. -/
def failed : LockStage α ρ guards → Bool
  | .running _ | .waiting _ => false
  | .refused _ => true

/-- No attempt has just failed, and none will. -/
def Waits (stage : LockStage α ρ guards) : Prop :=
  stage.failed = false ∧ stage.program.Waits

end LockStage

theorem LockThread.eq_refused {thread : LockThread α ρ} (failed : thread.stage.failed = true) :
    ∃ guards next, thread = ⟨guards, .refused next⟩ := by
  obtain ⟨guards, stage⟩ := thread
  cases stage with
  | refused next => exact ⟨guards, next, rfl⟩
  | running | waiting => cases failed

/-! ## What a turn can do -/

/-- What one turn makes of a lock and a thread. -/
inductive LockTurn (lock : SpinLock α) :
    LockThread α ρ → LockThread α ρ → SpinLock α → Prop
  /-- The thread is done, or it waits for the lock and does not get it. -/
  | idle {guards : Nat} (before after : LockStage α ρ guards)
      (same : before.program = after.program) (calm : before.failed = false)
      (still : after.failed = false) :
      LockTurn lock ⟨guards, before⟩ ⟨guards, after⟩ lock
  | granted {guards : Nat} {program : LockProgram α ρ guards}
      {next : LockProgram α ρ (guards + 1)} (asks : program.Asks next)
      (free : lock.locked = false) :
      LockTurn lock ⟨guards, .running program⟩ ⟨guards + 1, .running next⟩
        { lock with locked := true }
  /-- An attempt fails. -/
  | refused {guards : Nat} {granted : LockProgram α ρ (guards + 1)}
      {next : LockProgram α ρ guards} (held : lock.locked = true) :
      LockTurn lock ⟨guards, .running (.tryLock granted next)⟩ ⟨guards, .refused next⟩ lock
  /-- The guard of a failed attempt is let go. -/
  | dropped {guards : Nat} {next : LockProgram α ρ guards} :
      LockTurn lock ⟨guards, .refused next⟩ ⟨guards, .running next⟩ lock.release
  | read {guards : Nat} {next : α → LockProgram α ρ (guards + 1)} :
      LockTurn lock ⟨guards + 1, .running (.read next)⟩
        ⟨guards + 1, .running (next lock.value)⟩ lock
  | write {guards : Nat} {value : α} {next : LockProgram α ρ (guards + 1)} :
      LockTurn lock ⟨guards + 1, .running (.write value next)⟩
        ⟨guards + 1, .running next⟩ { lock with value }
  | released {guards : Nat} {next : LockProgram α ρ guards} :
      LockTurn lock ⟨guards + 1, .running (.release next)⟩ ⟨guards, .running next⟩
        lock.release

theorem lockTurn_step (thread : LockThread α ρ) (lock : SpinLock α) :
    LockTurn lock thread (thread.step lock).1 (thread.step lock).2 := by
  obtain ⟨guards, stage⟩ := thread
  cases stage with
  | running program =>
      cases program with
      | done result => exact .idle _ _ rfl rfl rfl
      | lock next =>
          cases flag : lock.locked with
          | false =>
              simpa [LockThread.step, SpinLock.compareExchange, flag] using
                LockTurn.granted .lock flag
          | true =>
              simpa [LockThread.step, SpinLock.compareExchange, flag] using
                LockTurn.idle (.running (.lock next)) (.waiting next) rfl rfl rfl
      | tryLock granted refused =>
          cases flag : lock.locked with
          | false =>
              simpa [LockThread.step, SpinLock.compareExchange, flag] using
                LockTurn.granted .tryLock flag
          | true =>
              simpa [LockThread.step, SpinLock.compareExchange, flag] using
                LockTurn.refused flag
      | read next => exact .read
      | write value next => exact .write
      | release next => exact .released
  | waiting next =>
      cases flag : lock.locked with
      | false =>
          simpa [LockThread.step, flag] using
            LockTurn.idle (.waiting next) (.running (.lock next)) rfl rfl rfl
      | true =>
          simpa [LockThread.step, flag] using
            LockTurn.idle (.waiting next) (.waiting next) rfl rfl rfl
  | refused next => exact .dropped

/-- A thread that waits for the lock goes on waiting for it. -/
theorem LockTurn.waits {lock lock' : SpinLock α} {before after : LockThread α ρ}
    (turn : LockTurn lock before after lock') (waits : before.stage.Waits) :
    after.stage.Waits := by
  cases turn with
  | idle before after same calm still => exact ⟨still, same ▸ waits.2⟩
  | granted asks free =>
      cases asks with
      | lock => exact waits
      | tryLock => exact waits.2.elim
  | refused held => exact waits.2.elim
  | dropped => cases waits.1
  | read => exact ⟨rfl, waits.2 _⟩
  | write => exact waits
  | released => exact waits

/-- Replacing one summand changes the sum by the difference. -/
theorem sum_set_add {M : Type*} [AddCommMonoid M] {summands : List M} {summand : M}
    {index : Nat} (found : summands[index]? = some summand) (other : M) :
    (summands.set index other).sum + summand = summands.sum + other := by
  induction summands generalizing index with
  | nil => simp at found
  | cons first rest ih =>
      cases index with
      | zero =>
          cases found
          simp only [List.set_cons_zero, List.sum_cons]
          rw [add_comm, add_comm other, ← add_assoc]
      | succ position =>
          simp only [List.set_cons_succ, List.sum_cons]
          rw [add_assoc, ih found, add_assoc]

namespace Contention

variable {contention : Contention α ρ} {index : Nat} {schedule : List Nat}
  {thread : LockThread α ρ}

theorem step_eq (found : contention.threads[index]? = some thread) :
    contention.step index =
      ⟨(thread.step contention.lock).2,
        contention.threads.set index (thread.step contention.lock).1⟩ := by
  simp [step, found]

/-- A turn of a thread that there is not does nothing, and any other is a turn of that
thread with the lock. -/
theorem step_cases (contention : Contention α ρ) (index : Nat) :
    contention.threads[index]? = none ∧ contention.step index = contention ∨
      ∃ before after lock, contention.threads[index]? = some before ∧
        LockTurn contention.lock before after lock ∧
        contention.step index = ⟨lock, contention.threads.set index after⟩ := by
  cases found : contention.threads[index]? with
  | none => exact .inl ⟨rfl, by simp [step, found]⟩
  | some before =>
      exact .inr ⟨before, _, _, rfl, lockTurn_step before contention.lock, step_eq found⟩

/-! ## Counting guards -/

theorem liveGuards_eq_sum (contention : Contention α ρ) :
    contention.liveGuards = (contention.threads.map LockThread.guards).sum := by
  rw [liveGuards, List.sum, List.foldr_map]

theorem getElem?_guards (found : contention.threads[index]? = some thread) :
    (contention.threads.map LockThread.guards)[index]? = some thread.guards := by
  rw [List.getElem?_map, found]
  rfl

theorem liveGuards_set (found : contention.threads[index]? = some thread)
    (lock : SpinLock α) (after : LockThread α ρ) :
    (Contention.mk lock (contention.threads.set index after)).liveGuards + thread.guards =
      contention.liveGuards + after.guards := by
  rw [liveGuards_eq_sum, liveGuards_eq_sum, List.map_set]
  exact sum_set_add (getElem?_guards found) after.guards

theorem guards_le_liveGuards (found : contention.threads[index]? = some thread) :
    thread.guards ≤ contention.liveGuards := by
  rw [liveGuards_eq_sum]
  exact List.le_sum_of_mem (List.mem_of_getElem? (getElem?_guards found))

/-- Two threads have no more guards than there are. -/
theorem guards_add_le_liveGuards {other : Nat} {second : LockThread α ρ}
    (found : contention.threads[index]? = some thread)
    (foundOther : contention.threads[other]? = some second) (differ : index ≠ other) :
    thread.guards + second.guards ≤ contention.liveGuards := by
  have without := sum_set_add (getElem?_guards found) 0
  have counted :
      ((contention.threads.map LockThread.guards).set index 0)[other]? =
        some second.guards :=
    (List.getElem?_set_ne differ).trans (getElem?_guards foundOther)
  have within := List.le_sum_of_mem (List.mem_of_getElem? counted)
  rw [liveGuards_eq_sum]
  omega

/-- The flag counts the live guards. -/
def Exclusive (contention : Contention α ρ) : Prop :=
  contention.liveGuards = contention.lock.locked.toNat

theorem exclusive_iff :
    contention.Exclusive ↔ contention.liveGuards ≤ 1 ∧
      (contention.liveGuards = 1 ↔ contention.lock.locked = true) := by
  rw [Exclusive]
  cases contention.lock.locked with
  | false =>
      simp only [Bool.toNat_false, Bool.false_eq_true, iff_false]
      omega
  | true =>
      simp only [Bool.toNat_true, iff_true]
      omega

theorem exclusive_start (value : α) (programs : List (LockProgram α ρ 0)) :
    (start value programs).Exclusive := by
  have none : ∀ count ∈ (start value programs).threads.map LockThread.guards, count = 0 := by
    simp [start, LockThread.start]
  rw [Exclusive, liveGuards_eq_sum]
  exact List.sum_eq_zero none

/-! ## Schedules without disturbance -/

/-- The next turn of a thread lets the guard of a failed attempt go although there is a
live guard. -/
def Disturbs (contention : Contention α ρ) (index : Nat) : Prop :=
  0 < contention.liveGuards ∧
    ∃ thread ∈ contention.threads[index]?, thread.stage.failed = true

instance (contention : Contention α ρ) (index : Nat) : Decidable (contention.Disturbs index) :=
  inferInstanceAs (Decidable (_ ∧ _))

/-- No turn of a schedule disturbs a live guard. -/
def Undisturbed (contention : Contention α ρ) : List Nat → Prop
  | [] => True
  | index :: rest => ¬ contention.Disturbs index ∧ (contention.step index).Undisturbed rest

instance Undisturbed.decide (contention : Contention α ρ) :
    (schedule : List Nat) → Decidable (contention.Undisturbed schedule)
  | [] => .isTrue trivial
  | index :: rest =>
      have := Undisturbed.decide (contention.step index) rest
      inferInstanceAs (Decidable (_ ∧ _))

theorem undisturbed_append {contention : Contention α ρ} {past later : List Nat} :
    contention.Undisturbed (past ++ later) ↔
      contention.Undisturbed past ∧ (contention.run past).Undisturbed later := by
  induction past generalizing contention with
  | nil => exact (and_iff_right trivial).symm
  | cons index rest ih => exact (and_congr_right fun _ => ih).trans and_assoc.symm

theorem Exclusive.step (exclusive : contention.Exclusive)
    (calm : ¬ contention.Disturbs index) : (contention.step index).Exclusive := by
  obtain ⟨-, same⟩ | ⟨before, after, lock, found, turn, stepped⟩ := step_cases contention index
  · rwa [same]
  have counted := liveGuards_set found lock after
  rw [stepped]
  rw [Exclusive] at exclusive ⊢
  cases turn with
  | idle before after same calm still => simpa [exclusive] using counted
  | granted asks free =>
      simp only [exclusive, free, Bool.toNat_false] at counted
      simp only [Bool.toNat_true]
      omega
  | refused held => simpa [exclusive] using counted
  | dropped =>
      -- otherwise the turn would disturb the guard that set the flag
      have unheld : contention.liveGuards = 0 := by
        by_contra held
        exact calm ⟨Nat.pos_of_ne_zero held, _, found, rfl⟩
      simpa [SpinLock.release, unheld] using counted
  | read => simpa [exclusive] using counted
  | write => simpa [exclusive] using counted
  | released =>
      have atMostOne := Bool.toNat_le contention.lock.locked
      simp only [SpinLock.release, Bool.toNat_false, exclusive] at counted ⊢
      omega

/-- Clearing the flag under a live guard makes the count wrong. -/
theorem not_exclusive_of_disturbs (disturbs : contention.Disturbs index) :
    ¬ (contention.step index).Exclusive := by
  obtain ⟨alive, thread, refused, failed⟩ := disturbs
  obtain ⟨guards, next, rfl⟩ := LockThread.eq_refused failed
  have stepped : contention.step index =
      ⟨contention.lock.release, contention.threads.set index ⟨guards, .running next⟩⟩ :=
    step_eq refused
  have counted := liveGuards_set refused contention.lock.release ⟨guards, .running next⟩
  rw [stepped, Exclusive]
  simp only [SpinLock.release, Bool.toNat_false] at counted ⊢
  omega

theorem Exclusive.run (exclusive : contention.Exclusive)
    (calm : contention.Undisturbed schedule) : (contention.run schedule).Exclusive := by
  induction schedule generalizing contention with
  | nil => exact exclusive
  | cons index rest ih => exact ih (exclusive.step calm.1) calm.2

/-- The flag counts the live guards at every moment of the undisturbed schedules, and of
no others. -/
theorem undisturbed_iff (exclusive : contention.Exclusive) :
    contention.Undisturbed schedule ↔
      ∀ past, past <+: schedule → (contention.run past).Exclusive := by
  constructor
  · intro calm past earlier
    obtain ⟨later, rfl⟩ := earlier
    exact exclusive.run (undisturbed_append.mp calm).1
  · intro always
    induction schedule generalizing contention with
    | nil => trivial
    | cons index rest ih =>
        have calm : ¬ contention.Disturbs index := fun disturbs =>
          not_exclusive_of_disturbs disturbs (always [index] ⟨rest, rfl⟩)
        refine ⟨calm, ih (exclusive.step calm) fun past earlier => ?_⟩
        obtain ⟨later, rfl⟩ := earlier
        exact always (index :: past) ⟨later, rfl⟩

/-! ## Threads that wait -/

/-- No thread has made an attempt that failed, and none will. -/
def AllWait (contention : Contention α ρ) : Prop :=
  ∀ thread ∈ contention.threads, thread.stage.Waits

theorem AllWait.step (wait : contention.AllWait) (index : Nat) :
    (contention.step index).AllWait := by
  obtain ⟨-, same⟩ | ⟨before, after, lock, found, turn, stepped⟩ := step_cases contention index
  · rwa [same]
  rw [stepped]
  intro thread member
  rcases List.mem_or_eq_of_mem_set member with old | rfl
  · exact wait thread old
  · exact turn.waits (wait before (List.mem_of_getElem? found))

theorem AllWait.undisturbed (wait : contention.AllWait) (schedule : List Nat) :
    contention.Undisturbed schedule := by
  induction schedule generalizing contention with
  | nil => trivial
  | cons index rest ih =>
      refine ⟨?_, ih (wait.step index)⟩
      rintro ⟨-, thread, found, failed⟩
      cases failed.symm.trans (wait thread (List.mem_of_getElem? found)).1

end Contention

end PagedMemory
