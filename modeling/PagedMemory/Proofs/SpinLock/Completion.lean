import Mathlib.Tactic.Ring
import PagedMemory.Proofs.SpinLock.Updates

/-!
# Threads that wait are done in the end

When threads take turns in order and each of them only waits for the lock, every one is
done after a number of rounds that is known beforehand.  A thread with a guard gets on
with its section each time it has a turn, and a thread that asks for a free lock gets
it.  If there is neither, the lock is free and all threads that are not done still wait;
then the first of them to have a turn sees that the lock is free and asks for it the
next time.  So the turns that are left, counted twice, and one more for a free lock that
nobody asks for, become fewer in every round.
-/

namespace PagedMemory

variable {α ρ : Type}

namespace LockProgram

/-- The program waits for the lock, lets it go again, and is done after so many turns at
most, not counting those spent on waiting. -/
inductive Takes : {guards : Nat} → LockProgram α ρ guards → Nat → Prop
  | done {turns : Nat} {result : ρ} : Takes (.done result : LockProgram α ρ 0) turns
  | lock {turns : Nat} {next : LockProgram α ρ 1} (goesOn : Takes next turns) :
      Takes (.lock next) (turns + 1)
  | read {turns : Nat} {next : α → LockProgram α ρ 1} (goesOn : ∀ value, Takes (next value) turns) :
      Takes (.read next) (turns + 1)
  | write {turns : Nat} {value : α} {next : LockProgram α ρ 1} (goesOn : Takes next turns) :
      Takes (.write value next) (turns + 1)
  | release {turns : Nat} {next : LockProgram α ρ 0} (goesOn : Takes next turns) :
      Takes (.release next) (turns + 1)

theorem takes_countUp (rounds : Nat) : (countUp rounds).Takes (4 * rounds) := by
  induction rounds with
  | zero => exact .done
  | succ rounds ih => exact .lock (.read fun _ => .write (.release ih))

end LockProgram

/-! ## Turns that are left -/

/-- A thread has at most so many turns left, not counting those spent on waiting. -/
def LockThread.HasLeft (thread : LockThread α ρ) (turns : Nat) : Prop :=
  thread.stage.failed = false ∧ thread.stage.program.Takes turns

/-- Each thread has at most so many turns left as a list says. -/
def Contention.Limited (contention : Contention α ρ) (todo : List Nat) : Prop :=
  List.Forall₂ LockThread.HasLeft contention.threads todo

theorem exists_of_forall₂ {β γ : Type} {related : β → γ → Prop} {lefts : List β}
    {rights : List γ} {index : Nat} {left : β} (pairs : List.Forall₂ related lefts rights)
    (found : lefts[index]? = some left) :
    ∃ right, rights[index]? = some right ∧ related left right := by
  induction pairs generalizing index with
  | nil => cases found
  | cons first rest ih =>
      cases index with
      | zero =>
          cases found
          exact ⟨_, rfl, first⟩
      | succ index => exact ih found

theorem forall₂_set {β γ : Type} {related : β → γ → Prop} {lefts : List β} {rights : List γ}
    {left : β} {right : γ} (pairs : List.Forall₂ related lefts rights)
    (pair : related left right) (index : Nat) :
    List.Forall₂ related (lefts.set index left) (rights.set index right) := by
  induction pairs generalizing index with
  | nil => exact .nil
  | cons first rest ih =>
      cases index with
      | zero => exact .cons pair rest
      | succ index => exact .cons first (ih index)

namespace Contention

variable {contention : Contention α ρ} {index turning bound : Nat} {schedule todo : List Nat}

/-- A thread that gets on leaves fewer turns. -/
theorem Limited.gets_on (limited : contention.Limited todo) (lock : SpinLock α)
    {after : LockThread α ρ} {turns : Nat} (counted : todo[index]? = some (turns + 1))
    (left : after.HasLeft turns) :
    ∃ todo' : List Nat,
      (Contention.mk lock (contention.threads.set index after)).Limited todo' ∧
        todo'.sum < todo.sum := by
  have sum := sum_set_add counted turns
  exact ⟨_, forall₂_set limited left index, by omega⟩

/-- A thread that does not get on has as many turns left as before. -/
theorem Limited.stays (limited : contention.Limited todo) (lock : SpinLock α)
    {after : LockThread α ρ} {turns : Nat} (counted : todo[index]? = some turns)
    (left : after.HasLeft turns) :
    (Contention.mk lock (contention.threads.set index after)).Limited todo := by
  have kept : todo.set index turns = todo := by
    obtain ⟨inRange, rfl⟩ := List.getElem?_eq_some_iff.mp counted
    exact List.set_getElem_self inRange
  exact kept ▸ forall₂_set limited left index

/-- A turn leaves fewer turns, or it changes nothing but whether its thread has seen that
the lock is taken. -/
theorem Limited.step (limited : contention.Limited todo) (index : Nat) :
    (∃ todo', (contention.step index).Limited todo' ∧ todo'.sum < todo.sum) ∨
      (contention.step index).Limited todo ∧ (contention.step index).lock = contention.lock ∧
        ∀ other, other ≠ index →
          (contention.step index).threads[other]? = contention.threads[other]? := by
  obtain ⟨-, same⟩ | ⟨before, after, lock, found, turn, stepped⟩ := step_cases contention index
  · rw [same]
    exact .inr ⟨limited, rfl, fun _ _ => rfl⟩
  obtain ⟨turns, counted, going, takes⟩ := exists_of_forall₂ limited found
  rw [stepped]
  cases turn with
  | idle before after same calm still =>
      exact .inr ⟨limited.stays _ counted ⟨still, same ▸ takes⟩, rfl, fun other differ =>
        List.getElem?_set_ne differ.symm⟩
  | granted asks free =>
      cases asks with
      | lock =>
          cases takes with
          | lock goesOn => exact .inl (limited.gets_on _ counted ⟨rfl, goesOn⟩)
      | tryLock => cases takes
  | refused => cases takes
  | dropped => cases going
  | read =>
      cases takes with
      | read goesOn => exact .inl (limited.gets_on _ counted ⟨rfl, goesOn _⟩)
  | write =>
      cases takes with
      | write goesOn => exact .inl (limited.gets_on _ counted ⟨rfl, goesOn⟩)
  | released =>
      cases takes with
      | release goesOn => exact .inl (limited.gets_on _ counted ⟨rfl, goesOn⟩)

/-! ## Threads that get on -/

/-- The next turn of a thread is one of those that it has left: it has a guard, or it asks
for a free lock. -/
def Eager (contention : Contention α ρ) (index : Nat) : Prop :=
  (∃ stage, contention.threads[index]? = some ⟨1, stage⟩) ∨
    contention.lock.locked = false ∧
      ∃ next, contention.threads[index]? = some (.start (.lock next))

/-- The lock is free, and a thread that waits for it has yet to see that. -/
def Drowsy (contention : Contention α ρ) (index : Nat) : Prop :=
  contention.lock.locked = false ∧
    ∃ next, contention.threads[index]? = some ⟨0, .waiting next⟩

theorem Eager.of_same (eager : contention.Eager index) {later : Contention α ρ}
    (lock : later.lock = contention.lock)
    (thread : later.threads[index]? = contention.threads[index]?) : later.Eager index := by
  rwa [Eager, lock, thread]

theorem Drowsy.of_same (drowsy : contention.Drowsy index) {later : Contention α ρ}
    (lock : later.lock = contention.lock)
    (thread : later.threads[index]? = contention.threads[index]?) : later.Drowsy index := by
  rwa [Drowsy, lock, thread]

theorem start_step_of_free {lock : SpinLock α} {next : LockProgram α ρ 1}
    (free : lock.locked = false) :
    (LockThread.start (.lock next)).step lock = (⟨1, .running next⟩, ⟨true, lock.value⟩) := by
  simp [LockThread.step, LockThread.start, SpinLock.compareExchange, free]

theorem Eager.step (eager : contention.Eager index) (limited : contention.Limited todo) :
    ∃ todo', (contention.step index).Limited todo' ∧ todo'.sum < todo.sum := by
  rcases eager with ⟨stage, found⟩ | ⟨free, next, found⟩
  · obtain ⟨turns, counted, going, takes⟩ := exists_of_forall₂ limited found
    rw [step_eq found]
    cases stage with
    | running program =>
        cases takes with
        | read goesOn => exact limited.gets_on _ counted ⟨rfl, goesOn _⟩
        | write goesOn => exact limited.gets_on _ counted ⟨rfl, goesOn⟩
        | release goesOn => exact limited.gets_on _ counted ⟨rfl, goesOn⟩
    | waiting => cases takes
    | refused => cases going
  · obtain ⟨turns, counted, going, takes⟩ := exists_of_forall₂ limited found
    cases takes with
    | lock goesOn =>
        rw [step_eq found, start_step_of_free free]
        exact limited.gets_on _ counted ⟨rfl, goesOn⟩

theorem Drowsy.step (drowsy : contention.Drowsy index) (limited : contention.Limited todo) :
    (contention.step index).Limited todo ∧ (contention.step index).Eager index := by
  obtain ⟨free, next, found⟩ := drowsy
  obtain ⟨turns, counted, going, takes⟩ := exists_of_forall₂ limited found
  have length : index < contention.threads.length := (List.getElem?_eq_some_iff.mp found).1
  have woken : (LockThread.mk 0 (.waiting next)).step contention.lock =
      (.start (.lock next), contention.lock) := by
    simp [LockThread.step, LockThread.start, free]
  rw [step_eq found, woken]
  exact ⟨limited.stays _ counted ⟨rfl, takes⟩,
    .inr ⟨free, next, List.getElem?_set_self length⟩⟩

/-! ## Rounds -/

/-- A bound on the rounds that are left. -/
def Due (contention : Contention α ρ) (bound : Nat) : Prop :=
  ∃ todo, contention.Limited todo ∧
    (2 * todo.sum + 1 ≤ bound ∨ 2 * todo.sum ≤ bound ∧ ∃ index, contention.Eager index)

/-- A turn of this thread makes the bound hold. -/
def Prompt (contention : Contention α ρ) (index bound : Nat) : Prop :=
  ∃ todo, contention.Limited todo ∧
    (2 * todo.sum ≤ bound + 1 ∧ contention.Eager index ∨
      2 * todo.sum ≤ bound ∧ contention.Drowsy index)

theorem Due.step (due : contention.Due bound) (turning : Nat) :
    (contention.step turning).Due bound := by
  obtain ⟨todo, limited, few⟩ := due
  rcases limited.step turning with ⟨todo', limited', fewer⟩ | ⟨limited', lock, threads⟩
  · exact ⟨todo', limited', .inl (by omega)⟩
  rcases few with few | ⟨few, index, eager⟩
  · exact ⟨todo, limited', .inl few⟩
  by_cases own : index = turning
  · subst own
    obtain ⟨todo', limited', fewer⟩ := eager.step limited
    exact ⟨todo', limited', .inl (by omega)⟩
  · exact ⟨todo, limited', .inr ⟨few, index, eager.of_same lock (threads index own)⟩⟩

theorem Prompt.step (prompt : contention.Prompt index bound) (turning : Nat) :
    (contention.step turning).Due bound ∨
      turning ≠ index ∧ (contention.step turning).Prompt index bound := by
  obtain ⟨todo, limited, few⟩ := prompt
  by_cases own : turning = index
  · subst own
    rcases few with ⟨few, eager⟩ | ⟨few, drowsy⟩
    · obtain ⟨todo', limited', fewer⟩ := eager.step limited
      exact .inl ⟨todo', limited', .inl (by omega)⟩
    · obtain ⟨limited', eager⟩ := drowsy.step limited
      exact .inl ⟨todo, limited', .inr ⟨few, _, eager⟩⟩
  rcases limited.step turning with ⟨todo', limited', fewer⟩ | ⟨limited', lock, threads⟩
  · exact .inl ⟨todo', limited', .inl (by omega)⟩
  · have thread := threads index (Ne.symm own)
    exact .inr ⟨own, todo, limited', few.imp (And.imp_right (·.of_same lock thread))
      (And.imp_right (·.of_same lock thread))⟩

theorem Due.run (due : contention.Due bound) (schedule : List Nat) :
    (contention.run schedule).Due bound := by
  induction schedule generalizing contention with
  | nil => exact due
  | cons turning rest ih => exact ih (due.step turning)

/-- Whatever the others do meanwhile, the bound holds once the thread has had its turn. -/
theorem Prompt.run (prompt : contention.Prompt index bound) (turns : index ∈ schedule) :
    (contention.run schedule).Due bound := by
  induction schedule generalizing contention with
  | nil => cases turns
  | cons turning rest ih =>
      rcases prompt.step turning with due | ⟨other, prompt⟩
      · exact due.run rest
      · exact ih prompt (List.mem_of_ne_of_mem other.symm turns)

theorem Limited.undisturbed (limited : contention.Limited todo) (schedule : List Nat) :
    contention.Undisturbed schedule := by
  induction schedule generalizing contention todo with
  | nil => trivial
  | cons turning rest ih =>
      constructor
      · rintro ⟨-, thread, found, failed⟩
        obtain ⟨-, -, going, -⟩ := exists_of_forall₂ limited found
        cases failed.symm.trans going
      · rcases limited.step turning with ⟨todo', limited', -⟩ | ⟨limited', -⟩
        · exact ih limited'
        · exact ih limited'

/-- While the flag is set, somebody has a guard. -/
theorem Exclusive.exists_holder (exclusive : contention.Exclusive)
    (held : contention.lock.locked = true) :
    ∃ (index : Nat) (stage : LockStage α ρ 1), contention.threads[index]? = some ⟨1, stage⟩ := by
  have alive : contention.liveGuards = 1 := by rw [exclusive, held, Bool.toNat_true]
  have some : (contention.threads.map LockThread.guards).sum ≠ 0 := by
    rw [← liveGuards_eq_sum, alive]
    exact one_ne_zero
  obtain ⟨count, member, positive⟩ := List.exists_mem_ne_zero_of_sum_ne_zero some
  obtain ⟨⟨guards, stage⟩, isThread, rfl⟩ := List.mem_map.mp member
  obtain ⟨index, found⟩ := List.mem_iff_getElem?.mp isThread
  have atMostOne := guards_le_liveGuards found
  dsimp only at positive atMostOne
  obtain rfl : guards = 1 := by omega
  exact ⟨index, stage, found⟩

/-- As long as a thread is not done, there is one whose turn brings all threads closer to
their end. -/
theorem Due.exists_prompt (due : contention.Due (bound + 1)) (exclusive : contention.Exclusive)
    (unfinished : contention.isDone ≠ true) :
    ∃ index < contention.threads.length, contention.Prompt index bound := by
  have inThreads : ∀ {index thread}, contention.threads[index]? = some thread →
      index < contention.threads.length := fun found => (List.getElem?_eq_some_iff.mp found).1
  obtain ⟨todo, limited, few | ⟨few, index, eager⟩⟩ := due
  · cases flag : contention.lock.locked with
    | true =>
        obtain ⟨index, stage, found⟩ := exclusive.exists_holder flag
        exact ⟨index, inThreads found, todo, limited, .inl ⟨by omega, .inl ⟨stage, found⟩⟩⟩
    | false =>
        obtain ⟨⟨guards, stage⟩, member, ongoing⟩ :
            ∃ thread ∈ contention.threads, thread.result?.isSome = false := by
          simpa [isDone] using unfinished
        obtain ⟨index, found⟩ := List.mem_iff_getElem?.mp member
        have none : guards ≤ contention.liveGuards := guards_le_liveGuards found
        rw [exclusive.free_iff.mp flag] at none
        obtain rfl : guards = 0 := Nat.le_zero.mp none
        obtain ⟨turns, -, going, takes⟩ := exists_of_forall₂ limited found
        refine ⟨index, inThreads found, todo, limited, ?_⟩
        cases stage with
        | running program =>
            cases takes with
            | done => cases ongoing
            | lock => exact .inl ⟨by omega, .inr ⟨flag, _, found⟩⟩
        | waiting next => exact .inr ⟨by omega, flag, next, found⟩
        | refused => cases going
  · refine ⟨index, ?_, todo, limited, .inl ⟨few, eager⟩⟩
    rcases eager with ⟨stage, found⟩ | ⟨-, next, found⟩
    · exact inThreads found
    · exact inThreads found

theorem Due.pos (due : contention.Due bound) : 0 < bound := by
  obtain ⟨todo, limited, few | ⟨few, index, eager⟩⟩ := due
  · omega
  · obtain ⟨todo', -, fewer⟩ := eager.step limited
    omega

/-- A bound on the rounds that are left is one on those that it takes. -/
theorem Due.isDone_runRoundRobin {rounds : Nat} (due : contention.Due bound)
    (exclusive : contention.Exclusive) (enough : bound ≤ rounds) :
    (contention.runRoundRobin rounds).isDone = true := by
  induction rounds generalizing contention bound with
  | zero =>
      have left := due.pos
      omega
  | succ rounds ih =>
      rw [runRoundRobin]
      by_cases finished : contention.isDone = true
      · rwa [if_pos finished]
      · rw [if_neg finished]
        obtain ⟨bound, rfl⟩ := Nat.exists_eq_add_one.mpr (due.pos)
        obtain ⟨index, inRange, prompt⟩ := due.exists_prompt exclusive finished
        obtain ⟨todo, limited, -⟩ := due
        exact ih (prompt.run (List.mem_range.mpr inRange))
          (exclusive.run (limited.undisturbed _)) (by omega)

theorem exists_runRoundRobin_eq (contention : Contention α ρ) (rounds : Nat) :
    ∃ schedule, contention.runRoundRobin rounds = contention.run schedule := by
  induction rounds generalizing contention with
  | zero => exact ⟨[], rfl⟩
  | succ rounds ih =>
      rw [runRoundRobin]
      split
      · exact ⟨[], rfl⟩
      · obtain ⟨schedule, same⟩ := ih (contention.run (List.range contention.threads.length))
        exact ⟨List.range contention.threads.length ++ schedule, by
          rw [same, run, run, run, List.foldl_append]⟩

/-- Threads that wait for the lock and have so many turns to do each are done after twice
as many rounds as turns, and one. -/
theorem isDone_runRoundRobin {value : α} {programs : List (LockProgram α ρ 0)}
    {turns rounds : Nat} (takes : ∀ program ∈ programs, program.Takes turns)
    (enough : 2 * (programs.length * turns) < rounds) :
    ((start value programs).runRoundRobin rounds).isDone = true := by
  have limited : (start value programs).Limited (programs.map fun _ => turns) :=
    List.forall₂_map_left_iff.mpr (List.forall₂_map_right_iff.mpr
      (List.forall₂_same.mpr fun program member => ⟨rfl, takes program member⟩))
  have sum : (programs.map fun _ => turns).sum = programs.length * turns := by simp
  exact Due.isDone_runRoundRobin ⟨_, limited, .inl (by rw [sum]; exact enough)⟩
    (exclusive_start value programs) le_rfl

/-- Counting together takes all threads to their end, and counts every increment. -/
theorem countTogether_eq (threads increments : Nat) :
    countTogether threads increments = ⟨false, threads * increments⟩ := by
  have takes : ∀ program ∈ List.replicate threads (LockProgram.countUp increments),
      program.Takes (4 * increments) := fun program member =>
    List.eq_of_mem_replicate member ▸ LockProgram.takes_countUp increments
  have cost : 2 * (threads * (4 * increments)) = 8 * threads * increments := by ring
  have complete : ((counting threads increments).runRoundRobin
      (8 * threads * increments + 8)).isDone = true :=
    isDone_runRoundRobin takes (by rw [List.length_replicate, cost]; omega)
  obtain ⟨schedule, same⟩ := exists_runRoundRobin_eq (counting threads increments)
    (8 * threads * increments + 8)
  rw [same] at complete
  rw [countTogether, same]
  exact counting_counted complete

end Contention

end PagedMemory
