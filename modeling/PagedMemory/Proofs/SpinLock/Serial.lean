import PagedMemory.Proofs.SpinLock.Exclusion

/-!
# Sections in one piece

What a thread does between getting a guard and letting it go is a section.  In a serial
run a section is one step, and so is an attempt that fails.  An undisturbed schedule is
equal to a serial run wherever no guard is alive.  While one is, the other threads stand
where the serial run has left them, and the thread with the guard is within a section
that the serial run has still to do.

A section that panics is no exception.  It is over once its guard is gone, and what it
wrote before is the value that the next thread finds.
-/

namespace PagedMemory

variable {α β ρ : Type} {guards : Nat}

namespace LockProgram

/-- What is left of a program after the section that it is in, and the value after that
section.  A section in which the guard is kept, or another one is asked for, does not
come to an end. -/
def finish? {guards : Nat} : LockProgram α ρ guards → α →
    Option (LockProgram α ρ (guards - 1) × α)
  | .read next, value => (next value).finish? value
  | .write value next, _ => next.finish? value
  | .release next, value => some (next, value)
  | .done _, _ | .lock _, _ | .tryLock _ _, _ => none

theorem finish?_thenRelease (work : CriticalSection α β)
    (after : Option β → LockProgram α ρ guards) (value : α) :
    (work.thenRelease after).finish? value =
      some (after (work.evaluate value).1, (work.evaluate value).2) := by
  induction work generalizing value with
  | read next ih => exact ih value value
  | write written next ih => exact ih written
  | finish result => rfl
  | panic => rfl

/-- One step of a serial run. -/
inductive Turn : LockProgram α ρ 0 → α → LockProgram α ρ 0 → α → Prop
  | granted {program : LockProgram α ρ 0} {next : LockProgram α ρ 1}
      {after : LockProgram α ρ 0} {value left : α} (asks : program.Asks next)
      (finished : next.finish? value = some (after, left)) : Turn program value after left
  | refused {granted : LockProgram α ρ 1} {next : LockProgram α ρ 0} {value : α} :
      Turn (.tryLock granted next) value next value

/-- A section that waits for the lock does what it does when nobody interferes. -/
theorem Turn.of_withLock {work : CriticalSection α β} {after : Option β → LockProgram α ρ 0}
    {value left : α} {next : LockProgram α ρ 0}
    (turn : Turn (withLock work after) value next left) :
    next = after (work.evaluate value).1 ∧ left = (work.evaluate value).2 := by
  cases turn with
  | granted asks finished =>
      cases asks
      cases (finish?_thenRelease work after value).symm.trans finished
      exact ⟨rfl, rfl⟩

/-- A section that does not wait does the same, or nothing. -/
theorem Turn.of_tryWith {work : CriticalSection α β} {after : Option β → LockProgram α ρ 0}
    {otherwise next : LockProgram α ρ 0} {value left : α}
    (turn : Turn (tryWith work after otherwise) value next left) :
    next = after (work.evaluate value).1 ∧ left = (work.evaluate value).2 ∨
      next = otherwise ∧ left = value := by
  cases turn with
  | granted asks finished =>
      cases asks
      cases (finish?_thenRelease work after value).symm.trans finished
      exact .inl ⟨rfl, rfl⟩
  | refused => exact .inr ⟨rfl, rfl⟩

end LockProgram

/-- The values that serial runs reach, with what is left of the programs. -/
inductive Serial (value : α) (programs : List (LockProgram α ρ 0)) :
    α → List (LockProgram α ρ 0) → Prop
  | start : Serial value programs value programs
  | turn {now left : α} {reached : List (LockProgram α ρ 0)} {index : Nat}
      {program after : LockProgram α ρ 0} (earlier : Serial value programs now reached)
      (found : reached[index]? = some program) (turn : program.Turn now after left) :
      Serial value programs left (reached.set index after)

namespace Contention

variable {contention : Contention α ρ} {index : Nat} {schedule : List Nat}

/-! ## Who has a guard -/

/-- While a thread has a guard, no other has one. -/
theorem Exclusive.others (exclusive : contention.Exclusive) {stage : LockStage α ρ 1}
    (found : contention.threads[index]? = some ⟨1, stage⟩) {other : Nat}
    {second : LockThread α ρ} (differ : other ≠ index)
    (foundOther : contention.threads[other]? = some second) : second.guards = 0 := by
  have counted := guards_add_le_liveGuards found foundOther differ.symm
  have atMostOne := (exclusive_iff.mp exclusive).1
  dsimp only at counted
  omega

/-- While a thread has a guard, the flag is set. -/
theorem Exclusive.locked (exclusive : contention.Exclusive) {stage : LockStage α ρ 1}
    (found : contention.threads[index]? = some ⟨1, stage⟩) :
    contention.lock.locked = true := by
  have alive : 1 ≤ contention.liveGuards := guards_le_liveGuards found
  obtain ⟨atMostOne, shown⟩ := exclusive_iff.mp exclusive
  exact shown.mp (by omega)

/-- The flag is clear while nobody has a guard. -/
theorem Exclusive.free_iff (exclusive : contention.Exclusive) :
    contention.lock.locked = false ↔ contention.liveGuards = 0 := by
  rw [exclusive, Bool.toNat_eq_zero]

/-- A guard of a failed attempt that disturbs nobody clears a flag that is clear. -/
theorem Exclusive.release_eq (exclusive : contention.Exclusive)
    {next : LockProgram α ρ guards} (calm : ¬ contention.Disturbs index)
    (found : contention.threads[index]? = some ⟨guards, .refused next⟩) :
    guards = 0 ∧ contention.lock.release = contention.lock := by
  have unheld : contention.liveGuards = 0 := by
    by_contra alive
    exact calm ⟨Nat.pos_of_ne_zero alive, _, found, rfl⟩
  have none : guards ≤ contention.liveGuards := guards_le_liveGuards found
  refine ⟨by omega, ?_⟩
  rw [SpinLock.release, ← exclusive.free_iff.mpr unheld]

/-! ## One thread's section -/

/-- A thread is in a section that leads to a given goal. -/
def Within (contention : Contention α ρ) (index : Nat)
    (goal : LockProgram α ρ 0 × α) : Prop :=
  ∃ stage : LockStage α ρ 1, contention.threads[index]? = some ⟨1, stage⟩ ∧
    stage.failed = false ∧ stage.program.finish? contention.lock.value = some goal

/-- A thread has just let its guard go. -/
def Left (contention : Contention α ρ) (index : Nat) (goal : LockProgram α ρ 0 × α) : Prop :=
  contention.threads[index]? = some (.start goal.1) ∧ contention.lock = .new goal.2

/-- No turn of another thread touches a section. -/
theorem Within.step {goal : LockProgram α ρ 0 × α} (within : contention.Within index goal)
    (exclusive : contention.Exclusive) {turning : Nat} (calm : ¬ contention.Disturbs turning) :
    (contention.step turning).Within index goal ∨ (contention.step turning).Left index goal := by
  obtain ⟨stage, found, going, finished⟩ := within
  have held := exclusive.locked found
  obtain ⟨-, same⟩ | ⟨before, after, lock, foundBefore, turn, stepped⟩ :=
    step_cases contention turning
  · rw [same]
    exact .inl ⟨stage, found, going, finished⟩
  have length : index < contention.threads.length := (List.getElem?_eq_some_iff.mp found).1
  rw [stepped]
  by_cases own : turning = index
  · subst own
    cases found.symm.trans foundBefore
    -- the thread's own turn: it gets on with the section, or lets the guard go
    cases turn with
    | idle before after same calm still =>
        exact .inl ⟨_, List.getElem?_set_self length, still, same ▸ finished⟩
    | granted asks free => cases held.symm.trans free
    | refused => cases finished
    | dropped => cases going
    | read => exact .inl ⟨_, List.getElem?_set_self length, rfl, finished⟩
    | write => exact .inl ⟨_, List.getElem?_set_self length, rfl, finished⟩
    | released =>
        cases finished
        exact .inr ⟨List.getElem?_set_self length, rfl⟩
  · have outside := exclusive.others found own foundBefore
    -- a thread without a guard changes neither the flag nor the value
    have unchanged : lock = contention.lock := by
      cases turn with
      | idle | refused => rfl
      | granted asks free => cases held.symm.trans free
      | dropped => exact (exclusive.release_eq calm foundBefore).2
      | read | write | released => cases outside
    subst unchanged
    exact .inl ⟨stage, (List.getElem?_set_ne own).trans found, going, finished⟩

/-- A section goes on until its thread lets the guard go, and then the value is as if
nobody else had run meanwhile. -/
theorem Within.run {goal : LockProgram α ρ 0 × α} (within : contention.Within index goal)
    (exclusive : contention.Exclusive) (calm : contention.Undisturbed schedule) :
    (contention.run schedule).Within index goal ∨
      ∃ past, past <+: schedule ∧ (contention.run past).Left index goal := by
  induction schedule generalizing contention with
  | nil => exact .inl within
  | cons turning rest ih =>
      rcases within.step exclusive calm.1 with still | left
      · rcases ih still (exclusive.step calm.1) calm.2 with still | ⟨past, earlier, left⟩
        · exact .inl still
        · exact .inr ⟨turning :: past, List.cons_prefix_cons.mpr ⟨rfl, earlier⟩, left⟩
      · exact .inr ⟨[turning], ⟨rest, rfl⟩, left⟩

/-! ## The serial run -/

/-- Where a thread stands beside its program in a serial run with some value, when the
value of the lock is another one. -/
inductive Stands (settled value : α) : LockThread α ρ → LockProgram α ρ 0 → Prop
  | outside (stage : LockStage α ρ 0) : Stands settled value ⟨0, stage⟩ stage.program
  /-- The section has begun, and the serial run has it still to do. -/
  | inside {program : LockProgram α ρ 0} {next : LockProgram α ρ 1} {stage : LockStage α ρ 1}
      (asks : program.Asks next)
      (part : stage.failed = false →
        stage.program.finish? value = next.finish? settled) :
      Stands settled value ⟨1, stage⟩ program

/-- Every thread stands where a serial run has left it. -/
structure Agrees (contention : Contention α ρ) (settled : α)
    (reached : List (LockProgram α ρ 0)) : Prop where
  length : reached.length = contention.threads.length
  stands : ∀ {index : Nat} {thread program}, contention.threads[index]? = some thread →
    reached[index]? = some program → Stands settled contention.lock.value thread program
  free : contention.lock.locked = false → settled = contention.lock.value

variable {settled : α} {reached : List (LockProgram α ρ 0)}

theorem agrees_start (value : α) (programs : List (LockProgram α ρ 0)) :
    (start value programs).Agrees value programs where
  length := by simp [start]
  stands found foundProgram := by
    simp only [start, List.getElem?_map, foundProgram, Option.map_some] at found
    cases found
    exact .outside (.running _)
  free _ := rfl

theorem Agrees.program (agrees : contention.Agrees settled reached) {thread : LockThread α ρ}
    (found : contention.threads[index]? = some thread) :
    ∃ program, reached[index]? = some program ∧
      Stands settled contention.lock.value thread program := by
  have length : index < reached.length := by
    rw [agrees.length]
    exact (List.getElem?_eq_some_iff.mp found).1
  exact ⟨_, List.getElem?_eq_getElem length,
    agrees.stands found (List.getElem?_eq_getElem length)⟩

/-- One thread and its program change, and the value does unless it concerns another
thread. -/
theorem Agrees.set (agrees : contention.Agrees settled reached) {lock : SpinLock α}
    {after : LockThread α ρ} {program : LockProgram α ρ 0} {settled' : α}
    (stands : Stands settled' lock.value after program)
    (others : ∀ {other : Nat} {thread}, other ≠ index → contention.threads[other]? = some thread →
      thread.guards = 0 ∨ settled' = settled ∧ lock.value = contention.lock.value)
    (free : lock.locked = false → settled' = lock.value) :
    (Contention.mk lock (contention.threads.set index after)).Agrees settled'
      (reached.set index program) where
  length := by simp [agrees.length]
  stands {other thread program'} found foundProgram := by
    by_cases own : other = index
    · subst own
      have inThreads : other < contention.threads.length := by
        simpa using (List.getElem?_eq_some_iff.mp found).1
      rw [List.getElem?_set_self inThreads] at found
      rw [List.getElem?_set_self (agrees.length ▸ inThreads)] at foundProgram
      cases found
      cases foundProgram
      exact stands
    · rw [List.getElem?_set_ne (Ne.symm own)] at found foundProgram
      have stood := agrees.stands found foundProgram
      obtain outside | ⟨rfl, same⟩ := others own found
      · cases stood with
        | outside stage => exact .outside stage
        | inside => cases outside
      · rwa [same]
  free := free

/-- A turn that disturbs nobody is a step of the serial run if it ends a section or if an
attempt fails, and no step of it otherwise. -/
theorem Agrees.step {value : α} {programs : List (LockProgram α ρ 0)}
    (agrees : contention.Agrees settled reached) (serial : Serial value programs settled reached)
    (exclusive : contention.Exclusive) (calm : ¬ contention.Disturbs index) :
    ∃ settled' reached', Serial value programs settled' reached' ∧
      (contention.step index).Agrees settled' reached' := by
  obtain ⟨-, same⟩ | ⟨before, after, lock, found, turn, stepped⟩ := step_cases contention index
  · rw [same]
    exact ⟨settled, reached, serial, agrees⟩
  obtain ⟨program, foundProgram, stands⟩ := agrees.program found
  have kept : Serial value programs settled (reached.set index program) := by
    obtain ⟨inRange, rfl⟩ := List.getElem?_eq_some_iff.mp foundProgram
    rwa [List.set_getElem_self inRange]
  rw [stepped]
  cases turn with
  | idle before after same going still =>
      refine ⟨_, _, kept, agrees.set ?_ (fun _ _ => .inr ⟨rfl, rfl⟩) agrees.free⟩
      cases stands with
      | outside =>
          rw [same]
          exact .outside _
      | inside asks part => exact .inside asks fun _ => same ▸ part going
  | granted asks free =>
      have unheld := exclusive.free_iff.mp free
      refine ⟨_, _, kept, agrees.set ?_ (fun _ _ => .inr ⟨rfl, rfl⟩) nofun⟩
      cases stands with
      | outside => exact .inside asks fun _ => by rw [agrees.free free]; rfl
      | inside =>
          have alive : 1 ≤ contention.liveGuards := guards_le_liveGuards found
          omega
  | refused held =>
      cases stands with
      | outside =>
          exact ⟨_, _, serial.turn foundProgram .refused,
            agrees.set (.outside (.refused _)) (fun _ _ => .inr ⟨rfl, rfl⟩) agrees.free⟩
      | inside asks part =>
          exact ⟨_, _, kept,
            agrees.set (.inside asks nofun) (fun _ _ => .inr ⟨rfl, rfl⟩) agrees.free⟩
  | dropped =>
      obtain ⟨rfl, unchanged⟩ := exclusive.release_eq calm found
      rw [unchanged]
      refine ⟨_, _, kept, agrees.set ?_ (fun _ _ => .inr ⟨rfl, rfl⟩) agrees.free⟩
      cases stands with
      | outside => exact .outside (.running _)
  | read =>
      refine ⟨_, _, kept, agrees.set ?_ (fun _ _ => .inr ⟨rfl, rfl⟩) agrees.free⟩
      cases stands with
      | inside asks part => exact .inside asks fun _ => part rfl
  | write =>
      cases stands with
      | inside asks part =>
          have held := exclusive.locked found
          exact ⟨_, _, kept, agrees.set (.inside asks fun _ => part rfl)
            (fun differ foundOther => .inl (exclusive.others found differ foundOther))
            fun free => by cases held.symm.trans free⟩
  | released =>
      cases stands with
      | inside asks part =>
          exact ⟨_, _, serial.turn foundProgram (.granted asks (part rfl).symm),
            agrees.set (.outside (.running _))
              (fun differ foundOther => .inl (exclusive.others found differ foundOther))
              fun _ => rfl⟩

theorem Agrees.run {value : α} {programs : List (LockProgram α ρ 0)}
    (agrees : contention.Agrees settled reached) (serial : Serial value programs settled reached)
    (exclusive : contention.Exclusive) (calm : contention.Undisturbed schedule) :
    ∃ settled' reached', Serial value programs settled' reached' ∧
      (contention.run schedule).Agrees settled' reached' := by
  induction schedule generalizing contention settled reached with
  | nil => exact ⟨settled, reached, serial, agrees⟩
  | cons index rest ih =>
      obtain ⟨settled', reached', serial', agrees'⟩ := agrees.step serial exclusive calm.1
      exact ih agrees' serial' (exclusive.step calm.1) calm.2

/-- Every undisturbed schedule follows a serial run. -/
theorem exists_serial {value : α} {programs : List (LockProgram α ρ 0)}
    (calm : (start value programs).Undisturbed schedule) :
    ∃ settled reached, Serial value programs settled reached ∧
      ((start value programs).run schedule).Agrees settled reached :=
  (agrees_start value programs).run .start (exclusive_start value programs) calm

end Contention

end PagedMemory
