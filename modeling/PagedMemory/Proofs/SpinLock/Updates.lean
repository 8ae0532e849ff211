import Mathlib.Data.Multiset.Bind
import PagedMemory.Proofs.SpinLock.Conservation
import PagedMemory.SpinLock.Session

/-!
# Updates of a locked value

Threads that do not disturb each other lose no update.  There is one guard at most and
the flag shows it, a section that panics leaves what it wrote and a free lock, increments
add up, and a list and the hands of its users keep their items.

Threads that wait for the lock never disturb each other.  Threads that try to get it may:
a failed attempt clears the flag, and if that comes to pass while another thread has a
guard, the next thread to ask gets one as well.  Two increments under two guards can
read the same count, and then one of them is lost.
-/

namespace PagedMemory

variable {α β ρ : Type} {guards : Nat}

namespace Contention

variable {contention : Contention α ρ} {index : Nat} {schedule : List Nat} {value : α}
  {programs : List (LockProgram α ρ 0)}

/-- Programs that only wait for the lock are undisturbed in every order. -/
theorem undisturbed_of_waits (wait : ∀ program ∈ programs, program.Waits)
    (schedule : List Nat) : (start value programs).Undisturbed schedule := by
  refine AllWait.undisturbed (fun thread member => ?_) schedule
  obtain ⟨program, isProgram, rfl⟩ := List.mem_map.mp member
  exact ⟨rfl, wait program isProgram⟩

theorem waits_countUp (rounds : Nat) : (LockProgram.countUp rounds).Waits := by
  induction rounds with
  | zero => trivial
  | succ rounds ih => exact fun _ => ih

/-- An attempt is granted exactly if the flag is clear. -/
theorem step_tryLock {granted : LockProgram α ρ (guards + 1)} {refused : LockProgram α ρ guards}
    (tries : contention.threads[index]? = some ⟨guards, .running (.tryLock granted refused)⟩) :
    (contention.step index).threads[index]? =
      some (if contention.lock.locked then ⟨guards, .refused refused⟩
        else ⟨guards + 1, .running granted⟩) := by
  rw [step_eq tries, List.getElem?_set_self (List.getElem?_eq_some_iff.mp tries).1]
  cases flag : contention.lock.locked with
  | false => simp [LockThread.step, SpinLock.compareExchange, flag]
  | true => simp [LockThread.step, SpinLock.compareExchange, flag]

/-- A section under way stays under way until its thread lets the guard go, and then the
value is what the section makes of it when nobody interferes. -/
theorem section_in_one_piece {later : List Nat} {work : CriticalSection α β}
    {after : Option β → LockProgram α ρ 0}
    (calm : (start value programs).Undisturbed (schedule ++ later))
    (ran : (start value programs).run schedule = contention)
    (holds : contention.threads[index]? = some ⟨1, .running (work.thenRelease after)⟩) :
    (∃ stage, (contention.run later).threads[index]? = some ⟨1, stage⟩) ∨
      ∃ past, past <+: later ∧
        (contention.run past).lock = .new (work.evaluate contention.lock.value).2 ∧
        (contention.run past).threads[index]? =
          some (.start (after (work.evaluate contention.lock.value).1)) := by
  subst ran
  obtain ⟨calmBefore, calmLater⟩ := undisturbed_append.mp calm
  have within : ((start value programs).run schedule).Within index _ :=
    ⟨_, holds, rfl, LockProgram.finish?_thenRelease work after _⟩
  rcases within.run ((exclusive_start value programs).run calmBefore) calmLater with
    ⟨stage, found, -⟩ | ⟨past, earlier, found, released⟩
  · exact .inl ⟨stage, found⟩
  · exact .inr ⟨past, earlier, released, found⟩

/-- Increments add up. -/
theorem counted {count rounds : Nat} {programs : List (LockProgram Nat ρ 0)}
    {contention : Contention Nat ρ}
    (increments : ∀ program ∈ programs, program.Increments rounds)
    (calm : (start count programs).Undisturbed schedule)
    (ran : (start count programs).run schedule = contention)
    (complete : contention.isDone = true) :
    contention.lock = ⟨false, count + programs.length * rounds⟩ := by
  obtain ⟨unlocked, kept⟩ := isDone_conserves (fun _ => 0) (programs.map (rounds, ·))
    LockProgram.increments_conserves (fun increments => by cases increments; rfl) (by simp)
    (List.forall_mem_map.mpr increments) calm ran
    complete
  have total : contention.lock.value = count + programs.length * rounds := by simpa using kept
  rw [← unlocked, ← total]

/-- Threads that count up only wait for the lock, so nothing need be known of the order. -/
theorem counting_counted {threads rounds : Nat}
    (complete : ((counting threads rounds).run schedule).isDone = true) :
    ((counting threads rounds).run schedule).lock = ⟨false, threads * rounds⟩ := by
  have wait : ∀ program ∈ List.replicate threads (LockProgram.countUp rounds),
      program.Waits := fun program member =>
    List.eq_of_mem_replicate member ▸ waits_countUp rounds
  have increments : ∀ program ∈ List.replicate threads (LockProgram.countUp rounds),
      program.Increments rounds := fun program member =>
    List.eq_of_mem_replicate member ▸ LockProgram.increments_countUp rounds
  have total := counted increments (undisturbed_of_waits wait schedule) rfl complete
  rwa [Nat.zero_add, List.length_replicate] at total

theorem sum_map_ofList (lists : List (List α)) :
    (lists.map Multiset.ofList).sum = (lists.flatten : Multiset α) :=
  (Multiset.sum_coe _).symm.trans (Multiset.coe_join lists)

/-- Items stay in the list or in somebody's hands. -/
theorem carried {items : List α} {clients : List (List α × LockProgram (List α) (List α) 0)}
    {contention : Contention (List α) (List α)}
    (carry : ∀ client ∈ clients, client.2.Carries client.1)
    (calm : (start items (clients.map Prod.snd)).Undisturbed schedule)
    (ran : (start items (clients.map Prod.snd)).run schedule = contention)
    (complete : contention.isDone = true) :
    contention.lock.locked = false ∧
      (contention.lock.value ++ contention.results.flatten).Perm
        (items ++ (clients.map Prod.fst).flatten) := by
  obtain ⟨unlocked, kept⟩ := isDone_conserves Multiset.ofList
    (clients.map fun client => ((client.1 : Multiset α), client.2))
    LockProgram.carries_conserves (fun carries => by cases carries; rfl) (by simp)
    (List.forall_mem_map.mpr carry) calm ran complete
  have hands : (clients.map fun client => ((client.1 : Multiset α), client.2)).map Prod.fst =
      (clients.map Prod.fst).map Multiset.ofList := by simp
  rw [hands, sum_map_ofList, sum_map_ofList, Multiset.coe_add, Multiset.coe_add] at kept
  exact ⟨unlocked, Multiset.coe_eq_coe.mp kept⟩

/-! ## The lock at large -/

/--
The count of guards is right at every moment exactly if no failed attempt clears the flag
under a live guard, as none does when all threads wait.  In that case sections take place
one after the other and in one piece, whether they finish or panic, and a complete run
loses no increment and neither loses nor duplicates an item.
-/
theorem undisturbed_threads_lose_no_update (schedule : List Nat) :
    -- One guard at a time, which the flag shows, is what undisturbed means.
    (∀ (α ρ : Type) (value : α) (programs : List (LockProgram α ρ 0)),
      (start value programs).Undisturbed schedule ↔
        ∀ past, past <+: schedule →
          ((start value programs).run past).liveGuards ≤ 1 ∧
            (((start value programs).run past).liveGuards = 1 ↔
              ((start value programs).run past).lock.locked = true)) ∧
    -- Nobody is disturbed by threads that wait.
    (∀ (α ρ : Type) (value : α) (programs : List (LockProgram α ρ 0)),
      (∀ program ∈ programs, program.Waits) → (start value programs).Undisturbed schedule) ∧
    -- An attempt gets a guard exactly if the flag is clear.
    (∀ (α ρ : Type) (contention : Contention α ρ) (index guards : Nat)
      (granted : LockProgram α ρ (guards + 1)) (refused : LockProgram α ρ guards),
      contention.threads[index]? = some ⟨guards, .running (.tryLock granted refused)⟩ →
        (contention.step index).threads[index]? =
          some (if contention.lock.locked then ⟨guards, .refused refused⟩
            else ⟨guards + 1, .running granted⟩)) ∧
    -- A section that finishes or panics leaves what it wrote, and a free lock.
    (∀ (α β ρ : Type) (value : α) (programs : List (LockProgram α ρ 0))
      (contention : Contention α ρ) (earlier later : List Nat) (index : Nat)
      (work : CriticalSection α β) (after : Option β → LockProgram α ρ 0),
      (start value programs).Undisturbed schedule → earlier ++ later = schedule →
        (start value programs).run earlier = contention →
        contention.threads[index]? = some ⟨1, .running (work.thenRelease after)⟩ →
        (∃ stage, (contention.run later).threads[index]? = some ⟨1, stage⟩) ∨
          ∃ past, past <+: later ∧
            (contention.run past).lock = .new (work.evaluate contention.lock.value).2 ∧
            (contention.run past).threads[index]? =
              some (.start (after (work.evaluate contention.lock.value).1))) ∧
    -- No increment is lost.
    (∀ (ρ : Type) (count rounds : Nat) (programs : List (LockProgram Nat ρ 0)),
      (∀ program ∈ programs, program.Increments rounds) →
        (start count programs).Undisturbed schedule →
        ((start count programs).run schedule).isDone = true →
        ((start count programs).run schedule).lock =
          ⟨false, count + programs.length * rounds⟩) ∧
    (∀ (threads rounds : Nat),
      ((counting threads rounds).run schedule).isDone = true →
        ((counting threads rounds).run schedule).lock = ⟨false, threads * rounds⟩) ∧
    -- No item is lost or duplicated.
    (∀ (α : Type) (items : List α) (clients : List (List α × LockProgram (List α) (List α) 0)),
      (∀ client ∈ clients, client.2.Carries client.1) →
        (start items (clients.map Prod.snd)).Undisturbed schedule →
        ((start items (clients.map Prod.snd)).run schedule).isDone = true →
        ((start items (clients.map Prod.snd)).run schedule).lock.locked = false ∧
          (((start items (clients.map Prod.snd)).run schedule).lock.value ++
            ((start items (clients.map Prod.snd)).run schedule).results.flatten).Perm
              (items ++ (clients.map Prod.fst).flatten)) := by
  refine ⟨fun α ρ value programs => ?_,
    fun α ρ value programs wait => undisturbed_of_waits wait schedule,
    fun α ρ contention index guards granted refused tries => step_tryLock tries,
    fun α β ρ value programs contention earlier later index work after calm whole ran holds =>
      section_in_one_piece (whole ▸ calm) ran holds,
    fun ρ count rounds programs increments calm complete =>
      counted increments calm rfl complete,
    fun threads rounds complete => counting_counted complete,
    fun α items clients carry calm complete => carried carry calm rfl complete⟩
  rw [undisturbed_iff (exclusive_start value programs)]
  exact forall₂_congr fun past _ => exclusive_iff

/-- A thread whose increment panics, and one that tries to get the lock before it waits. -/
def panicAndRetry : Contention Nat Unit :=
  .start 0
    [.withLock (.increment none) fun _ => .done (),
      .tryWith (.increment (some ())) (fun _ => .done ())
        (.withLock (.increment (some ())) fun _ => .done ())]

/-- The attempt fails, but its guard is let go only after the panic has let the lock go. -/
theorem panicAndRetry_counts_two :
    (panicAndRetry.run [0, 1, 0, 0, 0, 1, 1, 1, 1, 1]).lock = ⟨false, 2⟩ := by
  obtain ⟨-, -, -, -, counts, -⟩ :=
    undisturbed_threads_lose_no_update [0, 1, 0, 0, 0, 1, 1, 1, 1, 1]
  exact counts Unit 0 1 _
    (List.forall_mem_cons.mpr
      ⟨.wait .done, List.forall_mem_singleton.mpr (.attempt .done (.wait .done))⟩)
    (by decide) (by decide)

/-- Two threads that increment a counter, and one that tries to get the lock. -/
def countersAndVisitor : Contention Nat Unit :=
  .start 0 [.countUp 1, .countUp 1, .tryLock (.release (.done ())) (.done ())]

/-- The attempt fails and clears the flag under a live guard.  Then there are two guards,
both increments read zero, and one of them is lost.  The same can be seen with a single
thread that tries to get a lock it holds. -/
theorem failed_attempt_loses_update :
    (countersAndVisitor.run [0, 2, 2]).liveGuards = 1 ∧
      (countersAndVisitor.run [0, 2, 2]).lock.locked = false ∧
      (countersAndVisitor.run [0, 2, 2, 1]).liveGuards = 2 ∧
      (countersAndVisitor.run [0, 2, 2, 1, 0, 1, 0, 1, 0, 1]).isDone = true ∧
      (countersAndVisitor.run [0, 2, 2, 1, 0, 1, 0, 1, 0, 1]).lock = ⟨false, 1⟩ ∧
      (LockSession.start []).transcript [.lock, .tryLock] =
        ([(.done, true), (.flag false, false)], []) := by
  decide

end Contention

end PagedMemory
