import Mathlib.Algebra.BigOperators.Group.Multiset.Basic
import Mathlib.Data.Set.List
import PagedMemory.Proofs.SpinLock.Serial

/-!
# What undisturbed threads keep

Threads that change a value by turns keep something about it.  Those that add to a
counter keep the sum of its value and of what they have still to add, and those that
move items between a list and their hands keep the items.  Either is seen one section at
a time: a section that nobody interferes with changes the weight of the value by as much
as it changes the account of its thread.

A serial run keeps the sum of the weight and all accounts for that reason, an
undisturbed schedule follows a serial run, and when all threads are done the accounts
are settled.
-/

namespace PagedMemory

variable {α β ρ M : Type} {owed : M} {program : LockProgram α ρ 0}

/-! ## Sections that keep a balance -/

/-- Every section of a program with an account comes to an end, and what a turn adds to
the weight of the value it takes from the account. -/
structure Conserves [Add M] (weigh : α → M) (Holds : M → LockProgram α ρ 0 → Prop) :
    Prop where
  ends : ∀ {owed program next}, Holds owed program → program.Asks next → ∀ value,
    (next.finish? value).isSome = true
  turn : ∀ {owed program after value left}, Holds owed program →
    program.Turn value after left →
      ∃ owed', Holds owed' after ∧ weigh left + owed' = weigh value + owed

variable [AddCancelCommMonoid M] {weigh : α → M} {Holds : M → LockProgram α ρ 0 → Prop}

/-- A serial run keeps the sum of the weight and the accounts. -/
theorem Serial.conserves {value left : α} {reached : List (LockProgram α ρ 0)}
    {accounts : List (M × LockProgram α ρ 0)} (conserves : Conserves weigh Holds)
    (holds : ∀ account ∈ accounts, Holds account.1 account.2)
    (serial : Serial value (accounts.map Prod.snd) left reached) :
    ∃ accounts' : List (M × LockProgram α ρ 0), accounts'.map Prod.snd = reached ∧
      (∀ account ∈ accounts', Holds account.1 account.2) ∧
      weigh left + (accounts'.map Prod.fst).sum =
        weigh value + (accounts.map Prod.fst).sum := by
  induction serial with
  | start => exact ⟨accounts, rfl, holds, rfl⟩
  | @turn now left reached index program after earlier found turn ih =>
      obtain ⟨accounts', rfl, holds', kept⟩ := ih
      rw [List.getElem?_map, Option.map_eq_some_iff] at found
      obtain ⟨account, foundAccount, rfl⟩ := found
      obtain ⟨owed', holdsAfter, balance⟩ :=
        conserves.turn (holds' account (List.mem_of_getElem? foundAccount)) turn
      refine ⟨accounts'.set index (owed', after), by rw [List.map_set], ?_, ?_⟩
      · intro other member
        rcases List.mem_or_eq_of_mem_set member with old | rfl
        · exact holds' other old
        · exact holdsAfter
      · have foundOwed : (accounts'.map Prod.fst)[index]? = some account.1 := by
          rw [List.getElem?_map, foundAccount]
          rfl
        have replaced := sum_set_add foundOwed owed'
        rw [List.map_set]
        refine add_right_cancel (b := account.1) ?_
        calc weigh left + ((accounts'.map Prod.fst).set index owed').sum + account.1
            = weigh left + owed' + (accounts'.map Prod.fst).sum := by
              rw [add_assoc, replaced, add_comm _ owed', add_assoc]
          _ = weigh now + (accounts'.map Prod.fst).sum + account.1 := by
              rw [balance, add_right_comm]
          _ = weigh value + (accounts.map Prod.fst).sum + account.1 := by rw [kept]

namespace Contention

variable {contention : Contention α ρ} {schedule : List Nat}

theorem result?_eq_some {thread : LockThread α ρ} {result : ρ}
    (ended : thread.result? = some result) :
    ∃ guards, thread = ⟨guards, .running (.done result)⟩ := by
  obtain ⟨guards, stage⟩ := thread
  cases stage with
  | running program =>
      cases program with
      | done => cases ended; exact ⟨guards, rfl⟩
      | lock | tryLock | read | write | release => cases ended
  | waiting | refused => cases ended

/-- A thread that is done has no guard, and its program in the serial run is done too. -/
theorem Agrees.done {settled : α} {accounts : List (M × LockProgram α ρ 0)} {index : Nat}
    {thread : LockThread α ρ} {result : ρ} (conserves : Conserves weigh Holds)
    (holds : ∀ account ∈ accounts, Holds account.1 account.2)
    (agrees : contention.Agrees settled (accounts.map Prod.snd))
    (found : contention.threads[index]? = some thread) (ended : thread.result? = some result) :
    thread = .start (.done result) ∧
      ∃ owed, accounts[index]? = some (owed, .done result) ∧ Holds owed (.done result) := by
  obtain ⟨guards, rfl⟩ := result?_eq_some ended
  obtain ⟨program, foundProgram, stands⟩ := agrees.program found
  rw [List.getElem?_map, Option.map_eq_some_iff] at foundProgram
  obtain ⟨⟨owed, program⟩, foundAccount, rfl⟩ := foundProgram
  have held := holds _ (List.mem_of_getElem? foundAccount)
  cases stands with
  | outside => exact ⟨rfl, owed, foundAccount, held⟩
  | inside asks part =>
      -- a section that has begun comes to an end, and the thread is not at its end
      have finishes := conserves.ends held asks settled
      rw [← part rfl] at finishes
      cases finishes

/-- When all threads are done, nobody has a guard, and every account is what the result of
its thread is worth. -/
theorem Agrees.settled {settled : α} {accounts : List (M × LockProgram α ρ 0)} {worth : ρ → M}
    (conserves : Conserves weigh Holds)
    (settles : ∀ {owed result}, Holds owed (.done result) → owed = worth result)
    (holds : ∀ account ∈ accounts, Holds account.1 account.2)
    (agrees : contention.Agrees settled (accounts.map Prod.snd))
    (complete : contention.isDone = true) :
    contention.liveGuards = 0 ∧ accounts.map Prod.fst = contention.results.map worth := by
  have ended : ∀ thread ∈ contention.threads, thread ∈ Set.range fun result =>
      LockThread.start (α := α) (.done result) := by
    intro thread member
    obtain ⟨result, isResult⟩ :=
      Option.isSome_iff_exists.mp (List.all_eq_true.mp complete thread member)
    obtain ⟨index, found⟩ := List.mem_iff_getElem?.mp member
    exact ⟨result, (agrees.done conserves holds found isResult).1.symm⟩
  obtain ⟨results, threads⟩ : contention.threads ∈ Set.range (List.map fun result =>
      LockThread.start (α := α) (.done result)) := by
    rw [Set.range_list_map]
    exact ended
  have listed : contention.results = results := by
    rw [Contention.results, ← threads, List.filterMap_map]
    exact List.filterMap_some
  have length : accounts.length = results.length := by
    simpa [← threads] using agrees.length
  constructor
  · rw [liveGuards_eq_sum, ← threads]
    exact List.sum_eq_zero (by simp [LockThread.start])
  · rw [listed]
    refine List.ext_getElem (by simpa using length) fun index inAccounts inResults => ?_
    rw [List.length_map] at inAccounts inResults
    have found : contention.threads[index]? = some (.start (.done results[index])) := by
      rw [← threads, List.getElem?_map, List.getElem?_eq_getElem inResults]
      rfl
    obtain ⟨-, owed, foundAccount, held⟩ := agrees.done conserves holds found rfl
    rw [List.getElem?_eq_getElem inAccounts, Option.some.injEq] at foundAccount
    rw [List.getElem_map, List.getElem_map, foundAccount]
    exact settles held

/-- A complete undisturbed run ends with a free lock, and what the results are worth beside
the value is what the accounts were beside the first value. -/
theorem isDone_conserves {value : α} {programs : List (LockProgram α ρ 0)}
    (worth : ρ → M) (accounts : List (M × LockProgram α ρ 0)) (conserves : Conserves weigh Holds)
    (settles : ∀ {owed result}, Holds owed (.done result) → owed = worth result)
    (listed : accounts.map Prod.snd = programs)
    (holds : ∀ account ∈ accounts, Holds account.1 account.2)
    (calm : (start value programs).Undisturbed schedule)
    (ran : (start value programs).run schedule = contention)
    (complete : contention.isDone = true) :
    contention.lock.locked = false ∧
      weigh contention.lock.value + (contention.results.map worth).sum =
        weigh value + (accounts.map Prod.fst).sum := by
  subst listed ran
  obtain ⟨settled, reached, serial, agrees⟩ := exists_serial calm
  obtain ⟨accounts', rfl, holds', kept⟩ := Serial.conserves conserves holds serial
  obtain ⟨unheld, paid⟩ := agrees.settled conserves settles holds' complete
  have unlocked := ((exclusive_start _ _).run calm).free_iff.mpr unheld
  exact ⟨unlocked, by rw [← agrees.free unlocked, ← paid, kept]⟩

end Contention

/-! ## Counters -/

namespace CriticalSection

theorem evaluate_leave (ending : Option β) (value : α) :
    (leave ending).evaluate value = (ending, value) := by
  cases ending with
  | none => rfl
  | some result => rfl

theorem evaluate_increment (ending : Option Unit) (count : Nat) :
    (increment ending).evaluate count = (ending, count + 1) :=
  evaluate_leave ending (count + 1)

theorem evaluate_push (item : α) (ending : Option Unit) (items : List α) :
    (push item ending).evaluate items = (ending, items ++ [item]) :=
  evaluate_leave ending (items ++ [item])

theorem evaluate_pop (items : List α) :
    pop.evaluate items = (some items.getLast?, items.dropLast) := by
  rcases List.eq_nil_or_concat items with rfl | ⟨front, last, rfl⟩
  · rfl
  · simp [pop, evaluate]

end CriticalSection

namespace LockProgram

/-- The program adds one to a counter a given number of times, each time under a guard of
its own that it waits for or tries to get until it has it. -/
inductive Increments : Nat → LockProgram Nat ρ 0 → Prop
  | done {result : ρ} : Increments 0 (.done result)
  | wait {rounds : Nat} {ending : Option Unit} {after : Option Unit → LockProgram Nat ρ 0}
      (goesOn : Increments rounds (after ending)) :
      Increments (rounds + 1) (withLock (.increment ending) after)
  | attempt {rounds : Nat} {ending : Option Unit} {after : Option Unit → LockProgram Nat ρ 0}
      {otherwise : LockProgram Nat ρ 0} (goesOn : Increments rounds (after ending))
      (retries : Increments (rounds + 1) otherwise) :
      Increments (rounds + 1) (tryWith (.increment ending) after otherwise)

theorem increments_countUp (rounds : Nat) : Increments rounds (countUp rounds) := by
  induction rounds with
  | zero => exact .done
  | succ rounds ih => exact .wait ih

/-- What is added to a counter is what the program has the less to add. -/
theorem increments_conserves : Conserves (fun count => count) (Increments (ρ := ρ)) where
  ends increments asks value := by
    cases increments with
    | done => cases asks
    | wait | attempt =>
        cases asks
        rw [finish?_thenRelease]
        rfl
  turn increments turn := by
    cases increments with
    | done =>
        cases turn with
        | granted asks => cases asks
    | wait goesOn =>
        obtain ⟨rfl, rfl⟩ := turn.of_withLock
        rw [CriticalSection.evaluate_increment]
        exact ⟨_, goesOn, by omega⟩
    | attempt goesOn retries =>
        obtain ⟨rfl, rfl⟩ | ⟨rfl, rfl⟩ := turn.of_tryWith
        · rw [CriticalSection.evaluate_increment]
          exact ⟨_, goesOn, by omega⟩
        · exact ⟨_, retries, rfl⟩

/-! ## Lists -/

/-- A thread with some items in its hands pushes only what it has, keeps what it pops, and
ends with what it has then.  It waits for the lock each time or tries to get it. -/
inductive Carries : Multiset α → LockProgram (List α) (List α) 0 → Prop
  | done {items : List α} : Carries items (.done items)
  | push {carried : Multiset α} {item : α} {ending : Option Unit}
      {after : Option Unit → LockProgram (List α) (List α) 0}
      (goesOn : Carries carried (after ending)) :
      Carries (item ::ₘ carried) (withLock (.push item ending) after)
  | tryPush {carried : Multiset α} {item : α} {ending : Option Unit}
      {after : Option Unit → LockProgram (List α) (List α) 0}
      {otherwise : LockProgram (List α) (List α) 0} (goesOn : Carries carried (after ending))
      (retries : Carries (item ::ₘ carried) otherwise) :
      Carries (item ::ₘ carried) (tryWith (.push item ending) after otherwise)
  | pop {carried : Multiset α} {after : Option (Option α) → LockProgram (List α) (List α) 0}
      (empty : Carries carried (after (some none)))
      (popped : ∀ item, Carries (item ::ₘ carried) (after (some (some item)))) :
      Carries carried (withLock .pop after)
  | tryPop {carried : Multiset α} {after : Option (Option α) → LockProgram (List α) (List α) 0}
      {otherwise : LockProgram (List α) (List α) 0} (empty : Carries carried (after (some none)))
      (popped : ∀ item, Carries (item ::ₘ carried) (after (some (some item))))
      (retries : Carries carried otherwise) : Carries carried (tryWith .pop after otherwise)

/-- An item at the end of the list weighs as much as one in a thread's hands. -/
theorem append_balance {items : List α} {item : α} {carried : Multiset α} :
    ((items ++ [item] : List α) : Multiset α) + carried =
      (items : Multiset α) + item ::ₘ carried := by
  rw [← Multiset.coe_add, Multiset.coe_singleton, add_assoc, Multiset.singleton_add]

theorem pop_balance {items : List α} {carried : Multiset α}
    {after : Option (Option α) → LockProgram (List α) (List α) 0}
    (empty : Carries carried (after (some none)))
    (popped : ∀ item, Carries (item ::ₘ carried) (after (some (some item)))) :
    ∃ carried', Carries carried' (after (CriticalSection.pop.evaluate items).1) ∧
      ((CriticalSection.pop.evaluate items).2 : Multiset α) + carried' =
        (items : Multiset α) + carried := by
  rw [CriticalSection.evaluate_pop]
  rcases List.eq_nil_or_concat items with rfl | ⟨front, last, rfl⟩
  · exact ⟨_, empty, rfl⟩
  · rw [List.concat_eq_append, List.getLast?_concat, List.dropLast_concat]
    exact ⟨_, popped last, append_balance.symm⟩

/-- An item that leaves the list comes into the hands of a thread, and the other way. -/
theorem carries_conserves : Conserves Multiset.ofList (Carries (α := α)) where
  ends carries asks items := by
    cases carries with
    | done => cases asks
    | push | tryPush | pop | tryPop =>
        cases asks
        rw [finish?_thenRelease]
        rfl
  turn carries turn := by
    cases carries with
    | done =>
        cases turn with
        | granted asks => cases asks
    | push goesOn =>
        obtain ⟨rfl, rfl⟩ := turn.of_withLock
        rw [CriticalSection.evaluate_push]
        exact ⟨_, goesOn, append_balance⟩
    | tryPush goesOn retries =>
        obtain ⟨rfl, rfl⟩ | ⟨rfl, rfl⟩ := turn.of_tryWith
        · rw [CriticalSection.evaluate_push]
          exact ⟨_, goesOn, append_balance⟩
        · exact ⟨_, retries, rfl⟩
    | pop empty popped =>
        obtain ⟨rfl, rfl⟩ := turn.of_withLock
        exact pop_balance empty popped
    | tryPop empty popped retries =>
        obtain ⟨rfl, rfl⟩ | ⟨rfl, rfl⟩ := turn.of_tryWith
        · exact pop_balance empty popped
        · exact ⟨_, retries, rfl⟩

end LockProgram

end PagedMemory
