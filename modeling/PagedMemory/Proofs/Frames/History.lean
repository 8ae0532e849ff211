import PagedMemory.Proofs.Frames.Moves
import PagedMemory.Proofs.Frames.Turns

/-!
# Histories of a pool

A history is a list of acts: calls of clients, in any order and with any arguments,
and damage to the frame table.  It is run from a pool that has just been made, over
any boot memory.

What a pool is about changes only when its table is built.  So a table that was built
within reach of the direct map stays there, however it is damaged.  A pool whose table
is never damaged is sound as soon as it has one.

Leaked frames are counted one for each act at most, and nothing that happens to the
table changes their number.
-/

namespace PagedMemory

/-- What may happen to a pool: a client calls it, or its table is damaged. -/
inductive PoolAct where
  | call (call : PoolCall)
  /-- One entry of the table takes the value of another. -/
  | damage (source target : Nat)
  deriving DecidableEq

def PoolAct.run (reachable : Frame → Bool) (pool : FramePool) :
    PoolAct → Checked (Answer × FramePool)
  | .call asked => asked.run reachable pool
  | .damage source target =>
      match pool.copyEntry? source target with
      | some damaged => return (.done, damaged)
      | none => return (.refused .noEntry, pool)

/-- Run acts in order, and list the answers. -/
def FramePool.runAll (reachable : Frame → Bool) (pool : FramePool) :
    List PoolAct → Checked (List Answer × FramePool)
  | [] => return ([], pool)
  | act :: rest => do
      let (answer, pool) ← act.run reachable pool
      let (answers, pool) ← pool.runAll reachable rest
      return (answer :: answers, pool)

variable {reachable : Frame → Bool} {before after : FramePool} {answer : Answer}

/-! ## From steps to histories -/

/-- What every step keeps, every call keeps. -/
theorem PoolCall.keeps (Good : FramePool → Prop)
    (steps : ∀ {before : FramePool} {step : PoolStep} {answer : Answer} {after : FramePool},
      Good before → step.run reachable before = .ok (answer, after) → Good after)
    {call : PoolCall} (good : Good before)
    (ran : call.run reachable before = .ok (answer, after)) : Good after := by
  rw [← call.runSteps_eq_run] at ran
  unfold runSteps at ran
  split at ran
  next refusal entered =>
    cases ran
    exact good
  next step entered =>
    obtain ⟨⟨first, between⟩, stepped, finished⟩ := Checked.bind_eq_ok.mp ran
    have kept : Good between := steps good stepped
    dsimp only at finished
    split at finished
    next =>
      cases finished
      exact kept
    next given frame pending =>
      obtain ⟨⟨returned, last⟩, back, answered⟩ := Checked.bind_eq_ok.mp finished
      cases answered
      exact steps kept back

/-- What every act of a history keeps holds after it. -/
theorem FramePool.runAll_keeps (Good : FramePool → Prop) {acts : List PoolAct}
    (each : ∀ act ∈ acts, ∀ {before answer after}, Good before →
      act.run reachable before = .ok (answer, after) → Good after)
    {answers : List Answer} (good : Good before)
    (ran : before.runAll reachable acts = .ok (answers, after)) : Good after := by
  induction acts generalizing before answers with
  | nil =>
      cases ran
      exact good
  | cons act rest induction =>
      obtain ⟨⟨first, between⟩, acted, continued⟩ := Checked.bind_eq_ok.mp ran
      obtain ⟨⟨others, last⟩, followed, answered⟩ := Checked.bind_eq_ok.mp continued
      cases answered
      apply induction
      · intro later member
        exact each later (List.mem_cons_of_mem act member)
      · exact each act List.mem_cons_self good acted
      · exact followed

/-- If every step is answered and keeps something, so does every call. -/
theorem PoolCall.answers (Good : FramePool → Prop)
    (steps : ∀ {before : FramePool} (step : PoolStep), Good before →
      ∃ answer after, step.run reachable before = .ok (answer, after) ∧ Good after)
    (call : PoolCall) (good : Good before) :
    ∃ answer after, call.run reachable before = .ok (answer, after) ∧ Good after := by
  rw [← call.runSteps_eq_run]
  unfold runSteps
  cases call.enter with
  | error refusal => exact ⟨_, before, rfl, good⟩
  | ok step =>
      obtain ⟨first, between, stepped, kept⟩ := steps step good
      simp only [stepped, bind, Except.bind]
      split
      next given finished => exact ⟨given, between, rfl, kept⟩
      next given frame finished =>
        obtain ⟨returned, last, back, kept'⟩ := steps (.giveBack frame) kept
        simp only [back]
        exact ⟨given, last, rfl, kept'⟩

/-- If every step is answered and keeps something, so does every history of calls. -/
theorem FramePool.runAll_answers (Good : FramePool → Prop)
    (steps : ∀ {before : FramePool} (step : PoolStep), Good before →
      ∃ answer after, step.run reachable before = .ok (answer, after) ∧ Good after)
    (calls : List PoolCall) (good : Good before) :
    ∃ answers after, before.runAll reachable (calls.map .call) = .ok (answers, after) ∧
      Good after := by
  induction calls generalizing before with
  | nil => exact ⟨[], before, rfl, good⟩
  | cons call rest induction =>
      obtain ⟨answer, between, called, kept⟩ := call.answers Good steps good
      obtain ⟨answers, after, followed, kept'⟩ := induction kept
      have acted : (PoolAct.call call).run reachable before = .ok (answer, between) := called
      refine ⟨answer :: answers, after, ?_, kept'⟩
      simp only [List.map_cons, runAll, acted, bind, Except.bind, followed]
      rfl

/-! ## What a pool is about -/

namespace FramePool

theorem HandsOut.territory {count : Nat} {result : Except AllocateError Frame}
    (handsOut : HandsOut before count result after) : after.territory = before.territory := by
  cases handsOut with
  | refused reached => rfl
  | stolen early stolen =>
      subst early
      simp only [FramePool.territory, BootMemory.usableRange,
        (BumpRange.steals_of_steal stolen).last]
  | popped ready single popped =>
      subst ready
      simp only [FramePool.territory, (FreeStack.pops_of_pop popped).bounds]

theorem TakesBack.territory {frame : Frame} {result : Except ReleaseError Unit}
    (takesBack : TakesBack before frame result after) : after.territory = before.territory := by
  cases takesBack with
  | refused direct => rfl
  | counted => rfl
  | put ready pushed =>
      subst ready
      simp only [FramePool.territory, (FreeStack.pushes_of_push pushed).bounds]

theorem territory_of_serve {request : FrameRequest}
    (served : before.serve request = .ok (answer, after)) :
    after.territory = before.territory := by
  cases serves_of_serve served with
  | allocate handsOut answered => exact handsOut.territory
  | take handsOut answered => exact handsOut.territory
  | release takesBack answered => exact takesBack.territory

theorem territory_of_damaged {source target : Nat}
    (damaged : before.copyEntry? source target = some after) :
    after.territory = before.territory := by
  obtain ⟨phase, leaked⟩ := before
  cases phase with
  | early memory => cases damaged
  | ready stack =>
      obtain ⟨rest, changed, rfl⟩ := Option.map_eq_some_iff.mp damaged
      simp only [FramePool.territory, FreeStack.bounds_of_damaged changed]

theorem isBootstrapped_of_territory (same : after.territory = before.territory) :
    after.isBootstrapped = before.isBootstrapped := by
  obtain ⟨phase, leaked⟩ := before
  obtain ⟨phase', leaked'⟩ := after
  cases phase with
  | early memory =>
      cases phase' with
      | early memory' => rfl
      | ready stack' => cases same
  | ready stack =>
      cases phase' with
      | early memory' => cases same
      | ready stack' => rfl

/-- A pool with a table has been bootstrapped. -/
theorem ready_of_table {pool : FramePool} {bounds : TableBounds}
    (table : pool.territory = .table bounds) :
    ∃ stack, pool = ⟨.ready stack, pool.leakedFrees⟩ ∧ stack.bounds = bounds := by
  obtain ⟨phase, leaked⟩ := pool
  cases phase with
  | early memory => cases table
  | ready stack => exact ⟨stack, rfl, Territory.table.inj table⟩

end FramePool

/-- A step that changes what the pool is about is a bootstrap. -/
theorem PoolStep.territory_or_bootstrapped {step : PoolStep}
    (ran : step.run reachable before = .ok (answer, after)) :
    after.territory = before.territory ∨
      ∃ memory stack, before.phase = .early memory ∧ FramePool.Bootstrapped memory stack ∧
        after = ⟨.ready stack, before.leakedFrees⟩ := by
  cases step with
  | serve request => exact Or.inl (FramePool.territory_of_serve ran)
  | giveBack frame =>
      have served : before.serve (.release frame) = .ok (answer, after) := ran
      exact Or.inl (FramePool.territory_of_serve served)
  | bootstrap =>
      obtain ⟨reply, replied, answered⟩ := Checked.bind_eq_ok.mp ran
      cases answered
      cases result : reply.result with
      | ok done => exact Or.inr (FramePool.ready_of_bootstrap replied result)
      | error refusal =>
          rw [FramePool.eq_of_bootstrap_refused replied result]
          exact Or.inl rfl

/-- A table is about the same frames for good. -/
theorem PoolAct.table_of_run {act : PoolAct} {bounds : TableBounds}
    (table : before.territory = .table bounds)
    (ran : act.run reachable before = .ok (answer, after)) :
    after.territory = .table bounds := by
  cases act with
  | damage source target =>
      simp only [run] at ran
      split at ran
      next damaged changed =>
        cases ran
        rw [FramePool.territory_of_damaged changed, table]
      next =>
        cases ran
        exact table
  | call call =>
      have called : call.run reachable before = .ok (answer, after) := ran
      refine PoolCall.keeps (fun pool => pool.territory = .table bounds) ?_ table called
      intro before step answer after table stepped
      rcases step.territory_or_bootstrapped stepped with same | ⟨memory, stack, early, -, -⟩
      · exact same.trans table
      · rw [FramePool.territory, early] at table
        cases table

namespace FramePool

variable {memory : BootMemory} {acts : List PoolAct} {answers : List Answer} {pool : FramePool}

theorem table_of_runAll {bounds : TableBounds} (table : before.territory = .table bounds)
    (ran : before.runAll reachable acts = .ok (answers, after)) :
    after.territory = .table bounds := by
  refine runAll_keeps (fun pool => pool.territory = .table bounds) ?_ table ran
  intro act member before answer after table acted
  exact act.table_of_run table acted

/-! ## What becomes of a pool that has just been made -/

/-- The table ends within reach of the direct map, if there is one. -/
def WithinReach (pool : FramePool) : Prop :=
  ∀ bounds, pool.territory = .table bounds →
    (bounds.first.number + bounds.total) * pageSize ≤ directMapLimit

theorem WithinReach.of_territory (within : before.WithinReach)
    (same : after.territory = before.territory) : after.WithinReach := by
  intro bounds table
  exact within bounds (same.symm.trans table)

theorem WithinReach.step {step : PoolStep} (within : before.WithinReach)
    (ran : step.run reachable before = .ok (answer, after)) : after.WithinReach := by
  rcases step.territory_or_bootstrapped ran with same | ⟨memory, stack, early, built, rfl⟩
  · exact within.of_territory same
  · intro bounds table
    cases table
    exact built.mapped

/-- Wherever boot memory ends, and however the table is damaged, it stays within reach. -/
theorem withinReach_of_runAll (ran : (new memory).runAll reachable acts = .ok (answers, pool)) :
    pool.WithinReach := by
  refine runAll_keeps WithinReach ?_ ?_ ran
  · intro act member before answer after within acted
    cases act with
    | call call => exact PoolCall.keeps WithinReach WithinReach.step within acted
    | damage source target =>
        simp only [PoolAct.run] at acted
        split at acted
        next damaged changed =>
          cases acted
          exact within.of_territory (territory_of_damaged changed)
        next =>
          cases acted
          exact within
  · intro bounds table
    cases table

/-- What a table within reach hands out can be reached. -/
theorem WithinReach.reaches {count : Nat} {frame : Frame} (within : before.WithinReach)
    (bootstrapped : before.isBootstrapped = true)
    (handsOut : HandsOut before count (.ok frame) after) :
    frame.base.toNat < directMapLimit := by
  cases handsOut with
  | stolen early stolen =>
      subst early
      cases bootstrapped
  | @popped stack rest leaked frame ready single popped =>
      subst ready
      have mapped := within stack.bounds rfl
      have below := (FreeStack.pops_of_pop popped).number_lt
      rw [Block.toNat_base]
      simp only [FreeStack.bounds, pageSize] at *
      omega

theorem Sound.serve {request : FrameRequest} (sound : before.Sound)
    (served : before.serve request = .ok (answer, after)) : after.Sound := by
  obtain ⟨answer', after', replied, outcome⟩ := PoolTurn.serves sound 0 request
  cases replied.symm.trans served
  cases outcome with
  | granted grants steady => exact grants.sound
  | recovered nothing returned freed managed missing recovers => exact recovers.sound
  | kept nothing steady sound territory available => exact sound
  | bootstrapped step => cases step

theorem Sound.step {step : PoolStep} (sound : before.Sound)
    (bootstrapped : before.isBootstrapped = true)
    (ran : step.run reachable before = .ok (answer, after)) : after.Sound := by
  cases step with
  | serve request => exact sound.serve ran
  | giveBack frame =>
      have served : before.serve (.release frame) = .ok (answer, after) := ran
      exact sound.serve served
  | bootstrap =>
      cases sound with
      | early aligned => cases bootstrapped
      | ready represents mapped =>
          cases ran
          exact .ready represents mapped

/-- Calls alone never disturb a table, whatever boot memory it was built over. -/
theorem sound_of_calls {calls : List PoolCall}
    (ran : (new memory).runAll reachable (calls.map .call) = .ok (answers, pool))
    (bootstrapped : pool.isBootstrapped = true) : pool.Sound := by
  refine runAll_keeps (fun pool => pool.isBootstrapped = true → pool.Sound) ?_ ?_ ran bootstrapped
  · intro act member before answer after good acted
    obtain ⟨call, -, rfl⟩ := List.mem_map.mp member
    refine PoolCall.keeps (fun pool => pool.isBootstrapped = true → pool.Sound) ?_ good acted
    intro before step answer after good stepped ready
    rcases step.territory_or_bootstrapped stepped with same | ⟨memory, stack, early, built, rfl⟩
    · have before_ready : before.isBootstrapped = true := by
        rw [← isBootstrapped_of_territory same]
        exact ready
      exact (good before_ready).step before_ready stepped
    · exact (Sound.of_represents built.represents built.mapped before.leakedFrees).1
  · intro ready
    cases ready

/-! ## Leaked frames are counted one at a time -/

theorem HandsOut.leakedFrees {count : Nat} {result : Except AllocateError Frame}
    (handsOut : HandsOut before count result after) : after.leakedFrees = before.leakedFrees := by
  cases handsOut with
  | refused reached => rfl
  | stolen early stolen =>
      subst early
      rfl
  | popped ready single popped =>
      subst ready
      rfl

theorem TakesBack.leakedFrees_le {frame : Frame} {result : Except ReleaseError Unit}
    (takesBack : TakesBack before frame result after) :
    after.leakedFrees ≤ before.leakedFrees + 1 := by
  cases takesBack with
  | refused direct => exact Nat.le_succ _
  | counted => exact Nat.le_refl _
  | put ready pushed =>
      subst ready
      exact Nat.le_succ _

theorem leakedFrees_le_of_serve {request : FrameRequest}
    (served : before.serve request = .ok (answer, after)) :
    after.leakedFrees ≤ before.leakedFrees + 1 := by
  cases serves_of_serve served with
  | allocate handsOut answered => exact Nat.le_succ_of_le (Nat.le_of_eq handsOut.leakedFrees)
  | take handsOut answered => exact Nat.le_succ_of_le (Nat.le_of_eq handsOut.leakedFrees)
  | release takesBack answered => exact takesBack.leakedFrees_le

theorem leakedFrees_of_allocate {count : Nat}
    (served : before.serve (.allocate count) = .ok (answer, after)) :
    after.leakedFrees = before.leakedFrees := by
  cases serves_of_serve served with
  | allocate handsOut answered => exact handsOut.leakedFrees

theorem leakedFrees_of_damaged {source target : Nat}
    (damaged : before.copyEntry? source target = some after) :
    after.leakedFrees = before.leakedFrees := by
  obtain ⟨phase, leaked⟩ := before
  cases phase with
  | early memory => cases damaged
  | ready stack =>
      obtain ⟨rest, -, rfl⟩ := Option.map_eq_some_iff.mp damaged
      rfl

end FramePool

theorem PoolStep.leakedFrees_le {step : PoolStep}
    (ran : step.run reachable before = .ok (answer, after)) :
    after.leakedFrees ≤ before.leakedFrees + 1 := by
  cases step with
  | serve request => exact FramePool.leakedFrees_le_of_serve ran
  | giveBack frame =>
      have served : before.serve (.release frame) = .ok (answer, after) := ran
      exact FramePool.leakedFrees_le_of_serve served
  | bootstrap =>
      obtain ⟨reply, replied, answered⟩ := Checked.bind_eq_ok.mp ran
      cases answered
      cases result : reply.result with
      | ok done =>
          obtain ⟨memory, stack, -, -, built⟩ := FramePool.ready_of_bootstrap replied result
          rw [built]
          exact Nat.le_succ _
      | error refusal =>
          rw [FramePool.eq_of_bootstrap_refused replied result]
          exact Nat.le_succ _

theorem PoolCall.leakedFrees_le {call : PoolCall}
    (ran : call.run reachable before = .ok (answer, after)) :
    after.leakedFrees ≤ before.leakedFrees + 1 := by
  rw [← call.runSteps_eq_run] at ran
  unfold runSteps at ran
  split at ran
  next refusal entered =>
    cases ran
    exact Nat.le_succ _
  next step entered =>
    obtain ⟨⟨first, between⟩, stepped, finished⟩ := Checked.bind_eq_ok.mp ran
    dsimp only at finished
    split at finished
    next =>
      cases finished
      exact step.leakedFrees_le stepped
    next given frame pending =>
      obtain ⟨⟨returned, last⟩, back, answered⟩ := Checked.bind_eq_ok.mp finished
      cases answered
      -- Only a run is given back within its call, and taking it has counted nothing.
      have quiet : between.leakedFrees = before.leakedFrees := by
        cases call with
        | allocateKernel count =>
            cases entered
            exact FramePool.leakedFrees_of_allocate stepped
        | bootstrap => cases pending
        | serve request => cases pending
        | releaseKernel pointer => cases pending
      rw [← quiet]
      exact PoolStep.leakedFrees_le back

theorem PoolAct.leakedFrees_le {act : PoolAct}
    (ran : act.run reachable before = .ok (answer, after)) :
    after.leakedFrees ≤ before.leakedFrees + 1 := by
  cases act with
  | call call => exact PoolCall.leakedFrees_le ran
  | damage source target =>
      simp only [run] at ran
      split at ran
      next damaged changed =>
        cases ran
        exact Nat.le_succ_of_le (Nat.le_of_eq (FramePool.leakedFrees_of_damaged changed))
      next =>
        cases ran
        exact Nat.le_succ _

/-- It takes as many acts as there are words before a word cannot count the leaked frames. -/
theorem FramePool.leakedFrees_le_of_runAll {acts : List PoolAct} {answers : List Answer}
    (ran : before.runAll reachable acts = .ok (answers, after)) :
    after.leakedFrees ≤ before.leakedFrees + acts.length := by
  induction acts generalizing before answers with
  | nil =>
      cases ran
      exact Nat.le_refl _
  | cons act rest induction =>
      obtain ⟨⟨first, between⟩, acted, continued⟩ := Checked.bind_eq_ok.mp ran
      obtain ⟨⟨others, last⟩, followed, answered⟩ := Checked.bind_eq_ok.mp continued
      cases answered
      have step := act.leakedFrees_le acted
      have later := induction followed
      rw [List.length_cons]
      omega

end PagedMemory
