import PagedMemory.Proofs.Frames.History

/-!
# What a refused call leaves behind

A refused call leaves the pool exactly as it was, so whatever follows goes on as if the
call had not been made.  This asks nothing of the pool: it may be in either phase, and
its table may be damaged.

There is one exception.  A run for the kernel that cannot be reached is taken before
that is noticed.  Its frames are gone from boot memory, and one leaked frame is counted
when the first of them is given back.  This never happens to a pool with a table,
because a table stays within reach of the direct map.
-/

namespace PagedMemory

theorem Answer.error_of_refused {ε α : Type} {refusal : ε → Refusal} {value : α → Answer}
    (granting : ∀ granted reason, value granted ≠ .refused reason) {result : Except ε α}
    {reason : Refusal} (answered : .ofResult refusal value result = Answer.refused reason) :
    ∃ cause, result = .error cause ∧ refusal cause = reason := by
  cases result with
  | ok granted => exact absurd answered (granting granted reason)
  | error cause => exact ⟨cause, rfl, Answer.refused.inj answered⟩

variable {reachable : Frame → Bool} {before after : FramePool} {refusal : Refusal}

/-- The refusal says that a run cannot be reached. -/
def Refusal.Unreached (refusal : Refusal) : Prop :=
  ∃ address, refusal = .allocate (.notDirectMapped address)

/-! ## Steps -/

namespace FramePool

theorem HandsOut.of_error {count : Nat} {cause : AllocateError}
    (handsOut : HandsOut before count (.error cause) after) :
    after = before ∧ ∀ address, cause ≠ .notDirectMapped address := by
  cases handsOut with
  | refused reached => exact ⟨rfl, reached⟩

theorem TakesBack.of_error {frame : Frame} {cause : ReleaseError}
    (takesBack : TakesBack before frame (.error cause) after) : after = before := by
  cases takesBack with
  | refused direct => rfl

theorem serve_refused {request : FrameRequest}
    (served : before.serve request = .ok (.refused refusal, after)) :
    after = before ∧ ¬ refusal.Unreached := by
  cases serves_of_serve served with
  | allocate handsOut answered =>
      obtain ⟨cause, rfl, rfl⟩ := Answer.error_of_refused (by simp) answered
      obtain ⟨same, reached⟩ := handsOut.of_error
      refine ⟨same, ?_⟩
      rintro ⟨address, unreached⟩
      exact reached address (Refusal.allocate.inj unreached)
  | take handsOut answered =>
      obtain ⟨cause, rfl, rfl⟩ := Answer.error_of_refused (by simp) answered
      refine ⟨handsOut.of_error.1, ?_⟩
      rintro ⟨address, unreached⟩
      cases unreached
  | release takesBack answered =>
      obtain ⟨cause, rfl, rfl⟩ := Answer.error_of_refused (by simp) answered
      refine ⟨takesBack.of_error, ?_⟩
      rintro ⟨address, unreached⟩
      cases unreached

theorem handsOut_of_serve {count : Nat} {frame : Frame}
    (served : before.serve (.allocate count) = .ok (.frame frame, after)) :
    HandsOut before count (.ok frame) after := by
  cases serves_of_serve served with
  | @allocate _ result _ _ handsOut answered =>
      cases result with
      | error cause => cases answered
      | ok granted =>
          cases answered
          exact handsOut

end FramePool

theorem PoolStep.refused {step : PoolStep}
    (ran : step.run reachable before = .ok (.refused refusal, after)) :
    after = before ∧ ¬ refusal.Unreached := by
  cases step with
  | serve request => exact FramePool.serve_refused ran
  | giveBack frame =>
      have served : before.serve (.release frame) = .ok (.refused refusal, after) := ran
      exact FramePool.serve_refused served
  | bootstrap =>
      obtain ⟨reply, replied, answered⟩ := Checked.bind_eq_ok.mp ran
      obtain ⟨answer, rfl⟩ := Prod.mk.inj (Except.ok.inj answered)
      obtain ⟨cause, result, rfl⟩ := Answer.error_of_refused (by simp) answer
      refine ⟨FramePool.eq_of_bootstrap_refused replied result, ?_⟩
      rintro ⟨address, unreached⟩
      cases unreached

/-! ## Calls -/

namespace PoolCall

variable {call : PoolCall} {first given : Answer} {frame : Frame}

/-- A call that has nothing to give back and is refused was refused in its first step. -/
theorem refused_of_finish (finished : call.finish first = (.refused refusal, none)) :
    first = .refused refusal := by
  unfold finish at finished
  split at finished
  next count taken =>
    split at finished
    next => cases finished
    next => cases finished
  next =>
    cases finished
    rfl

/-- A call that does not come to its first step has not taken a run. -/
theorem reached_of_enter (entered : call.enter = .error refusal) : ¬ refusal.Unreached := by
  rintro ⟨address, rfl⟩
  cases call with
  | bootstrap => cases entered
  | serve request => cases entered
  | allocateKernel count => cases entered
  | releaseKernel pointer =>
      simp only [enter] at entered
      split at entered
      · cases entered
      · cases entered

theorem unreached_of_finish (finished : call.finish first = (given, some frame)) :
    ∃ count, call = .allocateKernel count ∧ first = .frame frame ∧
      frame.base.toKernel? = none ∧ given = .refused (.allocate (.notDirectMapped frame.base)) := by
  unfold finish at finished
  split at finished
  next count taken =>
    split at finished
    next => cases finished
    next unreachable =>
      cases finished
      exact ⟨count, rfl, rfl, unreachable, rfl⟩
  next => cases finished

/-- A run for the kernel is taken and turns out to be unreachable. -/
inductive Strays (before : FramePool) : PoolCall → Refusal → FramePool → Prop where
  | run {count : Nat} {frame : Frame} {between after : FramePool} {answer : Answer}
      (taken : before.serve (.allocate count) = .ok (.frame frame, between))
      (unreachable : frame.base.toKernel? = none)
      (returned : between.serve (.release frame) = .ok (answer, after)) :
      Strays before (.allocateKernel count) (.allocate (.notDirectMapped frame.base)) after

/-- A refused call changes nothing, unless it strays. -/
theorem refused (ran : call.run reachable before = .ok (.refused refusal, after)) :
    (after = before ∧ ¬ refusal.Unreached) ∨ Strays before call refusal after := by
  rw [← call.runSteps_eq_run] at ran
  unfold runSteps at ran
  split at ran
  next cause entered =>
    cases ran
    exact Or.inl ⟨rfl, reached_of_enter entered⟩
  next step entered =>
    obtain ⟨⟨first, between⟩, stepped, continued⟩ := Checked.bind_eq_ok.mp ran
    dsimp only at continued
    split at continued
    next given finished =>
      cases continued
      rw [refused_of_finish finished] at stepped
      exact Or.inl (step.refused stepped)
    next given frame finished =>
      obtain ⟨⟨answer, last⟩, returned, answered⟩ := Checked.bind_eq_ok.mp continued
      obtain ⟨same, rfl⟩ := Prod.mk.inj (Except.ok.inj answered)
      obtain ⟨count, rfl, rfl, unreachable, rfl⟩ := unreached_of_finish finished
      obtain rfl := Answer.refused.inj same
      cases entered
      exact Or.inr (.run stepped unreachable returned)

end PoolCall

namespace FramePool

variable {memory : BootMemory} {acts : List PoolAct} {answers : List Answer} {pool : FramePool}
  {call : PoolCall}

/--
A refused call leaves the pool as it was, whatever became of the pool before: whatever
follows goes on as if the call had not been made.  Only a run for the kernel that
cannot be reached is different.  It is taken from boot memory, where it is missing from
then on, and one leaked frame is counted.
-/
theorem refused_call_changes_nothing {refusal : Refusal}
    (history : (new memory).runAll reachable acts = .ok (answers, pool))
    (ran : call.run reachable pool = .ok (.refused refusal, after)) :
    (¬ refusal.Unreached → after = pool ∧ ∀ later, pool.runAll reachable (.call call :: later) =
        (pool.runAll reachable later).map fun (rest, last) => (.refused refusal :: rest, last)) ∧
      (refusal.Unreached → ∃ count range frame rest, call = .allocateKernel count ∧
        refusal = .allocate (.notDirectMapped frame.base) ∧
        directMapLimit ≤ frame.base.toNat ∧
        pool = ⟨.early (.bump range), pool.leakedFrees⟩ ∧
        range.steal count = (some frame, rest) ∧
        after = ⟨.early (.bump rest), pool.leakedFrees + 1⟩ ∧
        (frame.run count).length = count ∧
        pool.available = frame.run count ++ after.available) := by
  rcases call.refused ran with ⟨rfl, reached⟩ | strays
  · refine ⟨?_, fun unreached => absurd unreached reached⟩
    intro _
    refine ⟨rfl, ?_⟩
    intro later
    have acted : (PoolAct.call call).run reachable after = .ok (.refused refusal, after) := ran
    simp only [runAll, acted]
    rfl
  · cases strays with
    | @run count frame between after answer taken unreachable returned =>
        refine ⟨fun reached => absurd ⟨frame.base, rfl⟩ reached, fun _ => ?_⟩
        have beyond := Address.toKernel?_eq_none_iff.mp unreachable
        have handsOut := handsOut_of_serve taken
        have early : pool.isBootstrapped ≠ true := fun bootstrapped =>
          Nat.not_lt_of_le beyond
            ((withinReach_of_runAll history).reaches bootstrapped handsOut)
        cases handsOut with
        | @stolen range rest leaked frame initial stolen =>
            subst initial
            cases returned
            have steals := BumpRange.steals_of_steal stolen
            exact ⟨count, range, frame, rest, rfl, rfl, beyond, rfl, stolen, rfl,
              Block.length_run steals.fits, steals.remaining⟩
        | @popped stack rest leaked frame ready single popped =>
            subst ready
            exact absurd rfl early

/--
The entry on top of the stack says that its frame is allocated, and so the frame is
refused.  In memory that starts where the direct map ends, a run of two frames for the
kernel is lost.
-/
theorem refused_call_changes_nothing_in_damaged_table :
    let reachable : Frame → Bool := fun _ => true
    let damaged : FramePool :=
      ⟨.ready ⟨⟨1, by decide⟩, #[.allocated, .allocated, .free none], 1, some 1, 2⟩, 0⟩
    let far : FramePool := new (.bump ⟨⟨0x20000000⟩, ⟨0x20003000⟩⟩)
    let short : FramePool := ⟨.early (.bump ⟨⟨0x20002000⟩, ⟨0x20003000⟩⟩), 1⟩
    ((new (.bump ⟨⟨0x1000⟩, ⟨0x4000⟩⟩)).runAll reachable [.call .bootstrap, .damage 0 1] =
        .ok ([.done, .done], damaged) ∧
      ∀ later, damaged.runAll reachable (.call (.serve .take) :: later) =
        (damaged.runAll reachable later).map fun (rest, last) =>
          (.refused (.take (.corrupt ⟨0x2000⟩)) :: rest, last)) ∧
    (PoolCall.allocateKernel 2).run reachable far =
        .ok (.refused (.allocate (.notDirectMapped ⟨0x20000000⟩)), short) ∧
      ∃ frame : Frame, Block.base frame = ⟨0x20000000⟩ ∧
        far.available = frame.run 2 ++ short.available := by
  intro reachable damaged far short
  constructor
  · have history : (new (.bump ⟨⟨0x1000⟩, ⟨0x4000⟩⟩)).runAll reachable
        [.call .bootstrap, .damage 0 1] = .ok ([.done, .done], damaged) := by decide +kernel
    have ran : (PoolCall.serve .take).run reachable damaged =
        .ok (.refused (.take (.corrupt ⟨0x2000⟩)), damaged) := by decide +kernel
    have reached : ¬ (Refusal.take (.corrupt ⟨0x2000⟩)).Unreached := by
      rintro ⟨address, same⟩
      cases same
    exact ⟨history, ((refused_call_changes_nothing history ran).1 reached).2⟩
  · have ran : (PoolCall.allocateKernel 2).run reachable far =
        .ok (.refused (.allocate (.notDirectMapped ⟨0x20000000⟩)), short) := by decide +kernel
    have start : far.runAll reachable [] = .ok ([], far) := rfl
    obtain ⟨count, range, frame, rest, called, unreached, -, -, -, -, -, lost⟩ :=
      (refused_call_changes_nothing start ran).2 ⟨_, rfl⟩
    cases called
    have base := AllocateError.notDirectMapped.inj (Refusal.allocate.inj unreached)
    exact ⟨ran, frame, base.symm, lost⟩

end FramePool

end PagedMemory
