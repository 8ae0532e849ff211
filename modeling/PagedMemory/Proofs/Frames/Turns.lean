import PagedMemory.Proofs.Frames.Stock

/-!
# Clients that take turns

Any number of clients call one pool.  A lock is held while a call changes the
pool, so what they do is a sequence of *turns*, each of which is one client
holding the lock once.  Nothing is assumed about who calls what: clients may
give back frames that they do not hold, again and again, and bootstrap at any
time.

Almost every call takes one turn.  Allocating a run for the kernel takes another
one if the run cannot be reached: its first frame is given back, and other
clients may have their turns in between.  A call that nothing interrupts is the
operation of the pool.

A turn takes frames from the front of the available ones, or makes a managed
frame available that was not, or enters the ready phase, or leaves the available
frames alone.
-/

namespace PagedMemory

/-! ## Calls and turns -/

/-- What a client does to the pool while it holds the lock. -/
inductive PoolStep where
  | bootstrap
  | serve (request : FrameRequest)
  /-- Give back the first frame of a run that turned out to be unreachable. -/
  | giveBack (frame : Frame)
  deriving DecidableEq

def PoolStep.run (reachable : Frame → Bool) (pool : FramePool) :
    PoolStep → Checked (Answer × FramePool)
  | .bootstrap => do
      let reply ← pool.bootstrap reachable
      return (.ofResult .bootstrap (fun _ => .done) reply.result, reply.pool)
  | .serve request => pool.serve request
  | .giveBack frame => pool.serve (.release frame)

/-- What a client may call. -/
inductive PoolCall where
  | bootstrap
  | serve (request : FrameRequest)
  | allocateKernel (count : Nat)
  | releaseKernel (pointer : VirtAddr)
  deriving DecidableEq

namespace PoolCall

/-- The call as an operation of the pool that nothing interrupts. -/
def run (reachable : Frame → Bool) (pool : FramePool) :
    PoolCall → Checked (Answer × FramePool)
  | .bootstrap => PoolStep.run reachable pool .bootstrap
  | .serve request => pool.serve request
  | .allocateKernel count => do
      let reply ← pool.allocateKernel count
      return (.ofResult .allocate .address reply.result, reply.pool)
  | .releaseKernel pointer => do
      let reply ← pool.releaseKernel pointer
      return (.ofResult .release (fun _ => .done) reply.result, reply.pool)

/-- The step with which a call begins, or why it does not come to that. -/
def enter : PoolCall → Except Refusal PoolStep
  | .bootstrap => .ok .bootstrap
  | .serve request => .ok (.serve request)
  | .allocateKernel count => .ok (.serve (.allocate count))
  | .releaseKernel pointer =>
      match pointer.toPhysical? with
      | some physical => .ok (.serve (.release physical.block))
      | none => .error (.release (.notDirectMapped pointer))

/-- The answer of a call after its first step, and the frame to be given back before. -/
def finish : PoolCall → Answer → Answer × Option Frame
  | .allocateKernel _, .frame frame =>
      match frame.base.toKernel? with
      | some address => (.address address, none)
      | none => (.refused (.allocate (.notDirectMapped frame.base)), some frame)
  | _, answer => (answer, none)

/-- The steps of a call, one right after the other. -/
def runSteps (reachable : Frame → Bool) (pool : FramePool) (call : PoolCall) :
    Checked (Answer × FramePool) :=
  match call.enter with
  | .error refusal => return (.refused refusal, pool)
  | .ok step => do
      let (answer, pool) ← step.run reachable pool
      match call.finish answer with
      | (answer, none) => return (answer, pool)
      | (answer, some frame) => do
          let (_, pool) ← PoolStep.run reachable pool (.giveBack frame)
          return (answer, pool)

theorem unreachable_of_finish {call : PoolCall} {answer : Answer} {frame : Frame}
    (pending : (call.finish answer).2 = some frame) : frame.base.toKernel? = none := by
  unfold finish at pending
  split at pending
  · rename_i found
    split at pending
    · cases pending
    · rename_i unreachable
      cases pending
      exact unreachable
  · cases pending

/-- A call that is not interrupted is the operation of the pool. -/
theorem runSteps_eq_run (reachable : Frame → Bool) (pool : FramePool) (call : PoolCall) :
    call.runSteps reachable pool = call.run reachable pool := by
  cases call with
  | bootstrap =>
      show (PoolStep.run reachable pool .bootstrap >>= fun outcome => pure outcome) = _
      exact bind_pure _
  | serve request =>
      show (pool.serve request >>= fun outcome => pure outcome) = _
      exact bind_pure _
  | allocateKernel count =>
      simp only [runSteps, run, enter, PoolStep.run, FramePool.serve, FramePool.allocateKernel]
      cases allocated : pool.allocate count with
      | error panic => rfl
      | ok taken =>
          rcases taken with ⟨result, between, events⟩
          cases result with
          | error refusal => rfl
          | ok frame =>
              simp only [bind, Except.bind, pure, Except.pure, Answer.ofResult, finish]
              cases reached : frame.base.toKernel? with
              | some address => rfl
              | none =>
                  dsimp only
                  cases released : between.release frame with
                  | error panic => rfl
                  | ok returned => rfl
  | releaseKernel pointer =>
      cases physical : pointer.toPhysical? with
      | none =>
          simp only [runSteps, run, enter, FramePool.releaseKernel, physical]
          rfl
      | some address =>
          simp only [runSteps, run, enter, FramePool.releaseKernel, physical]
          exact bind_pure _

end PoolCall

/-- A client holding the lock once. -/
structure PoolTurn where
  client : Nat
  step : PoolStep
  answer : Answer
  before : FramePool
  after : FramePool
  deriving DecidableEq

namespace PoolTurn

/-- The frames that the turn hands out. -/
def handedOut (turn : PoolTurn) : List Frame :=
  match turn.step, turn.answer with
  | .serve (.allocate count), .frame frame => frame.run count
  | .serve .take, .frame frame => [frame]
  | _, _ => []

/-- The frame that a client gives back, if that is not refused. -/
def freed? (turn : PoolTurn) : Option Frame :=
  match turn.step, turn.answer with
  | .serve (.release frame), .done => some frame
  | _, _ => none

/-- The frame that goes back to the pool, on behalf of a client or not. -/
def returned? (turn : PoolTurn) : Option Frame :=
  match turn.step, turn.answer with
  | .serve (.release frame), .done => some frame
  | .giveBack frame, .done => some frame
  | _, _ => none

/-- The frame that becomes available again: it goes back without being counted as leaked. -/
def recovered? (turn : PoolTurn) : Option Frame :=
  turn.returned?.filter fun _ => turn.after.leakedFrees = turn.before.leakedFrees

/-- The turn is what the pool does in that step. -/
structure Ran (reachable : Frame → Bool) (turn : PoolTurn) : Prop where
  ran : turn.step.run reachable turn.before = .ok (turn.answer, turn.after)
  unreachable : ∀ frame, turn.step = .giveBack frame → frame.base.toKernel? = none

end PoolTurn

/-- A pool, and the frames that clients in the middle of a call have to give back. -/
structure SharedPool where
  pool : FramePool
  pending : Nat → Option Frame

/--
The turns of clients that share a pool, the latest one first.  A client that has
a frame to give back does that before it calls again.
-/
inductive SharedPool.Runs (reachable : Frame → Bool) (pool : FramePool) :
    List PoolTurn → SharedPool → Prop where
  | start : Runs reachable pool [] ⟨pool, fun _ => none⟩
  | call {turns : List PoolTurn} {state : SharedPool} {client : Nat} {call : PoolCall}
      {step : PoolStep} {answer : Answer} {after : FramePool}
      (runs : Runs reachable pool turns state) (idle : state.pending client = none)
      (entered : call.enter = .ok step)
      (ran : step.run reachable state.pool = .ok (answer, after)) :
      Runs reachable pool (⟨client, step, answer, state.pool, after⟩ :: turns)
        ⟨after, Function.update state.pending client (call.finish answer).2⟩
  | giveBack {turns : List PoolTurn} {state : SharedPool} {client : Nat} {frame : Frame}
      {answer : Answer} {after : FramePool} (runs : Runs reachable pool turns state)
      (busy : state.pending client = some frame)
      (ran : PoolStep.run reachable state.pool (.giveBack frame) = .ok (answer, after)) :
      Runs reachable pool (⟨client, .giveBack frame, answer, state.pool, after⟩ :: turns)
        ⟨after, Function.update state.pending client none⟩

namespace SharedPool

variable {reachable : Frame → Bool} {pool : FramePool} {turns : List PoolTurn}
  {state : SharedPool}

/-- Only unreachable frames are given back in the middle of a call. -/
theorem Runs.unreachable (runs : Runs reachable pool turns state) {client : Nat} {frame : Frame}
    (busy : state.pending client = some frame) : frame.base.toKernel? = none := by
  induction runs generalizing client frame with
  | start => cases busy
  | @call turns state caller call step answer after runs idle entered ran unreachable =>
      by_cases same : client = caller
      · subst same
        simp only [Function.update_self] at busy
        exact PoolCall.unreachable_of_finish busy
      · simp only [Function.update_of_ne same] at busy
        exact unreachable busy
  | @giveBack turns state caller returned answer after runs returning ran unreachable =>
      by_cases same : client = caller
      · subst same
        simp only [Function.update_self] at busy
        cases busy
      · simp only [Function.update_of_ne same] at busy
        exact unreachable busy

/-- The latest turn of a run. -/
theorem Runs.latest {turn : PoolTurn} (runs : Runs reachable pool (turn :: turns) state) :
    turn.Ran reachable ∧ state.pool = turn.after ∧
      ∃ between, Runs reachable pool turns between ∧ between.pool = turn.before := by
  cases runs with
  | @call _ between client call step answer after runs idle entered ran =>
      refine ⟨⟨ran, ?_⟩, rfl, between, runs, rfl⟩
      rintro frame rfl
      cases call with
      | bootstrap => cases entered
      | serve request => cases entered
      | allocateKernel count => cases entered
      | releaseKernel pointer =>
          simp only [PoolCall.enter] at entered
          split at entered
          · cases entered
          · cases entered
  | @giveBack _ between client frame answer after runs busy ran =>
      refine ⟨⟨ran, ?_⟩, rfl, between, runs, rfl⟩
      rintro returned same
      cases same
      exact runs.unreachable busy

end SharedPool

/-! ## What a turn does -/

namespace PoolTurn

variable {turn : PoolTurn} {frame : Frame} {before : FramePool} {reachable : Frame → Bool}

/-- What a turn does to a pool that is in order. -/
inductive Outcome (turn : PoolTurn) : Prop where
  | granted (grants : FramePool.Grants turn.before turn.handedOut turn.after)
      (steady : turn.recovered? = none)
  | recovered {frame : Frame} (nothing : turn.handedOut = [])
      (returned : turn.recovered? = some frame) (freed : turn.freed? = some frame)
      (managed : turn.before.territory.Manages frame)
      (missing : frame ∉ turn.before.available)
      (recovers : FramePool.Recovers turn.before frame turn.after)
  | kept (nothing : turn.handedOut = []) (steady : turn.recovered? = none)
      (sound : turn.after.Sound) (territory : turn.after.territory = turn.before.territory)
      (available : turn.after.available = turn.before.available)
  | bootstrapped {range : BumpRange} {leaked : Nat} {stack : FreeStack}
      (step : turn.step = .bootstrap) (answer : turn.answer = .done)
      (early : turn.before = ⟨.early (.bump range), leaked⟩)
      (built : FramePool.Bootstrapped (.bump range) stack)
      (ready : turn.after = ⟨.ready stack, leaked⟩)

theorem serves_allocate (sound : before.Sound) (client count : Nat) :
    ∃ answer after, before.serve (.allocate count) = .ok (answer, after) ∧
      Outcome ⟨client, .serve (.allocate count), answer, before, after⟩ := by
  rcases sound.allocate count with ⟨refusal, refused⟩ | ⟨frame, after, replied, grants⟩
  · refine ⟨.refused (.allocate refusal), before, ?_, .kept rfl rfl sound rfl rfl⟩
    simp only [FramePool.serve, refused, bind, Except.bind]
    rfl
  · refine ⟨.frame frame, after, ?_, .granted grants rfl⟩
    simp only [FramePool.serve, replied, bind, Except.bind]
    rfl

theorem serves_take (sound : before.Sound) (client : Nat) :
    ∃ answer after, before.serve .take = .ok (answer, after) ∧
      Outcome ⟨client, .serve .take, answer, before, after⟩ := by
  cases listed : before.available with
  | nil =>
      refine ⟨.refused (.take .exhausted), before, ?_, .kept rfl rfl sound rfl rfl⟩
      simp only [FramePool.serve, sound.take_nil listed, bind, Except.bind]
      rfl
  | cons frame rest =>
      rcases sound.take_cons listed with ⟨after, replied, grants⟩
      refine ⟨.frame frame, after, ?_, .granted grants rfl⟩
      simp only [FramePool.serve, replied, bind, Except.bind]
      rfl

/-- A frame that goes back and is counted as leaked does not become available. -/
theorem recovered?_of_leaked {turn : PoolTurn}
    (leaked : turn.after.leakedFrees = turn.before.leakedFrees + 1) :
    turn.recovered? = none := by
  unfold recovered?
  rw [leaked]
  cases turn.returned? with
  | none => rfl
  | some frame => simp

/--
Giving back a frame by mistake changes nothing.  The first frame of a run that
cannot be reached is not a managed one, so it never becomes available.
-/
theorem serves_release (sound : before.Sound) (client : Nat) (frame : Frame) :
    ∃ answer after, before.serve (.release frame) = .ok (answer, after) ∧
      Outcome ⟨client, .serve (.release frame), answer, before, after⟩ ∧
      (frame.base.toKernel? = none →
        Outcome ⟨client, .giveBack frame, answer, before, after⟩) := by
  rcases sound.releases frame with ⟨result, after, events, released, releases⟩
  cases releases with
  | refused refusal mistaken =>
      refine ⟨.refused (.release refusal), before, ?_, .kept rfl rfl sound rfl rfl, ?_⟩
      · simp only [FramePool.serve, released, bind, Except.bind]
        rfl
      · intro _
        exact .kept rfl rfl sound rfl rfl
  | returned recovers outstanding =>
      refine ⟨.done, after, ?_, ?_⟩
      · simp only [FramePool.serve, released, bind, Except.bind]
        rfl
      · by_cases managed : before.territory.Manages frame
        · rcases recovers.managed managed with ⟨available, leaked⟩
          constructor
          · refine .recovered rfl ?_ rfl managed (outstanding managed) recovers
            simp [recovered?, returned?, leaked]
          · intro unreachable
            exact absurd unreachable (sound.toKernel?_of_manages managed)
        · rcases recovers.reserved managed with ⟨available, leaked⟩
          constructor
          · exact .kept rfl (recovered?_of_leaked leaked) recovers.sound recovers.territory
              available
          · intro _
            exact .kept rfl (recovered?_of_leaked leaked) recovers.sound recovers.territory
              available

theorem serves (sound : before.Sound) (client : Nat) (request : FrameRequest) :
    ∃ answer after, before.serve request = .ok (answer, after) ∧
      Outcome ⟨client, .serve request, answer, before, after⟩ := by
  cases request with
  | allocate count => exact serves_allocate sound client count
  | take => exact serves_take sound client
  | release frame =>
      rcases serves_release sound client frame with ⟨answer, after, served, outcome, -⟩
      exact ⟨answer, after, served, outcome⟩

theorem outcome_of_bootstrap (sound : before.Sound) {answer : Answer} {after : FramePool}
    (ran : PoolStep.run reachable before .bootstrap = .ok (answer, after)) (client : Nat) :
    Outcome ⟨client, .bootstrap, answer, before, after⟩ := by
  cases sound with
  | ready represents mapped =>
      cases ran
      exact .kept rfl rfl (.ready represents mapped) rfl rfl
  | @early range leaked aligned =>
      rcases FramePool.bootstrap_early (.bump range) leaked reachable with
        ⟨refusal, events, refused⟩ | ⟨stack, events, built, replied⟩
      · simp only [PoolStep.run, refused, bind, Except.bind] at ran
        cases ran
        exact .kept rfl rfl (.early aligned) rfl rfl
      · simp only [PoolStep.run, replied] at ran
        rcases Checked.bind_eq_ok.mp ran with ⟨reply, finished, answered⟩
        rcases Checked.bind_eq_ok.mp finished with ⟨-, -, made⟩
        cases made
        cases answered
        exact .bootstrapped rfl rfl rfl built rfl

/-- A bootstrap is answered if the memory that is left can be reached. -/
theorem answers_bootstrap (sound : before.Sound)
    (present : ∀ frame ∈ before.available, reachable frame = true) :
    ∃ answer after, PoolStep.run reachable before .bootstrap = .ok (answer, after) := by
  cases sound with
  | ready represents mapped => exact ⟨_, _, rfl⟩
  | @early range leaked aligned =>
      rcases FramePool.bootstrap_early (.bump range) leaked reachable with
        ⟨refusal, events, refused⟩ | ⟨stack, events, built, replied⟩
      · simp only [PoolStep.run, refused, bind, Except.bind]
        exact ⟨_, _, rfl⟩
      · have reached : reachable stack.first = true :=
          present stack.first (built.first_mem_remaining aligned)
        simp only [PoolStep.run, replied, Checked.require_of reached, bind, Except.bind]
        exact ⟨_, _, rfl⟩

theorem Ran.outcome {turn : PoolTurn} (ran : turn.Ran reachable) (sound : turn.before.Sound) :
    turn.Outcome := by
  rcases turn with ⟨client, step, answer, before, after⟩
  rcases ran with ⟨ran, unreachable⟩
  cases step with
  | bootstrap => exact outcome_of_bootstrap sound ran client
  | serve request =>
      rcases serves sound client request with ⟨answer', after', served, outcome⟩
      cases served.symm.trans ran
      exact outcome
  | giveBack frame =>
      rcases serves_release sound client frame with ⟨answer', after', served, -, outcome⟩
      cases served.symm.trans ran
      exact outcome (unreachable frame rfl)

/-- A run that is handed out has as many frames as the client asked for. -/
theorem Ran.whole {turn : PoolTurn} (ran : turn.Ran reachable) (count : Nat) (first : Frame)
    (step : turn.step = .serve (.allocate count)) (answer : turn.answer = .frame first) :
    turn.handedOut.map Block.number = List.range' first.number count := by
  rcases turn with ⟨client, _, _, before, after⟩
  cases step
  cases answer
  rcases Checked.bind_eq_ok.mp ran.ran with ⟨reply, allocated, answered⟩
  cases granted : reply.result with
  | error refusal =>
      rw [granted] at answered
      cases answered
  | ok frame =>
      rw [granted] at answered
      cases answered
      exact Block.map_number_run (FramePool.fits_of_allocate allocated granted)

/-- A pool in order answers in every step. -/
theorem answers (sound : before.Sound)
    (present : ∀ frame ∈ before.available, reachable frame = true) (step : PoolStep) :
    ∃ answer after, step.run reachable before = .ok (answer, after) := by
  cases step with
  | bootstrap => exact answers_bootstrap sound present
  | serve request =>
      rcases serves sound 0 request with ⟨answer, after, served, -⟩
      exact ⟨answer, after, served⟩
  | giveBack frame =>
      rcases serves sound 0 (.release frame) with ⟨answer, after, served, -⟩
      exact ⟨answer, after, served⟩

/-- A turn that hands out a frame takes it from the available ones. -/
theorem Outcome.grants_of_mem (outcome : turn.Outcome) (taken : frame ∈ turn.handedOut) :
    FramePool.Grants turn.before turn.handedOut turn.after := by
  cases outcome with
  | granted grants steady => exact grants
  | recovered nothing back freed managed missing recovers =>
      rw [nothing] at taken
      cases taken
  | kept nothing steady sound territory available =>
      rw [nothing] at taken
      cases taken
  | @bootstrapped _ _ _ step answer early built ready =>
      rw [handedOut, step] at taken
      cases taken

/-- Only what clients give back becomes available again. -/
theorem Outcome.freed?_of_recovered (outcome : turn.Outcome)
    (back : turn.recovered? = some frame) : turn.freed? = some frame := by
  cases outcome with
  | granted grants steady =>
      rw [steady] at back
      cases back
  | recovered nothing returned freed managed missing recovers =>
      rw [returned] at back
      rw [freed, back]
  | kept nothing steady sound territory available =>
      rw [steady] at back
      cases back
  | @bootstrapped _ _ _ step answer early built ready =>
      rw [recovered?, returned?, step] at back
      cases back

end PoolTurn

end PagedMemory
