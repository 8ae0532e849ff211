import PagedMemory.Proofs.Frames.Stock

/-!
# What operations do to any pool

Nothing is assumed of the pool here: its table may be damaged, and its boot memory
need not have frame boundaries for bounds.  For every operation there is one relation
that lists all that it can do, with the reason for each case, and one lemma that an
operation which does not panic does one of these things.  The two that move a frame onto
the stack and off it also have a relation that lists why they panic.

Taking the top frame and putting it back at once leaves the stack as it was, entry
for entry.
-/

namespace PagedMemory

namespace FreeStack

variable {stack after : FreeStack} {frame : Frame}

/-! ## Taking the top frame -/

/-- What becomes of a stack from which a frame is taken. -/
inductive Pops (stack : FreeStack) : Except TakeError Frame → FreeStack → Prop where
  | exhausted (empty : stack.head = none) : Pops stack (.error .exhausted) stack
  | corrupt {index : Nat} {frame : Frame} (top : stack.head = some index)
      (number : frame.number = stack.first.number + index)
      (tag : stack.entries[index]? = some .allocated) :
      Pops stack (.error (.corrupt frame.base)) stack
  | taken {index : Nat} {frame : Frame} {next : Option Nat} (top : stack.head = some index)
      (number : frame.number = stack.first.number + index)
      (inside : index < stack.entries.size) (tag : stack.entries[index] = .free next)
      (counted : stack.freeCount ≠ 0) :
      Pops stack (.ok frame) { stack with
        entries := stack.entries.set index .allocated
        head := next
        freeCount := stack.freeCount - 1 }

theorem pops_of_pop {result : Except TakeError Frame}
    (popped : stack.pop = .ok (result, after)) : Pops stack result after := by
  unfold pop at popped
  split at popped
  next empty =>
    cases popped
    exact .exhausted empty
  next index top =>
    split at popped
    next inside =>
      split at popped
      next tag =>
        obtain ⟨frame, located, answered⟩ := Checked.bind_eq_ok.mp popped
        cases answered
        apply Pops.corrupt top (Block.ofNumber_eq_ok_iff.mp located)
        rw [Array.getElem?_eq_getElem inside, tag]
      next next tag =>
        obtain ⟨⟨⟩, promised, rest⟩ := Checked.bind_eq_ok.mp popped
        obtain ⟨frame, located, answered⟩ := Checked.bind_eq_ok.mp rest
        cases answered
        exact .taken top (Block.ofNumber_eq_ok_iff.mp located) inside tag
          (Checked.require_eq_ok.mp promised)
    next => cases popped

theorem Pops.bounds {result : Except TakeError Frame} (pops : Pops stack result after) :
    after.bounds = stack.bounds := by
  cases pops with
  | exhausted empty => rfl
  | corrupt top number tag => rfl
  | taken top number inside tag counted =>
      simp only [FreeStack.bounds, total, Array.size_set]

/-- A frame that is taken has an entry in the table. -/
theorem Pops.number_lt (pops : Pops stack (.ok frame) after) :
    frame.number < stack.first.number + stack.total := by
  cases pops with
  | taken top number inside tag counted =>
      rw [number]
      exact Nat.add_lt_add_left inside _

/-- A refusal leaves the stack alone. -/
theorem Pops.eq_of_error {refusal : TakeError} (pops : Pops stack (.error refusal) after) :
    after = stack := by
  cases pops with
  | exhausted empty => rfl
  | corrupt top number tag => rfl

/-! ## Putting a frame on top -/

/-- What becomes of a stack on which a frame is put. -/
inductive Pushes (stack : FreeStack) (frame : Frame) :
    Except ReleaseError Unit → FreeStack → Prop where
  | outOfRange (absent : stack.indexOf? frame = none) :
      Pushes stack frame (.error (.outOfRange frame.base)) stack
  | doubleFree {index : Nat} {next : Option Nat} (found : stack.indexOf? frame = some index)
      (tag : stack.entries[index]? = some (.free next)) :
      Pushes stack frame (.error (.doubleFree frame.base)) stack
  | put {index : Nat} (found : stack.indexOf? frame = some index)
      (unreserved : stack.reserved ≤ index) (inside : index < stack.entries.size)
      (tag : stack.entries[index] = .allocated)
      (countable : stack.freeCount + 1 < UInt64.size) :
      Pushes stack frame (.ok ()) { stack with
        entries := stack.entries.set index (.free stack.head)
        head := some index
        freeCount := stack.freeCount + 1 }

theorem pushes_of_push {result : Except ReleaseError Unit}
    (pushed : stack.push frame = .ok (result, after)) : Pushes stack frame result after := by
  unfold push at pushed
  split at pushed
  next absent =>
    cases pushed
    exact .outOfRange absent
  next index found =>
    obtain ⟨⟨⟩, promised, rest⟩ := Checked.bind_eq_ok.mp pushed
    split at rest
    next inside =>
      split at rest
      next next tag =>
        cases rest
        apply Pushes.doubleFree found
        rw [Array.getElem?_eq_getElem inside, tag]
      next tag =>
        obtain ⟨⟨⟩, counted, answered⟩ := Checked.bind_eq_ok.mp rest
        cases answered
        exact .put found (Checked.require_eq_ok.mp promised) inside tag
          (Checked.require_eq_ok.mp counted)
    next => cases rest

theorem Pushes.bounds {result : Except ReleaseError Unit}
    (pushes : Pushes stack frame result after) : after.bounds = stack.bounds := by
  cases pushes with
  | outOfRange absent => rfl
  | doubleFree found tag => rfl
  | put found unreserved inside tag countable =>
      simp only [FreeStack.bounds, total, Array.size_set]

theorem Pushes.eq_of_error {refusal : ReleaseError}
    (pushes : Pushes stack frame (.error refusal) after) : after = stack := by
  cases pushes with
  | outOfRange absent => rfl
  | doubleFree found tag => rfl

/-- A stack never takes a frame for a kernel address. -/
theorem Pushes.direct {refusal : ReleaseError} (pushes : Pushes stack frame (.error refusal) after)
    (pointer : VirtAddr) : refusal ≠ .notDirectMapped pointer := by
  cases pushes with
  | outOfRange absent => simp
  | doubleFree found tag => simp

/-- The frame that was just taken goes back to where it was. -/
theorem push_of_pop (popped : stack.pop = .ok (.ok frame, after))
    (past : stack.first.number + stack.reserved ≤ frame.number)
    (countable : stack.freeCount < UInt64.size) :
    after.push frame = .ok (.ok (), stack) := by
  cases pops_of_pop popped with
  | @taken index _ next top number inside tag counted =>
      obtain ⟨first, entries, reserved, head, freeCount⟩ := stack
      obtain rfl : head = some index := top
      have unreserved : reserved ≤ index := by
        simp only at past number
        omega
      have within : index < (entries.set index .allocated).size := by
        rw [Array.size_set]
        exact inside
      have found : indexOf? ⟨first, entries.set index .allocated, reserved, next, freeCount - 1⟩
          frame = some index :=
        indexOf?_eq_some_iff.mpr ⟨number, within⟩
      have restored : (entries.set index .allocated).set index (.free next) within = entries := by
        rw [Array.set_set, ← tag, Array.set_getElem_self]
      have count : freeCount - 1 + 1 = freeCount := Nat.sub_one_add_one counted
      simp only [push, found, Checked.require_of unreserved, bind, Except.bind, within, dite_true,
        Array.getElem_set_self, restored, count, Checked.require_of countable]
      rfl

/-! ## Panics -/

variable {panic : Panic}

/-- The frame on top is free, but the counter says that no frame is. -/
def Overdrawn (stack : FreeStack) : Prop :=
  stack.freeCount = 0 ∧
    ∃ index next, stack.head = some index ∧
      stack.entries[index]? = some (.free next)

/-- The frame is allocated, but the counter has no word for one more free frame. -/
def Overfull (stack : FreeStack) (frame : Frame) : Prop :=
  UInt64.size ≤ stack.freeCount + 1 ∧
    ∃ index, stack.indexOf? frame = some index ∧
      stack.entries[index]? = some .allocated

/-- Why taking a frame panics. -/
inductive PopPanics (stack : FreeStack) : Panic → Prop
  | outside {index : Nat} (top : stack.head = some index)
      (outside : stack.total ≤ index) : PopPanics stack .indexOutOfBounds
  | overdrawn (overdrawn : stack.Overdrawn) : PopPanics stack .counterUnderflow
  | unnamed {index : Nat} (top : stack.head = some index)
      (inside : index < stack.total)
      (beyond : blockLimit ≤ stack.first.number + index) :
      PopPanics stack .frameNumberTooLarge

/-- Why putting a frame on top panics. -/
inductive PushPanics (stack : FreeStack) (frame : Frame) : Panic → Prop
  | reserved {index : Nat} (found : stack.indexOf? frame = some index)
      (reserved : index < stack.reserved) : PushPanics stack frame .reservedFramePushed
  | overfull (overfull : stack.Overfull frame) : PushPanics stack frame .counterOverflow

/-- An entry without a frame lies beyond physical memory. -/
theorem frameAt_eq_error {index : Nat}
    (failed : stack.frameAt index = .error panic) :
    panic = .frameNumberTooLarge ∧ blockLimit ≤ stack.first.number + index := by
  unfold frameAt Block.ofNumber at failed
  split at failed
  next => cases failed
  next beyond =>
    cases failed
    exact ⟨rfl, Nat.le_of_not_lt beyond⟩

theorem popPanics_of_pop (panicked : stack.pop = .error panic) :
    stack.PopPanics panic := by
  unfold pop at panicked
  split at panicked
  next => cases panicked
  next index top =>
    split at panicked
    next inside =>
      split at panicked
      next tag =>
        rcases Checked.bind_eq_error.mp panicked with failed | ⟨_, _, ⟨⟩⟩
        obtain ⟨rfl, beyond⟩ := frameAt_eq_error failed
        exact .unnamed top inside beyond
      next next tag =>
        rcases Checked.bind_eq_error.mp panicked with broken | ⟨_, _, rest⟩
        · obtain ⟨spent, rfl⟩ := Checked.require_eq_error.mp broken
          refine .overdrawn ⟨of_not_not spent, index, next, top, ?_⟩
          rw [Array.getElem?_eq_getElem inside, tag]
        · rcases Checked.bind_eq_error.mp rest with failed | ⟨_, _, ⟨⟩⟩
          obtain ⟨rfl, beyond⟩ := frameAt_eq_error failed
          exact .unnamed top inside beyond
    next outside =>
      cases panicked
      exact .outside top (Nat.le_of_not_lt outside)

theorem pushPanics_of_push (panicked : stack.push frame = .error panic) :
    stack.PushPanics frame panic := by
  unfold push at panicked
  split at panicked
  next => cases panicked
  next index found =>
    rcases Checked.bind_eq_error.mp panicked with broken | ⟨_, _, rest⟩
    · obtain ⟨low, rfl⟩ := Checked.require_eq_error.mp broken
      exact .reserved found (Nat.lt_of_not_le low)
    · split at rest
      next inside =>
        split at rest
        next => cases rest
        next tag =>
          rcases Checked.bind_eq_error.mp rest with broken | ⟨_, _, ⟨⟩⟩
          obtain ⟨full, rfl⟩ := Checked.require_eq_error.mp broken
          refine .overfull ⟨Nat.le_of_not_lt full, index, found, ?_⟩
          rw [Array.getElem?_eq_getElem inside, tag]
      next outside => exact absurd (indexOf?_eq_some_iff.mp found).2 outside

/-- Past the table's own storage, only the counter can be in the way. -/
theorem overfull_of_push (past : stack.first.number + stack.reserved ≤ frame.number)
    (panicked : stack.push frame = .error panic) :
    panic = .counterOverflow ∧ stack.Overfull frame := by
  cases pushPanics_of_push panicked with
  | reserved found reserved =>
      obtain ⟨number, -⟩ := indexOf?_eq_some_iff.mp found
      omega
  | overfull overfull => exact ⟨rfl, overfull⟩

theorem Overdrawn.pop (overdrawn : stack.Overdrawn) :
    stack.pop = .error .counterUnderflow := by
  obtain ⟨spent, index, next, top, found⟩ := overdrawn
  obtain ⟨inside, tag⟩ := Array.getElem?_eq_some_iff.mp found
  unfold FreeStack.pop
  simp only [top, inside, dite_true, tag, spent]
  rfl

/-- Past the table's own storage, nothing comes before the counter. -/
theorem Overfull.push (overfull : stack.Overfull frame)
    (past : stack.first.number + stack.reserved ≤ frame.number) :
    stack.push frame = .error .counterOverflow := by
  obtain ⟨full, index, found, listed⟩ := overfull
  obtain ⟨inside, tag⟩ := Array.getElem?_eq_some_iff.mp listed
  obtain ⟨number, -⟩ := indexOf?_eq_some_iff.mp found
  have unreserved : stack.reserved ≤ index := by omega
  have spent : ¬ stack.freeCount + 1 < UInt64.size := Nat.not_lt.mpr full
  unfold FreeStack.push
  simp only [found, Checked.require_of unreserved, inside, dite_true, tag,
    Checked.require_of_not spent, bind, Except.bind]

/-! ## Damage -/

/-- Damage changes one entry and nothing else. -/
theorem copyEntry?_eq_some {source target : Nat}
    (damaged : stack.copyEntry? source target = some after) :
    ∃ (entry : FrameEntry) (inside : target < stack.entries.size),
      stack.entries[source]? = some entry ∧
        after = { stack with entries := stack.entries.set target entry } := by
  obtain ⟨entry, found, changed⟩ := Option.bind_eq_some_iff.mp damaged
  split at changed
  next inside =>
    cases changed
    exact ⟨entry, inside, found, rfl⟩
  next => cases changed

theorem bounds_of_damaged {source target : Nat}
    (damaged : stack.copyEntry? source target = some after) : after.bounds = stack.bounds := by
  obtain ⟨entry, inside, -, rfl⟩ := copyEntry?_eq_some damaged
  simp only [bounds, total, Array.size_set]

end FreeStack

namespace FramePool

variable {pool : FramePool} {frame : Frame}

/-! ## Handing out -/

/-- What becomes of a pool that is asked for a run of frames. -/
inductive HandsOut (pool : FramePool) (count : Nat) :
    Except AllocateError Frame → FramePool → Prop where
  | refused {refusal : AllocateError} (reached : ∀ address, refusal ≠ .notDirectMapped address) :
      HandsOut pool count (.error refusal) pool
  | stolen {range rest : BumpRange} {leaked : Nat} {frame : Frame}
      (early : pool = ⟨.early (.bump range), leaked⟩)
      (stolen : range.steal count = (some frame, rest)) :
      HandsOut pool count (.ok frame) ⟨.early (.bump rest), leaked⟩
  | popped {stack rest : FreeStack} {leaked : Nat} {frame : Frame}
      (ready : pool = ⟨.ready stack, leaked⟩) (single : count = 1)
      (popped : stack.pop = .ok (.ok frame, rest)) :
      HandsOut pool count (.ok frame) ⟨.ready rest, leaked⟩

theorem handsOut_of_allocate {count : Nat} {reply : Reply AllocateError Frame}
    (allocated : pool.allocate count = .ok reply) :
    HandsOut pool count reply.result reply.pool := by
  obtain ⟨phase, leaked⟩ := pool
  unfold allocate at allocated
  split at allocated
  next =>
    cases allocated
    exact .refused (by simp)
  next positive =>
    cases phase with
    | early memory =>
        cases memory with
        | fixed first last =>
            cases allocated
            exact .refused (by simp)
        | bump range =>
            cases stolen : range.steal count with
            | mk found rest =>
                simp only [BootMemory.steal, stolen] at allocated
                cases allocated
                cases found with
                | some frame => exact .stolen rfl stolen
                | none =>
                    rw [BumpRange.eq_of_steal_none stolen]
                    exact .refused (by simp)
    | ready stack =>
        dsimp only at allocated
        split at allocated
        next =>
          cases allocated
          exact .refused (by simp)
        next few =>
          obtain ⟨⟨result, rest⟩, popped, answered⟩ := Checked.bind_eq_ok.mp allocated
          cases answered
          cases result with
          | ok frame => exact .popped rfl (by omega) popped
          | error refusal =>
              rw [(FreeStack.pops_of_pop popped).eq_of_error]
              apply HandsOut.refused
              cases refusal with
              | exhausted => simp [AllocateError.ofTake]
              | corrupt address => simp [AllocateError.ofTake]

/-- Asking for a single frame and asking for a run of one come to the same. -/
theorem allocate_one_eq (pool : FramePool) :
    pool.allocate 1 =
      pool.take.map fun reply => answer reply.pool (reply.result.mapError .ofTake) := by
  obtain ⟨phase, leaked⟩ := pool
  cases phase with
  | early memory =>
      cases stolen : memory.steal 1 with
      | mk found rest =>
          simp only [allocate, take, stolen, Nat.one_ne_zero, if_false]
          cases found with
          | none => rfl
          | some frame => rfl
  | ready stack =>
      simp only [allocate, take, Nat.one_ne_zero, if_false, Nat.lt_irrefl]
      cases stack.pop with
      | error panic => rfl
      | ok popped => rfl

theorem handsOut_of_take {reply : Reply TakeError Frame} (taken : pool.take = .ok reply) :
    HandsOut pool 1 (reply.result.mapError .ofTake) reply.pool := by
  have allocated := allocate_one_eq pool
  rw [taken] at allocated
  exact handsOut_of_allocate allocated

/-! ## Giving back -/

/-- What becomes of a pool to which a frame is given back. -/
inductive TakesBack (pool : FramePool) (frame : Frame) :
    Except ReleaseError Unit → FramePool → Prop where
  | refused {refusal : ReleaseError} (direct : ∀ pointer, refusal ≠ .notDirectMapped pointer) :
      TakesBack pool frame (.error refusal) pool
  | counted : TakesBack pool frame (.ok ()) { pool with leakedFrees := pool.leakedFrees + 1 }
  | put {stack rest : FreeStack} {leaked : Nat} (ready : pool = ⟨.ready stack, leaked⟩)
      (pushed : stack.push frame = .ok (.ok (), rest)) :
      TakesBack pool frame (.ok ()) ⟨.ready rest, leaked⟩

/-- Past the storage of its table, a pool puts frames on the stack. -/
theorem release_of_past {stack : FreeStack} {leaked : Nat}
    (past : stack.first.number + stack.reserved ≤ frame.number) :
    release ⟨.ready stack, leaked⟩ frame = do
      let (result, rest) ← stack.push frame
      return answer ⟨.ready rest, leaked⟩ result := by
  have named : stack.first.number + stack.reserved < blockLimit :=
    Nat.lt_of_le_of_lt past frame.number_lt
  have located : stack.reservedEnd = .ok ⟨stack.first.number + stack.reserved, named⟩ :=
    FreeStack.frameAt_of_number rfl
  simp only [release, located, bind, Except.bind, past, if_true]

theorem release_of_below {stack : FreeStack} {leaked : Nat}
    (below : frame.number < stack.first.number + stack.reserved)
    (named : stack.first.number + stack.reserved < blockLimit) :
    release ⟨.ready stack, leaked⟩ frame = .ok (leak ⟨.ready stack, leaked⟩ frame) := by
  have located : stack.reservedEnd = .ok ⟨stack.first.number + stack.reserved, named⟩ :=
    FreeStack.frameAt_of_number rfl
  simp only [release, located, bind, Except.bind, Nat.not_le_of_lt below, if_false]
  rfl

theorem takesBack_of_release {reply : Reply ReleaseError Unit}
    (released : pool.release frame = .ok reply) :
    TakesBack pool frame reply.result reply.pool := by
  obtain ⟨phase, leaked⟩ := pool
  cases phase with
  | early memory =>
      cases released
      exact .counted
  | ready stack =>
      obtain ⟨boundary, -, routed⟩ := Checked.bind_eq_ok.mp released
      split at routed
      next =>
        obtain ⟨⟨result, rest⟩, pushed, answered⟩ := Checked.bind_eq_ok.mp routed
        cases answered
        have pushes := FreeStack.pushes_of_push pushed
        cases result with
        | ok done => exact .put rfl pushed
        | error refusal =>
            rw [pushes.eq_of_error]
            exact .refused pushes.direct
      next =>
        cases routed
        exact .counted

/-! ## Serving a request -/

/-- What becomes of a pool that serves a request, and what it answers. -/
inductive Serves (pool : FramePool) : FrameRequest → Answer → FramePool → Prop where
  | allocate {count : Nat} {result : Except AllocateError Frame} {answer : Answer}
      {after : FramePool} (handsOut : HandsOut pool count result after)
      (answered : .ofResult .allocate .frame result = answer) :
      Serves pool (.allocate count) answer after
  | take {result : Except TakeError Frame} {answer : Answer} {after : FramePool}
      (handsOut : HandsOut pool 1 (result.mapError .ofTake) after)
      (answered : .ofResult .take .frame result = answer) :
      Serves pool .take answer after
  | release {frame : Frame} {result : Except ReleaseError Unit} {answer : Answer}
      {after : FramePool} (takesBack : TakesBack pool frame result after)
      (answered : .ofResult .release (fun _ => .done) result = answer) :
      Serves pool (.release frame) answer after

theorem serves_of_serve {request : FrameRequest} {answer : Answer} {after : FramePool}
    (served : pool.serve request = .ok (answer, after)) : Serves pool request answer after := by
  cases request with
  | allocate count =>
      obtain ⟨reply, allocated, answered⟩ := Checked.bind_eq_ok.mp served
      obtain ⟨answer, rfl⟩ := Prod.mk.inj (Except.ok.inj answered)
      exact .allocate (handsOut_of_allocate allocated) answer
  | take =>
      obtain ⟨reply, taken, answered⟩ := Checked.bind_eq_ok.mp served
      obtain ⟨answer, rfl⟩ := Prod.mk.inj (Except.ok.inj answered)
      exact .take (handsOut_of_take taken) answer
  | release frame =>
      obtain ⟨reply, released, answered⟩ := Checked.bind_eq_ok.mp served
      obtain ⟨answer, rfl⟩ := Prod.mk.inj (Except.ok.inj answered)
      exact .release (takesBack_of_release released) answer

end FramePool

end PagedMemory
