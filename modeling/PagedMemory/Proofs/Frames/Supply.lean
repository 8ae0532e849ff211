import PagedMemory.Frames.Pool
import PagedMemory.Proofs.Frames.Boot
import PagedMemory.Proofs.Frames.Stack

/-!
# The pool as a list of available frames

In both phases the frames that a pool can still hand out form a list: what is
left of boot memory in the early phase, the free stack in the ready phase.
Every request takes frames from the front of that list, and a managed frame
that is given back is put in front of it.

A pool is *sound* if its boot memory has frame boundaries for bounds, or if its
table represents its free stack and lies within reach of the direct map.  Sound
pools answer every request without a panic and stay sound.  What they are about
is their *territory*, which only bootstrapping changes.
-/

namespace PagedMemory

/-- What a pool is about, whichever of its frames are handed out. -/
inductive Territory where
  /-- Boot memory up to a last frame, which is not part of it. -/
  | boot (last : Frame)
  | table (bounds : TableBounds)
  deriving DecidableEq

namespace Territory

/-- A frame that becomes available again when it is given back. -/
def Manages : Territory → Frame → Prop
  | .boot _, _ => False
  | .table bounds, frame => bounds.Manages frame

/-- A frame that may have been handed out, now or in an earlier phase. -/
def Accepts : Territory → Frame → Prop
  | .boot last, frame => frame.number < last.number
  | .table bounds, frame =>
      frame.number < bounds.first.number ∨ bounds.Manages frame

end Territory

namespace FramePool

def territory (pool : FramePool) : Territory :=
  match pool.phase with
  | .early memory => .boot memory.usableRange.2.block
  | .ready stack => .table stack.bounds

/-- The frames that can be handed out, in the order in which they will be. -/
def available (pool : FramePool) : List Frame :=
  match pool.phase with
  | .early (.bump range) => range.remaining
  | .early (.fixed _ _) => []
  | .ready stack => stack.frames

/-- The records of a pool are in order. -/
inductive Sound : FramePool → Prop where
  | early {range : BumpRange} {leaked : Nat}
      (aligned : range.Aligned) : Sound ⟨.early (.bump range), leaked⟩
  | ready {stack : FreeStack} {leaked : Nat}
      (represents : stack.Represents stack.frames)
      (mapped :
        (stack.first.number + stack.total) * pageSize ≤ directMapLimit) :
      Sound ⟨.ready stack, leaked⟩

theorem Sound.of_represents {stack : FreeStack} {frames : List Frame}
    (represents : stack.Represents frames)
    (mapped : (stack.first.number + stack.total) * pageSize ≤ directMapLimit)
    (leaked : Nat) :
    Sound ⟨.ready stack, leaked⟩ ∧ available ⟨.ready stack, leaked⟩ = frames := by
  have listed := represents.frames_eq
  refine ⟨.ready ?_ mapped, listed⟩
  rw [listed]
  exact represents

theorem Sound.nodup_available {pool : FramePool} (sound : pool.Sound) :
    pool.available.Nodup := by
  cases sound with
  | early aligned => exact Block.nodup_run aligned.remaining_fits
  | ready represents mapped => exact represents.distinct

theorem Sound.accepts_available {pool : FramePool} (sound : pool.Sound)
    {frame : Frame} (member : frame ∈ pool.available) :
    pool.territory.Accepts frame := by
  cases sound with
  | early aligned => exact (aligned.mem_remaining.mp member).2
  | ready represents mapped => exact Or.inr (represents.manages frame member)

/-- A frame table hands out managed frames only. -/
theorem Sound.manages_available {pool : FramePool} (sound : pool.Sound) {bounds : TableBounds}
    (table : pool.territory = .table bounds) {frame : Frame}
    (member : frame ∈ pool.available) : pool.territory.Manages frame := by
  cases sound with
  | early aligned => cases table
  | ready represents mapped => exact represents.manages frame member

/-- Whether an available frame is a managed one depends on the phase only. -/
theorem Sound.manages_iff_isBootstrapped {pool : FramePool} (sound : pool.Sound) {frame : Frame}
    (member : frame ∈ pool.available) :
    pool.territory.Manages frame ↔ pool.isBootstrapped = true := by
  cases sound with
  | early aligned =>
      constructor
      · exact False.elim
      · exact Bool.noConfusion
  | ready represents mapped =>
      constructor
      · intro _
        rfl
      · intro _
        exact represents.manages frame member

/-- A managed frame lies within reach of the direct map. -/
theorem Sound.mapped_of_manages {pool : FramePool} (sound : pool.Sound) {frame : Frame}
    (managed : pool.territory.Manages frame) :
    (frame.number + 1) * pageSize ≤ directMapLimit := by
  cases sound with
  | early aligned => exact managed.elim
  | @ready stack leaked represents mapped =>
      have inside : frame.number < stack.first.number + stack.total := managed.2
      exact Nat.le_trans (Nat.mul_le_mul_right pageSize inside) mapped

theorem Sound.toKernel?_of_manages {pool : FramePool} (sound : pool.Sound) {frame : Frame}
    (managed : pool.territory.Manages frame) : frame.base.toKernel? ≠ none := by
  have mapped := sound.mapped_of_manages managed
  have below : frame.base.toNat < directMapLimit := by
    rw [Block.toNat_base]
    simp only [pageSize] at *
    omega
  rw [Address.toKernel?, if_pos below]
  exact Option.some_ne_none _

/-- The counter of a bootstrapped pool tells how many frames are available. -/
theorem Sound.freeFrames_eq {pool : FramePool} (sound : pool.Sound)
    (bootstrapped : pool.isBootstrapped = true) :
    pool.freeFrames = pool.available.length := by
  cases sound with
  | early aligned => simp [isBootstrapped] at bootstrapped
  | ready represents mapped => exact represents.counted

/-- The counter has room for one more frame. -/
theorem Sound.countable {pool : FramePool} (sound : pool.Sound) :
    pool.freeFrames + 1 < UInt64.size := by
  cases sound with
  | early aligned =>
      show 0 + 1 < UInt64.size
      decide
  | ready represents mapped => exact represents.countable

/-- A frame table tells how large it is. -/
theorem counters_of_table {pool : FramePool} {bounds : TableBounds}
    (table : pool.territory = .table bounds) :
    pool.isBootstrapped = true ∧ pool.totalFrames = bounds.total ∧
      pool.footprintFrames = bounds.reserved := by
  rcases pool with ⟨phase, leaked⟩
  cases phase with
  | early memory => cases table
  | ready stack =>
      cases table
      exact ⟨rfl, rfl, rfl⟩

/-! ## Handing out -/

/-- Some frames have been taken from the front of the available ones. -/
structure Grants (before : FramePool) (frames : List Frame) (after : FramePool) :
    Prop where
  sound : after.Sound
  territory : after.territory = before.territory
  leakedFrees : after.leakedFrees = before.leakedFrees
  available : before.available = frames ++ after.available

/-- The two phases in which the front of the available frames is split off. -/
private theorem grants_steal {range after : BumpRange} {count : Nat} {frame : Frame}
    (aligned : range.Aligned) (steals : range.Steals count frame after) (leaked : Nat) :
    Grants ⟨.early (.bump range), leaked⟩ (frame.run count) ⟨.early (.bump after), leaked⟩ :=
  ⟨.early (steals.aligned aligned),
    by simp only [FramePool.territory, BootMemory.usableRange, steals.last], rfl,
    steals.remaining⟩

private theorem grants_pop {stack after : FreeStack} {frame : Frame}
    {rest : List Frame} (listed : stack.frames = frame :: rest)
    (represents : after.Represents rest) (same : after.bounds = stack.bounds)
    (mapped : (stack.first.number + stack.total) * pageSize ≤ directMapLimit)
    (leaked : Nat) :
    Grants ⟨.ready stack, leaked⟩ [frame] ⟨.ready after, leaked⟩ := by
  have first : after.first = stack.first := congrArg TableBounds.first same
  have total : after.total = stack.total := congrArg TableBounds.total same
  rw [← first, ← total] at mapped
  obtain ⟨sound, available⟩ := Sound.of_represents represents mapped leaked
  refine ⟨sound, by simp only [FramePool.territory, same], rfl, ?_⟩
  rw [available]
  exact listed

/-- A single frame is refused exactly if none is available. -/
theorem Sound.take_nil {pool : FramePool} (sound : pool.Sound)
    (empty : pool.available = []) :
    pool.take = .ok ⟨.error .exhausted, pool, []⟩ := by
  cases sound with
  | @early range leaked aligned =>
      have short : range.remaining.length < 1 := by
        have none : range.remaining = [] := empty
        simp [none]
      simp only [take, BootMemory.steal, aligned.steal_of_lt short]
      rfl
  | @ready stack leaked represents mapped =>
      have none : stack.frames = [] := empty
      rw [none] at represents
      simp only [take, represents.pop_nil]
      rfl

theorem Sound.take_cons {pool : FramePool} (sound : pool.Sound) {frame : Frame}
    {rest : List Frame} (listed : pool.available = frame :: rest) :
    ∃ after, pool.take = .ok ⟨.ok frame, after, []⟩ ∧ Grants pool [frame] after := by
  cases sound with
  | @early range leaked aligned =>
      have present : range.remaining = frame :: rest := listed
      have enough : 1 ≤ range.remaining.length := by simp [present]
      obtain ⟨after, stolen, steals⟩ := aligned.steal_of_le enough
      have single : range.first.block.run 1 = [range.first.block] := by
        simp [Block.run, List.range_succ]
      have head : range.first.block = frame := by
        have split := steals.remaining
        rw [single, present] at split
        exact (List.cons.inj split).1.symm
      refine ⟨⟨.early (.bump after), leaked⟩, ?_, ?_⟩
      · simp only [take, BootMemory.steal, stolen, head]
        rfl
      · have granted := grants_steal aligned steals leaked
        rwa [single, head] at granted
  | @ready stack leaked represents mapped =>
      have present : stack.frames = frame :: rest := listed
      rw [present] at represents
      obtain ⟨after, popped, represents', same⟩ := represents.pop_cons
      refine ⟨⟨.ready after, leaked⟩, ?_, grants_pop present represents' same mapped leaked⟩
      simp only [take, popped]
      rfl

/--
A run of frames comes from the front of the available ones, or the request is
refused and changes nothing.
-/
theorem Sound.allocate {pool : FramePool} (sound : pool.Sound) (count : Nat) :
    (∃ refusal, pool.allocate count = .ok ⟨.error refusal, pool, []⟩) ∨
      ∃ frame after, pool.allocate count = .ok ⟨.ok frame, after, []⟩ ∧
        Grants pool (frame.run count) after := by
  by_cases none : count = 0
  · exact Or.inl ⟨.zeroFrames, by simp only [FramePool.allocate, none, if_true]; rfl⟩
  · cases sound with
    | @early range leaked aligned =>
        by_cases enough : count ≤ range.remaining.length
        · obtain ⟨after, stolen, steals⟩ := aligned.steal_of_le enough
          refine Or.inr ⟨range.first.block, ⟨.early (.bump after), leaked⟩, ?_,
            grants_steal aligned steals leaked⟩
          simp only [FramePool.allocate, none, if_false, BootMemory.steal, stolen]
          rfl
        · refine Or.inl ⟨.outOfMemory, ?_⟩
          simp only [FramePool.allocate, none, if_false, BootMemory.steal,
            aligned.steal_of_lt (Nat.lt_of_not_le enough)]
          rfl
    | @ready stack leaked represents mapped =>
        by_cases several : 1 < count
        · refine Or.inl ⟨.multiFrameAfterBootstrap count, ?_⟩
          simp only [FramePool.allocate, none, if_false, several, if_true]
          rfl
        · have one : count = 1 := by omega
          subst one
          cases listed : stack.frames with
          | nil =>
              rw [listed] at represents
              refine Or.inl ⟨.outOfMemory, ?_⟩
              simp only [FramePool.allocate, none, if_false, several, represents.pop_nil]
              rfl
          | cons frame rest =>
              rw [listed] at represents
              obtain ⟨after, popped, represents', same⟩ := represents.pop_cons
              have single : frame.run 1 = [frame] := by
                simp [Block.run, List.range_succ]
              refine Or.inr ⟨frame, ⟨.ready after, leaked⟩, ?_, ?_⟩
              · simp only [FramePool.allocate, none, if_false, several, popped]
                rfl
              · rw [single]
                exact grants_pop listed represents' same mapped leaked

/-- A run that is handed out ends within the frames that can be named. -/
theorem fits_of_allocate {pool : FramePool} {count : Nat} {reply : Reply AllocateError Frame}
    {frame : Frame} (allocated : pool.allocate count = .ok reply)
    (granted : reply.result = .ok frame) : frame.number + count ≤ blockLimit := by
  rcases pool with ⟨phase, leaked⟩
  by_cases none : count = 0
  · simp only [allocate, none, if_true] at allocated
    cases allocated
    cases granted
  · cases phase with
    | early memory =>
        cases memory with
        | fixed low high =>
            simp only [allocate, none, if_false, BootMemory.steal] at allocated
            cases allocated
            cases granted
        | bump range =>
            cases stolen : range.steal count with
            | mk found after =>
                simp only [allocate, none, if_false, BootMemory.steal, stolen] at allocated
                cases allocated
                cases found with
                | none => cases granted
                | some taken =>
                    cases granted
                    exact (BumpRange.steals_of_steal stolen).fits
    | ready stack =>
        by_cases several : 1 < count
        · simp only [allocate, none, if_false, several, if_true] at allocated
          cases allocated
          cases granted
        · have bounded := frame.number_lt
          omega

/-! ## Giving back -/

/-- A frame has been given back: it is available again if it is a managed one. -/
structure Recovers (before : FramePool) (frame : Frame) (after : FramePool) :
    Prop where
  sound : after.Sound
  territory : after.territory = before.territory
  managed : before.territory.Manages frame →
    after.available = frame :: before.available ∧
      after.leakedFrees = before.leakedFrees
  reserved : ¬ before.territory.Manages frame →
    after.available = before.available ∧
      after.leakedFrees = before.leakedFrees + 1

/--
What giving back a frame does, whoever holds it.  A managed frame that is
available already and a frame that was never handed out are refused.
-/
inductive Releases (before : FramePool) (frame : Frame) :
    Except ReleaseError Unit → FramePool → Prop where
  | returned {after : FramePool} (recovers : Recovers before frame after)
      (outstanding : before.territory.Manages frame → frame ∉ before.available) :
      Releases before frame (.ok ()) after
  | refused (refusal : ReleaseError)
      (mistaken : before.territory.Accepts frame → frame ∈ before.available) :
      Releases before frame (.error refusal) before

/-- Nothing becomes available again in the early phase. -/
private theorem recovers_early {range : BumpRange} (aligned : range.Aligned) (leaked : Nat)
    (frame : Frame) :
    Recovers ⟨.early (.bump range), leaked⟩ frame ⟨.early (.bump range), leaked + 1⟩ := by
  refine ⟨.early aligned, rfl, ?_, ?_⟩
  · intro managed
    exact managed.elim
  · intro _
    exact ⟨rfl, rfl⟩

private theorem recovers_reserved {stack : FreeStack} (represents : stack.Represents stack.frames)
    (mapped : (stack.first.number + stack.total) * pageSize ≤ directMapLimit) (leaked : Nat)
    {frame : Frame} (unmanaged : ¬ stack.bounds.Manages frame) :
    Recovers ⟨.ready stack, leaked⟩ frame ⟨.ready stack, leaked + 1⟩ := by
  refine ⟨.ready represents mapped, rfl, ?_, ?_⟩
  · intro managed
    exact (unmanaged managed).elim
  · intro _
    exact ⟨rfl, rfl⟩

private theorem recovers_push {stack after : FreeStack} {frame : Frame}
    (managed : stack.bounds.Manages frame)
    (represents : after.Represents (frame :: stack.frames)) (same : after.bounds = stack.bounds)
    (mapped : (stack.first.number + stack.total) * pageSize ≤ directMapLimit) (leaked : Nat) :
    Recovers ⟨.ready stack, leaked⟩ frame ⟨.ready after, leaked⟩ := by
  have first : after.first = stack.first := congrArg TableBounds.first same
  have total : after.total = stack.total := congrArg TableBounds.total same
  rw [← first, ← total] at mapped
  obtain ⟨sound, available⟩ := Sound.of_represents represents mapped leaked
  refine ⟨sound, by simp only [FramePool.territory, same], ?_, ?_⟩
  · intro _
    exact ⟨available, rfl⟩
  · intro unmanaged
    exact (unmanaged managed).elim

/-- A sound pool answers whoever gives back a frame. -/
theorem Sound.releases {pool : FramePool} (sound : pool.Sound) (frame : Frame) :
    ∃ result after events, pool.release frame = .ok ⟨result, after, events⟩ ∧
      Releases pool frame result after := by
  cases sound with
  | @early range leaked aligned =>
      exact ⟨_, _, _, rfl, .returned (recovers_early aligned leaked frame) fun managed =>
        managed.elim⟩
  | @ready stack leaked represents mapped =>
      obtain ⟨boundary, located, number⟩ := represents.reservedEnd
      by_cases above : boundary.number ≤ frame.number
      · by_cases past : stack.first.number + stack.total ≤ frame.number
        · refine ⟨_, ⟨.ready stack, leaked⟩, [], ?_, .refused (.outOfRange frame.base) ?_⟩
          · simp only [FramePool.release, located, bind, Except.bind, above, if_true,
              FreeStack.push_outOfRange past]
            rfl
          · rintro (below | managed)
            · simp only [FreeStack.bounds] at below
              omega
            · exact absurd managed.2 (Nat.not_lt_of_le past)
        · have managed : stack.bounds.Manages frame := by
            rw [number] at above
            exact ⟨above, Nat.lt_of_not_le past⟩
          by_cases member : frame ∈ stack.frames
          · refine ⟨_, ⟨.ready stack, leaked⟩, [], ?_, .refused (.doubleFree frame.base) ?_⟩
            · simp only [FramePool.release, located, bind, Except.bind, above, if_true,
                represents.push_member member]
              rfl
            · intro _
              exact member
          · obtain ⟨after, pushed, represents', same⟩ := represents.push_new managed member
            refine ⟨.ok (), ⟨.ready after, leaked⟩, [], ?_,
              .returned (recovers_push managed represents' same mapped leaked) ?_⟩
            · simp only [FramePool.release, located, bind, Except.bind, above, if_true, pushed]
              rfl
            · intro _
              exact member
      · have unmanaged : ¬ stack.bounds.Manages frame := by
          intro managed
          apply above
          rw [number]
          exact managed.1
        refine ⟨.ok (), ⟨.ready stack, leaked + 1⟩, [.reservedReleased frame (leaked + 1)], ?_,
          .returned (recovers_reserved represents mapped leaked unmanaged) ?_⟩
        · simp only [FramePool.release, located, bind, Except.bind, above, if_false]
          rfl
        · intro managed
          exact absurd managed unmanaged

/-- A frame that is handed out can be given back. -/
theorem Sound.release {pool : FramePool} (sound : pool.Sound) {frame : Frame}
    (accepted : pool.territory.Accepts frame) (outstanding : frame ∉ pool.available) :
    ∃ after events, pool.release frame = .ok ⟨.ok (), after, events⟩ ∧
      Recovers pool frame after := by
  obtain ⟨result, after, events, released, releases⟩ := sound.releases frame
  cases releases with
  | returned recovers missing => exact ⟨after, events, released, recovers⟩
  | refused refusal mistaken => exact absurd (mistaken accepted) outstanding

end FramePool

end PagedMemory
