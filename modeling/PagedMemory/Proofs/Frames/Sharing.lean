import PagedMemory.Proofs.Frames.Turns

/-!
# A pool that clients share

The turns of clients tell which frames are *outstanding*: those that were handed
out and did not become available again since.  No frame is outstanding twice,
and none is both outstanding and available.

This holds across the bootstrap.  The frames that are outstanding then are no
part of the memory that is left, so the table does not manage them and they
never become available, however often they are given back.  A frame that the
table does manage becomes available again only when a client gives it back.
-/

namespace PagedMemory

namespace PoolTurn

variable {turn : PoolTurn} {turns earlier : List PoolTurn} {frame : Frame}

/-! ## Outstanding frames -/

/-- The frames that were handed out and are not available again; the latest turn comes first. -/
def outstanding : List PoolTurn → List Frame
  | [] => []
  | turn :: earlier =>
      turn.handedOut ++ turn.recovered?.elim (outstanding earlier) (outstanding earlier).erase

theorem mem_outstanding_of_handedOut (handed : frame ∈ turn.handedOut) :
    frame ∈ outstanding (turn :: earlier) :=
  List.mem_append_left _ handed

/-- A frame stays outstanding unless the turn makes it available again. -/
theorem mem_outstanding_of_ne (member : frame ∈ outstanding earlier)
    (other : turn.recovered? ≠ some frame) : frame ∈ outstanding (turn :: earlier) := by
  apply List.mem_append_right
  cases back : turn.recovered? with
  | none => exact member
  | some returned =>
      rw [back] at other
      exact (List.mem_erase_of_ne fun same => other (congrArg some same.symm)).mpr member

/--
A frame that was outstanding and is not any more became available again in a
turn in between, and was outstanding until then.
-/
theorem recovered_between {middle : List PoolTurn} (member : frame ∈ outstanding earlier)
    (gone : frame ∉ outstanding (middle ++ earlier)) :
    ∃ newer turn older, middle = newer ++ turn :: older ∧ turn.recovered? = some frame ∧
      frame ∈ outstanding (older ++ earlier) := by
  induction middle with
  | nil => exact absurd member gone
  | cons latest older induction =>
      by_cases still : frame ∈ outstanding (older ++ earlier)
      · refine ⟨[], latest, older, rfl, ?_, still⟩
        by_contra other
        exact gone (mem_outstanding_of_ne still other)
      · rcases induction still with ⟨newer, turn, oldest, split, back, before⟩
        refine ⟨latest :: newer, turn, oldest, ?_, back, before⟩
        rw [split, List.cons_append]

theorem outstanding_of_steady (steady : turn.recovered? = none) :
    outstanding (turn :: earlier) = turn.handedOut ++ outstanding earlier := by
  rw [outstanding, steady, Option.elim_none]

theorem outstanding_of_recovered (nothing : turn.handedOut = [])
    (back : turn.recovered? = some frame) :
    outstanding (turn :: earlier) = (outstanding earlier).erase frame := by
  rw [outstanding, nothing, back, Option.elim_some, List.nil_append]

/-! ## Custody -/

/-- A turn that made a table of the boot memory that was left. -/
structure Builds (turn : PoolTurn) (bounds : TableBounds) : Prop where
  step : turn.step = .bootstrap
  answer : turn.answer = .done
  first : ∃ rest, turn.before.phase = .early (.bump rest) ∧ bounds.first = rest.first.block

/-- Where the frames of a range are after some turns. -/
structure Custody (range : BumpRange) (turns : List PoolTurn) (pool : FramePool) : Prop where
  sound : pool.Sound
  distinct : (outstanding turns ++ pool.available).Nodup
  within : ∀ frame ∈ outstanding turns ++ pool.available, frame ∈ range.remaining
  managed : ∀ frame, pool.territory.Manages frame →
    frame ∈ outstanding turns ++ pool.available
  /-- The managed frames are those that are handed out after the bootstrap. -/
  origin : ∀ turn ∈ turns, ∀ frame ∈ turn.handedOut,
    (pool.territory.Manages frame ↔ turn.before.isBootstrapped = true)
  /-- All others are never available again. -/
  kept : ∀ turn ∈ turns, ∀ frame ∈ turn.handedOut, ¬ pool.territory.Manages frame →
    frame ∈ outstanding turns
  table : ∀ bounds, pool.territory = .table bounds → ∃ turn ∈ turns, turn.Builds bounds

variable {range : BumpRange} {pool : FramePool}

theorem Custody.not_available (custody : Custody range turns pool)
    (member : frame ∈ outstanding turns) : frame ∉ pool.available :=
  fun available => List.disjoint_of_nodup_append custody.distinct member available

/-- At first every frame is available. -/
theorem Custody.start (aligned : range.Aligned) : Custody range [] (.new (.bump range)) := by
  have sound : FramePool.Sound (.new (.bump range)) := .early aligned
  constructor
  case sound => exact sound
  case distinct => exact sound.nodup_available
  case within =>
    intro frame member
    exact member
  case managed =>
    intro frame managed
    exact managed.elim
  case origin =>
    intro turn member
    cases member
  case kept =>
    intro turn member
    cases member
  case table =>
    intro bounds table
    cases table

/--
A turn keeps custody if it moves frames between outstanding and available only,
and hands out what was available.
-/
theorem Custody.of_perm (custody : Custody range earlier turn.before)
    (sound : turn.after.Sound) (territory : turn.after.territory = turn.before.territory)
    (moved : (outstanding (turn :: earlier) ++ turn.after.available).Perm
      (outstanding earlier ++ turn.before.available))
    (handed : ∀ frame ∈ turn.handedOut, frame ∈ turn.before.available)
    (back : ∀ frame, turn.recovered? = some frame → turn.before.territory.Manages frame) :
    Custody range (turn :: earlier) turn.after := by
  constructor
  case sound => exact sound
  case distinct => exact moved.nodup_iff.mpr custody.distinct
  case within =>
    intro frame member
    exact custody.within frame (moved.subset member)
  case managed =>
    intro frame managed
    rw [territory] at managed
    exact moved.symm.subset (custody.managed frame managed)
  case origin =>
    intro latest member frame taken
    rw [territory]
    rcases List.mem_cons.mp member with rfl | old
    · exact custody.sound.manages_iff_isBootstrapped (handed frame taken)
    · exact custody.origin latest old frame taken
  case kept =>
    intro latest member frame taken unmanaged
    rw [territory] at unmanaged
    rcases List.mem_cons.mp member with rfl | old
    · exact mem_outstanding_of_handedOut taken
    · apply mem_outstanding_of_ne (custody.kept latest old frame taken unmanaged)
      intro returned
      exact unmanaged (back frame returned)
  case table =>
    intro bounds table
    rw [territory] at table
    rcases custody.table bounds table with ⟨boot, member, builds⟩
    exact ⟨boot, List.mem_cons_of_mem turn member, builds⟩

theorem Custody.granted (custody : Custody range earlier turn.before)
    (grants : FramePool.Grants turn.before turn.handedOut turn.after)
    (steady : turn.recovered? = none) : Custody range (turn :: earlier) turn.after := by
  apply custody.of_perm grants.sound grants.territory
  · rw [outstanding_of_steady steady, grants.available, ← List.append_assoc]
    exact List.perm_append_comm.append_right turn.after.available
  · intro frame taken
    rw [grants.available]
    exact List.mem_append_left _ taken
  · intro frame back
    rw [steady] at back
    cases back

theorem Custody.recovered (custody : Custody range earlier turn.before)
    (nothing : turn.handedOut = []) (back : turn.recovered? = some frame)
    (managed : turn.before.territory.Manages frame) (missing : frame ∉ turn.before.available)
    (recovers : FramePool.Recovers turn.before frame turn.after) :
    Custody range (turn :: earlier) turn.after := by
  have member : frame ∈ outstanding earlier :=
    (List.mem_append.mp (custody.managed frame managed)).resolve_right missing
  apply custody.of_perm recovers.sound recovers.territory
  · rw [outstanding_of_recovered nothing back, (recovers.managed managed).1]
    calc ((outstanding earlier).erase frame ++ frame :: turn.before.available).Perm
          (frame :: (outstanding earlier).erase frame ++ turn.before.available) :=
        List.perm_middle
      List.Perm _ (outstanding earlier ++ turn.before.available) :=
        (List.perm_cons_erase member).symm.append_right turn.before.available
  · rw [nothing]
    intro other taken
    cases taken
  · intro other returned
    rw [back] at returned
    cases returned
    exact managed

theorem Custody.unchanged (custody : Custody range earlier turn.before)
    (nothing : turn.handedOut = []) (steady : turn.recovered? = none)
    (sound : turn.after.Sound) (territory : turn.after.territory = turn.before.territory)
    (available : turn.after.available = turn.before.available) :
    Custody range (turn :: earlier) turn.after := by
  apply custody.of_perm sound territory
  · rw [outstanding_of_steady steady, nothing, available, List.nil_append]
  · rw [nothing]
    intro other taken
    cases taken
  · intro other returned
    rw [steady] at returned
    cases returned

/--
A bootstrap keeps custody.  The frames that are outstanding are no part of the
memory that is left, so the table manages none of them.
-/
theorem Custody.bootstrapped (custody : Custody range earlier turn.before)
    {rest : BumpRange} {leaked : Nat} {stack : FreeStack} (step : turn.step = .bootstrap)
    (answer : turn.answer = .done) (early : turn.before = ⟨.early (.bump rest), leaked⟩)
    (built : FramePool.Bootstrapped (.bump rest) stack)
    (ready : turn.after = ⟨.ready stack, leaked⟩) :
    Custody range (turn :: earlier) turn.after := by
  rcases turn with ⟨client, _, _, _, _⟩
  cases step
  cases answer
  cases early
  cases ready
  have aligned : rest.Aligned := by
    cases custody.sound with
    | early aligned => exact aligned
  rcases built.ready aligned leaked with ⟨sound, available, subset⟩
  have apart : ∀ frame ∈ outstanding earlier, ¬ stack.bounds.Manages frame := by
    intro frame member managed
    have listed := (TableBounds.mem_managed built.represents.fits).mpr managed
    rw [← available] at listed
    exact custody.not_available member (subset frame listed)
  constructor
  case sound => exact sound
  case distinct =>
    apply (custody.distinct.of_append_left).append sound.nodup_available
    intro frame member listed
    exact custody.not_available member (subset frame listed)
  case within =>
    intro frame member
    apply custody.within frame
    rcases List.mem_append.mp member with old | listed
    · exact List.mem_append_left _ old
    · exact List.mem_append_right _ (subset frame listed)
  case managed =>
    intro frame managed
    apply List.mem_append_right
    rw [available]
    exact (TableBounds.mem_managed built.represents.fits).mpr managed
  case origin =>
    intro latest member frame taken
    rcases List.mem_cons.mp member with rfl | old
    · cases taken
    · have unmanaged := apart frame (custody.kept latest old frame taken id)
      have before := custody.origin latest old frame taken
      constructor
      · intro managed
        exact absurd managed unmanaged
      · intro bootstrapped
        exact (before.mpr bootstrapped).elim
  case kept =>
    intro latest member frame taken _
    rcases List.mem_cons.mp member with rfl | old
    · cases taken
    · exact custody.kept latest old frame taken id
  case table =>
    intro bounds table
    cases table
    exact ⟨_, List.mem_cons_self, rfl, rfl, rest, rfl, built.first⟩

/-- Every turn keeps custody. -/
theorem Custody.follow (custody : Custody range earlier turn.before)
    (outcome : turn.Outcome) : Custody range (turn :: earlier) turn.after := by
  cases outcome with
  | granted grants steady => exact custody.granted grants steady
  | recovered nothing back freed managed missing recovers =>
      exact custody.recovered nothing back managed missing recovers
  | kept nothing steady sound territory available =>
      exact custody.unchanged nothing steady sound territory available
  | bootstrapped step answer early built ready =>
      exact custody.bootstrapped step answer early built ready

/--
An earlier turn made a table of the boot memory that was left, and the frame lies
past that table, within the range and within reach of the direct map.
-/
def PastTable (range : BumpRange) (earlier : List PoolTurn) (pool : FramePool)
    (frame : Frame) : Prop :=
  ∃ boot ∈ earlier, boot.step = .bootstrap ∧ boot.answer = .done ∧
    ∃ rest, boot.before.phase = .early (.bump rest) ∧
      rest.first.block.number + pool.footprintFrames ≤ frame.number ∧
      frame.number < range.last.block.number ∧
      (frame.number + 1) * pageSize ≤ directMapLimit

/-- What is true of the frames that a turn hands out after the earlier turns. -/
structure HandsOver (range : BumpRange) (earlier : List PoolTurn) (turn : PoolTurn) : Prop where
  /-- A run has as many frames as the client asked for. -/
  whole : ∀ count first, turn.step = .serve (.allocate count) → turn.answer = .frame first →
    turn.handedOut.map Block.number = List.range' first.number count
  /-- Nobody has any of the frames. -/
  fresh : ∀ frame ∈ turn.handedOut, frame ∉ outstanding earlier
  /-- After the bootstrap they lie where the table manages frames. -/
  placed : turn.before.isBootstrapped = true → ∀ frame ∈ turn.handedOut,
    PastTable range earlier turn.before frame
  /-- No frame is handed out in both phases. -/
  late : turn.before.isBootstrapped = true → ∀ stolen ∈ earlier,
    stolen.before.isBootstrapped = false → ∀ frame ∈ turn.handedOut, frame ∉ stolen.handedOut
  /--
  Since a frame was handed out the last time, a client gave it back, and was not
  refused, while it was outstanding.
  -/
  again : ∀ middle previous oldest, earlier = middle ++ previous :: oldest →
    ∀ frame ∈ turn.handedOut, frame ∈ previous.handedOut →
      ∃ newer freeing older, middle = newer ++ freeing :: older ∧
        freeing.freed? = some frame ∧ frame ∈ outstanding (older ++ previous :: oldest)

/-- After the bootstrap, what is available lies past the table. -/
theorem Custody.placed (custody : Custody range earlier turn.before) (aligned : range.Aligned)
    (bootstrapped : turn.before.isBootstrapped = true) (listed : frame ∈ turn.before.available) :
    PastTable range earlier turn.before frame := by
  have managed := (custody.sound.manages_iff_isBootstrapped listed).mpr bootstrapped
  have inside := custody.within frame (List.mem_append_right _ listed)
  cases found : turn.before.territory with
  | boot last =>
      rw [found] at managed
      exact managed.elim
  | table bounds =>
      rcases custody.table bounds found with ⟨boot, member, step, answer, rest, early, first⟩
      rcases FramePool.counters_of_table found with ⟨-, -, footprint⟩
      refine ⟨boot, member, step, answer, rest, early, ?_, ?_,
        custody.sound.mapped_of_manages managed⟩
      · rw [found] at managed
        rw [footprint, ← first]
        exact managed.1
      · exact (aligned.mem_remaining.mp inside).2

end PoolTurn

namespace SharedPool

open PoolTurn

variable {reachable : Frame → Bool} {turns : List PoolTurn} {state : SharedPool}
  {range : BumpRange}

/-- A run is a run after each of its turns. -/
theorem Runs.earlier {pool : FramePool} {later : List PoolTurn}
    (runs : Runs reachable pool (later ++ turns) state) :
    ∃ between, Runs reachable pool turns between := by
  induction later generalizing state with
  | nil => exact ⟨state, runs⟩
  | cons turn later induction =>
      rcases runs.latest with ⟨-, -, between, runs', -⟩
      exact induction runs'

/-- Custody holds throughout a run. -/
theorem Runs.custody (aligned : range.Aligned)
    (runs : Runs reachable (.new (.bump range)) turns state) :
    Custody range turns state.pool := by
  induction runs with
  | start => exact .start aligned
  | @call earlier state client call step answer after runs idle entered ran custody =>
      have latest := (Runs.call runs idle entered ran).latest
      exact Custody.follow custody (latest.1.outcome custody.sound)
  | @giveBack earlier state client frame answer after runs busy ran custody =>
      have latest := (Runs.giveBack runs busy ran).latest
      exact Custody.follow custody (latest.1.outcome custody.sound)

/-- What the latest turn of a run did. -/
theorem Runs.outcome (aligned : range.Aligned) {turn : PoolTurn}
    (runs : Runs reachable (.new (.bump range)) (turn :: turns) state) :
    turn.Outcome ∧ Custody range turns turn.before := by
  rcases runs.latest with ⟨ran, -, between, earlier, same⟩
  have custody := earlier.custody aligned
  rw [same] at custody
  exact ⟨ran.outcome custody.sound, custody⟩

/-- Before a frame is handed out again, a client gives it back. -/
theorem Runs.freed_between (aligned : range.Aligned) {middle oldest : List PoolTurn}
    {previous : PoolTurn} {frame : Frame}
    (runs : Runs reachable (.new (.bump range)) (middle ++ previous :: oldest) state)
    (taken : frame ∈ previous.handedOut)
    (gone : frame ∉ outstanding (middle ++ previous :: oldest)) :
    ∃ newer freeing older, middle = newer ++ freeing :: older ∧
      freeing.freed? = some frame ∧ frame ∈ outstanding (older ++ previous :: oldest) := by
  rcases recovered_between (mem_outstanding_of_handedOut taken) gone with
    ⟨newer, freeing, older, split, back, still⟩
  refine ⟨newer, freeing, older, split, ?_, still⟩
  rw [split, List.append_assoc, List.cons_append] at runs
  rcases runs.earlier with ⟨between, reached⟩
  exact (reached.outcome aligned).1.freed?_of_recovered back

/-- What is true of the frames that the latest turn hands out. -/
theorem Runs.handsOver (aligned : range.Aligned) {turn : PoolTurn}
    (runs : Runs reachable (.new (.bump range)) (turn :: turns) state) :
    HandsOver range turns turn := by
  rcases runs.latest with ⟨ran, -, between, earlier, -⟩
  rcases runs.outcome aligned with ⟨outcome, custody⟩
  have listed : ∀ frame ∈ turn.handedOut, frame ∈ turn.before.available := by
    intro frame taken
    rw [(outcome.grants_of_mem taken).available]
    exact List.mem_append_left _ taken
  have fresh : ∀ frame ∈ turn.handedOut, frame ∉ outstanding turns :=
    fun frame taken member => custody.not_available member (listed frame taken)
  constructor
  case whole => exact ran.whole
  case fresh => exact fresh
  case placed =>
    intro bootstrapped frame taken
    exact custody.placed aligned bootstrapped (listed frame taken)
  case late =>
    intro bootstrapped stolen member early frame taken repeated
    have managed :=
      (custody.sound.manages_iff_isBootstrapped (listed frame taken)).mpr bootstrapped
    have late := (custody.origin stolen member frame repeated).mp managed
    rw [early] at late
    cases late
  case again =>
    rintro middle previous oldest rfl frame taken repeated
    exact earlier.freed_between aligned repeated (fresh frame taken)

/--
No frame has two holders, in both phases of the pool.  In every run of clients
that share a pool over boot memory, the frames that are outstanding are distinct
and none of them is available; every frame that is handed out is a fresh one, in
the sense of `HandsOver`; and every step is answered.
-/
theorem outstanding_frames_distinct {first last : PhysAddr}
    (made : BumpRange.between first last = .ok range)
    (runs : Runs reachable (.new (.bump range)) turns state) :
    (outstanding turns ++ state.pool.available).Nodup ∧
      (∀ later turn earlier, turns = later ++ turn :: earlier →
        HandsOver range earlier turn) ∧
      ((∀ frame ∈ range.remaining, reachable frame = true) →
        ∀ step, ∃ answer after, PoolStep.run reachable state.pool step = .ok (answer, after)) := by
  have aligned := BumpRange.aligned_of_between made
  have custody := runs.custody aligned
  refine ⟨custody.distinct, ?_, ?_⟩
  · rintro later turn earlier rfl
    rcases runs.earlier with ⟨between, reached⟩
    exact reached.handsOver aligned
  · intro present step
    apply answers custody.sound
    intro frame listed
    exact present frame (custody.within frame (List.mem_append_right _ listed))

/--
Client 0 takes frame 1 before the bootstrap and gives it back after it.  Then it
gives back frame 3, which client 1 holds, and is handed out that frame.
-/
theorem outstanding_frames_distinct_after_stale_release :
    ∃ range turns state, BumpRange.between ⟨0x1000⟩ ⟨0x5000⟩ = .ok range ∧
      Runs (fun _ => true) (.new (.bump range)) turns state ∧
      turns.map PoolTurn.client = [0, 0, 1, 0, 1, 0] ∧
      turns.map PoolTurn.handedOut =
        [[⟨3, by decide⟩], [], [⟨3, by decide⟩], [], [], [⟨1, by decide⟩]] ∧
      (outstanding turns ++ state.pool.available).Nodup ∧
      (∀ later turn earlier, turns = later ++ turn :: earlier → HandsOver range earlier turn) ∧
      ∀ step, ∃ answer after,
        PoolStep.run (fun _ => true) state.pool step = .ok (answer, after) := by
  let first : Frame := ⟨1, by decide⟩
  let third : Frame := ⟨3, by decide⟩
  let reachable : Frame → Bool := fun _ => true
  let range : BumpRange := ⟨⟨0x1000⟩, ⟨0x5000⟩⟩
  let early : FramePool := .new (.bump ⟨⟨0x2000⟩, ⟨0x5000⟩⟩)
  let ready (entries : Array FrameEntry) (head : Option Nat) (free leaked : Nat) : FramePool :=
    ⟨.ready ⟨⟨2, by decide⟩, entries, 1, head, free⟩, leaked⟩
  let full := ready #[.allocated, .free (some 2), .free none] (some 1) 2
  let taken := ready #[.allocated, .allocated, .free none] (some 2) 1
  have made : BumpRange.between ⟨0x1000⟩ ⟨0x5000⟩ = .ok range := by decide +kernel
  have stolen : PoolStep.run reachable (.new (.bump range)) (.serve (.allocate 1)) =
      .ok (.frame first, early) := by decide +kernel
  have built : PoolStep.run reachable early .bootstrap = .ok (.done, full 0) := by
    decide +kernel
  have counted : PoolStep.run reachable (full 0) (.serve (.release first)) =
      .ok (.done, full 1) := by decide +kernel
  have popped : PoolStep.run reachable (full 1) (.serve .take) =
      .ok (.frame third, taken 1) := by decide +kernel
  have pushed : PoolStep.run reachable (taken 1) (.serve (.release third)) =
      .ok (.done, full 1) := by decide +kernel
  have regained : PoolStep.run reachable (full 1) (.serve (.allocate 1)) =
      .ok (.frame third, taken 1) := by decide +kernel
  have runs₁ := @Runs.call reachable _ _ _ 0 (.serve (.allocate 1)) _ _ _ .start rfl rfl stolen
  have runs₂ := @Runs.call reachable _ _ _ 1 .bootstrap _ _ _ runs₁ rfl rfl built
  have runs₃ := @Runs.call reachable _ _ _ 0 (.serve (.release first)) _ _ _ runs₂ rfl rfl counted
  have runs₄ := @Runs.call reachable _ _ _ 1 (.serve .take) _ _ _ runs₃ rfl rfl popped
  have runs₅ := @Runs.call reachable _ _ _ 0 (.serve (.release third)) _ _ _ runs₄ rfl rfl pushed
  have runs₆ := @Runs.call reachable _ _ _ 0 (.allocateKernel 1) _ _ _ runs₅ rfl rfl regained
  rcases outstanding_frames_distinct made runs₆ with ⟨distinct, handsOver, answers⟩
  refine ⟨range, _, _, made, runs₆, rfl, by decide +kernel, distinct, handsOver, answers ?_⟩
  intro _ _
  rfl

end SharedPool

end PagedMemory
