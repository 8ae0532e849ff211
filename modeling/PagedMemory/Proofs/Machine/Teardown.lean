import PagedMemory.Proofs.Machine.Conservation
import PagedMemory.Proofs.Space.ReleaseOrder

/-!
# Spaces that hold frames of others

Nobody checks whose frame is put behind a page: it may belong to a client, lie
past the end of RAM, be part of the frame table, or stand behind several pages.
The tables themselves are out of reach of such a mistake, so the space stays live
and can be torn down.

The pool may then reject frames.  Nothing is skipped for that and nothing is given
back twice, and the outcome names the first rejection.
-/

namespace PagedMemory

open Memory

namespace AddressSpace

variable {memory : Memory} {space : AddressSpace}

/-- Putting any frame behind any address leaves the tables in order. -/
theorem attach_keeps_skeleton (skeleton : memory.ram.Skeleton space.root) (address : VirtAddr)
    (frame : Frame) :
    Ensures (space.attach address frame) memory fun _ after =>
      after.ram.Skeleton space.root ∧ after.pool = memory.pool := by
  refine (attach_attempts_of_skeleton skeleton address frame).imp ?_
  intro outcome after attempts
  cases attempts with
  | written named unmapped writes =>
      exact ⟨skeleton.put named (Page.tableIndex_lt _) writes.replaced, writes.pool⟩
  | undeclared absent => exact ⟨skeleton, rfl⟩
  | alreadyBacked named backed => exact ⟨skeleton, rfl⟩

theorem mapM_attach_keeps_skeleton (skeleton : memory.ram.Skeleton space.root)
    (entries : List (VirtAddr × Frame)) :
    Ensures (entries.mapM fun entry => space.attach entry.1 entry.2) memory fun _ after =>
      after.ram.Skeleton space.root ∧ after.pool = memory.pool := by
  induction entries generalizing memory with
  | nil => exact Ensures.pure ⟨skeleton, rfl⟩
  | cons entry rest induction =>
      rw [List.mapM_cons]
      refine (attach_keeps_skeleton skeleton entry.1 entry.2).bind ?_
      rintro outcome between ⟨kept, same⟩
      refine (induction kept).bind ?_
      rintro outcomes after ⟨kept', same'⟩
      exact Ensures.pure ⟨kept', same'.trans same⟩

end AddressSpace

/-- A space of a run stays live, whatever frames are put behind its pages. -/
theorem Ledger.live_of_attached {machine : Machine} {ledger : Ledger} (fresh : machine.Fresh)
    (reached : ownership.Reaches (start machine) ledger) {name : Nat} {space : AddressSpace}
    (found : ledger.machine.spaces.find? name = some space)
    (entries : List (VirtAddr × Frame)) :
    Ensures (entries.mapM fun entry => space.attach entry.1 entry.2) ledger.memory
      fun _ after => space.Live after := by
  have balanced := (fresh.balanced.of_reaches reached).1
  have sound := balanced.sound_of_found found
  refine (AddressSpace.mapM_attach_keeps_skeleton sound.tree.skeleton entries).imp ?_
  rintro outcomes after ⟨skeleton, same⟩
  refine ⟨sound.live, skeleton.heldRoot, skeleton.held, ?_⟩
  rw [same]
  exact balanced.owns.sound.bounded

namespace AddressSpace

variable {memory : Memory} {space : AddressSpace}

/--
Destroying a space gives back the data frames of each table and then the table, in
ascending order of slots, and the root at the end.  Nothing else is given back, and
no rejection is passed over: the outcome names the first one.  Reserved frames are
counted and not rejected; frames that the pool has handed out become free again.
Letting the space go without asking does the same to the pool, and after a teardown
it does nothing.
-/
theorem destroy_gives_each_frame_back_once (live : space.Live memory) :
    let order := ((List.range slotsPerTable).filterMap (memory.ram.slot space.root)).flatMap
      (fun table => (List.range slotsPerTable).filterMap (memory.ram.slot table) ++ [table]) ++
        [space.root]
    ∃ results after outcome, order.mapM releaseFrame memory = .ok (results, after) ∧
      space.destroy memory = .ok (outcome, { after with
        log := .spaceDestroyed space.root (memory.ram.backing space.root).length :: after.log }) ∧
      (outcome = .ok () ↔ ∀ result ∈ results, result = .ok ()) ∧
      (∀ refusal, outcome = .error refusal ↔
        ∃ earlier cause later, results = earlier ++ .error cause :: later ∧
          (∀ result ∈ earlier, result = .ok ()) ∧ refusal = .invariant (.frameRelease cause)) ∧
      List.Forall₂ (fun frame result =>
        memory.pool.Reserves frame = true → result = .ok ()) order results ∧
      after.pool.leakedFrees = memory.pool.leakedFrees + order.countP memory.pool.Reserves ∧
      (memory.pool.isBootstrapped = false → ∀ frame, memory.pool.Reserves frame = true) ∧
      (∃ log, space.discard memory = .ok ((), { after with log })) ∧
      (∃ spent between, space.teardown memory = .ok ((outcome, spent), between) ∧
        ∀ later, spent.discard later = .ok ((), later)) ∧
      (memory.pool.Sound → order.Nodup →
        (∀ frame ∈ order,
          memory.pool.territory.Manages frame ∧ frame ∉ memory.pool.available) →
        outcome = .ok () ∧ after.pool.leakedFrees = memory.pool.leakedFrees ∧
          after.pool.available = order.reverse ++ memory.pool.available ∧
          after.pool.freeFrames = memory.pool.freeFrames + order.length) := by
  intro order
  have walk : memory.ram.reach space.root = order := memory.ram.reach_eq_ascending space.root
  rcases mapM_releaseFrame_answers live.pool order with ⟨results, after, released, gives⟩
  have walked := released
  rw [← walk] at walked
  refine ⟨results, after, _, released, live.destroy_eq walked, Teardown.report_eq_ok_iff,
    fun _ => Teardown.report_eq_error_iff, gives.reserved, gives.leakedFrees,
    FramePool.reserves_of_early, live.discard_eq walked,
    ⟨_, _, live.teardown_eq walked, fun later => discard_of_released rfl⟩, ?_⟩
  intro sound distinct owned
  rcases mapM_releaseFrame_recovers sound distinct owned with
    ⟨_, _, again, clear, soundAfter, territory, leakedFrees, available⟩
  rw [released] at again
  cases again
  have managed := (owned space.root (List.mem_append_right _ List.mem_cons_self)).1
  have managed' : after.pool.territory.Manages space.root := by
    rw [territory]
    exact managed
  refine ⟨Teardown.report_eq_ok_iff.mpr clear, leakedFrees, available, ?_⟩
  rw [sound.freeFrames_eq (FramePool.isBootstrapped_of_manages managed),
    soundAfter.freeFrames_eq (FramePool.isBootstrapped_of_manages managed'), available,
    List.length_append, List.length_reverse]
  omega

/--
Behind its pages the space has a frame of a client, one past the end of RAM, one of
the frame table, the first one again and its own table.
-/
theorem destroy_gives_each_frame_back_once_past_rejections :
    let commands : List Command := [
      .create 0,
      .change 0 (.declare ⟨0x400000⟩ 0x5000 ⟨6⟩ .available),
      .pool .take]
    let entries : List (VirtAddr × Frame) := [
      (⟨0x400000⟩, ⟨4, by decide⟩),
      (⟨0x401000⟩, ⟨0x500, by decide⟩),
      (⟨0x402000⟩, ⟨1, by decide⟩),
      (⟨0x403000⟩, ⟨4, by decide⟩),
      (⟨0x404000⟩, ⟨3, by decide⟩)]
    ∃ ledger space outcomes memory after,
      Ledger.ownership.follow (Ledger.start Machine.eightFrames) commands = some ledger ∧
      ledger.machine.spaces.find? 0 = some space ∧
      entries.mapM (fun entry => space.attach entry.1 entry.2) ledger.memory =
        .ok (outcomes, memory) ∧
      space.destroy memory =
        .ok (.error (.invariant (.frameRelease (.outOfRange ⟨0x500000⟩))), after) ∧
      after.pool.leakedFrees = 1 := by
  intro commands entries
  have outcome : (Ledger.ownership.follow (Ledger.start Machine.eightFrames) commands).bind
      (fun ledger => (ledger.machine.spaces.find? 0).bind fun space =>
        ((entries.mapM fun entry => space.attach entry.1 entry.2) ledger.memory).toOption.bind
          fun attached =>
            let words (frame : Frame) :=
              (attached.2.ram.contentsOf frame).words.toList.filterMap fun word =>
                (TableWord.mk word).frame?
            let order := (words space.root).flatMap (fun table => words table ++ [table]) ++
              [space.root]
            ((order.mapM releaseFrame) attached.2).toOption.map fun released =>
              (released.1, released.2.pool.leakedFrees)) =
      some ([.ok (), .error (.outOfRange ⟨0x500000⟩), .ok (), .error (.doubleFree ⟨0x4000⟩), .ok (),
        .error (.doubleFree ⟨0x3000⟩), .ok ()], 1) := by
    decide +kernel
  rcases Option.bind_eq_some_iff.mp outcome with ⟨ledger, followed, outcome⟩
  rcases Option.bind_eq_some_iff.mp outcome with ⟨space, found, outcome⟩
  have fresh : Machine.eightFrames.Fresh := .bootstrapped Machine.starts_eightFrames
  rcases Ledger.live_of_attached fresh (Regime.reaches_of_follow followed) found entries with
    ⟨outcomes, memory, attached, live⟩
  rw [attached] at outcome
  rcases destroy_gives_each_frame_back_once live with
    ⟨results, after, ended, released, destroyed, -, rejected, -⟩
  simp only [Ram.filterMap_slot_eq_words] at released
  dsimp only [Except.toOption, Option.bind] at outcome
  rw [released] at outcome
  rcases Prod.mk.inj (Option.some.inj outcome) with ⟨answers, leaked⟩
  dsimp only at answers leaked
  have first : ended = .error (.invariant (.frameRelease (.outOfRange ⟨0x500000⟩))) := by
    apply (rejected _).mpr
    refine ⟨[.ok ()], _, _, answers, ?_, rfl⟩
    simp
  subst first
  exact ⟨ledger, space, outcomes, memory, _, followed, found, attached, destroyed, leaked⟩

end AddressSpace

end PagedMemory
