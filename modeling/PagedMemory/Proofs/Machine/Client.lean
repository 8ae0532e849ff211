import PagedMemory.Proofs.Machine.Ledger

/-!
# What clients do

Commands to the pool and to RAM concern only the frames that clients hold.  Each
of them settles these frames; entering the ready phase, which replaces the
available frames, is the one that has to be looked at on its own.
-/

namespace PagedMemory

open Memory

/-! ## Pool operations in memory -/

namespace Memory

variable {memory : Memory}

/-- Only the pool has changed, and the log names no other lost frame. -/
structure HasPool (before : Memory) (pool : FramePool) (after : Memory) : Prop where
  pool : after.pool = pool
  ram : after.ram = before.ram
  lostFrames : after.lostFrames = before.lostFrames

theorem onPool_ensures {ε α : Type} {operation : FramePool → Checked (Reply ε α)}
    {reply : Reply ε α} (replied : operation memory.pool = .ok reply) :
    Ensures (onPool operation) memory fun result after =>
      result = reply.result ∧ HasPool memory reply.pool after :=
  Ensures.of_eq (onPool_eq_ok.mpr ⟨reply, replied, rfl, rfl⟩)
    ⟨rfl, rfl, rfl, lostFrames_of_poolEvents reply.events memory.log⟩

theorem Exchange.of_grants {before after : Memory} {frames : List Frame}
    (granted : FramePool.Grants before.pool frames after.pool)
    (ram : after.ram = before.ram) : Exchange before [] after frames := by
  refine ⟨granted.sound, granted.territory, ?_, ?_, ?_⟩
  · rw [granted.available, List.append_nil]
    exact List.perm_append_comm
  · intro frame
    rw [ram]
  · intro frame _
    rw [ram]

end Memory

namespace PoolCommand

variable {memory : Memory} {held rest : List Frame}

/-- A command leaves clients with what they hold after its answer. -/
def Serves (command : PoolCommand) (memory : Memory) (held : List Frame) : Prop :=
  Ensures command.run memory fun answer after =>
    Settles memory held after (Ledger.heldAfter held (.pool command) answer) ∧
      after.lostFrames = memory.lostFrames

theorem settles_of_grants {before after : Memory} {frames : List Frame}
    (granted : FramePool.Grants before.pool frames after.pool)
    (ram : after.ram = before.ram) : Settles before held after (frames ++ held) :=
  .of_exchange ((Exchange.of_grants granted ram).beside held)

theorem settles_of_same {before after : Memory} (sound : before.pool.Sound)
    (same : HasPool before before.pool after) : Settles before held after held :=
  .of_exchange (.of_same sound same.pool same.ram held)

theorem serves_allocate (owns : memory.Owns (held ++ rest)) (count : Nat) :
    Serves (.allocate count) memory held := by
  rcases owns.sound.allocate count with ⟨refusal, refused⟩ | ⟨frame, pool, replied, granted⟩
  · refine (onPool_ensures refused).bind ?_
    rintro _ after ⟨rfl, same⟩
    exact Ensures.pure ⟨settles_of_same owns.sound same, same.lostFrames⟩
  · refine (onPool_ensures replied).bind ?_
    rintro _ after ⟨rfl, changed⟩
    have granted' : FramePool.Grants memory.pool (frame.run count) after.pool := by
      rw [changed.pool]
      exact granted
    exact Ensures.pure ⟨settles_of_grants granted' changed.ram, changed.lostFrames⟩

theorem serves_take (owns : memory.Owns (held ++ rest)) : Serves .take memory held := by
  refine (takeFrame_ensures owns.sound).bind ?_
  intro result after takes
  cases takes with
  | granted granted ram log grants =>
      refine Ensures.pure ⟨settles_of_grants granted ram, ?_⟩
      rw [Memory.lostFrames, log]
      rfl
  | refused pool ram log none spent =>
      refine Ensures.pure ⟨.of_exchange (.of_same owns.sound pool ram held), ?_⟩
      rw [Memory.lostFrames, log]
      rfl

/-- A frame that is held can be given back. -/
theorem settles_release (owns : memory.Owns (held ++ rest)) {frame : Frame}
    (member : frame ∈ held) :
    Ensures (releaseFrame frame) memory fun result after =>
      result = .ok () ∧ Settles memory held after (held.erase frame) ∧
        after.lostFrames = memory.lostFrames := by
  refine (releaseFrame_ensures owns.left member).imp ?_
  rintro result after ⟨rfl, gone, returns⟩
  have settles := (Settles.of_disposes returns.toDisposes).beside (held.erase frame)
  exact ⟨rfl, settles.of_perm_given (List.perm_cons_erase member).symm, returns.lostFrames⟩

theorem serves_release (owns : memory.Owns (held ++ rest)) {frame : Frame}
    (member : frame ∈ held) : Serves (.release frame) memory held := by
  refine (settles_release owns member).bind ?_
  rintro _ after ⟨rfl, settles, lostFrames⟩
  exact Ensures.pure ⟨settles, lostFrames⟩

theorem serves_releaseKernel (owns : memory.Owns (held ++ rest)) {pointer : VirtAddr}
    (permitted : ∀ frame, Ledger.kernelFrame? pointer = some frame → frame ∈ held) :
    Serves (.releaseKernel pointer) memory held := by
  cases physical : pointer.toPhysical? with
  | none =>
      have refused : memory.pool.releaseKernel pointer =
          .ok ⟨.error (.notDirectMapped pointer), memory.pool, []⟩ := by
        simp only [FramePool.releaseKernel, physical]
        rfl
      refine (onPool_ensures refused).bind ?_
      rintro _ after ⟨rfl, same⟩
      exact Ensures.pure ⟨settles_of_same owns.sound same, same.lostFrames⟩
  | some address =>
      have kernelFrame : Ledger.kernelFrame? pointer = some address.block := by
        rw [Ledger.kernelFrame?, physical, Option.map_some]
      have same : (onPool fun pool => pool.releaseKernel pointer) =
          releaseFrame address.block := by
        simp only [releaseFrame, FramePool.releaseKernel, physical]
      have released := settles_release owns (permitted _ kernelFrame)
      rw [← same] at released
      refine released.bind ?_
      rintro _ after ⟨rfl, settles, lostFrames⟩
      refine Ensures.pure ⟨?_, lostFrames⟩
      simpa only [Answer.ofResult, Ledger.heldAfter, kernelFrame, Option.elim_some] using settles

/--
A run beyond the direct map is given back by its first frame.  That happens in
the early phase only, where nothing becomes available again.
-/
theorem returns_of_unreachable {before after : FramePool} {frames : List Frame}
    {frame : Frame} (sound : before.Sound) (granted : FramePool.Grants before frames after)
    (available : frame ∈ before.available) (unreachable : frame.base.toKernel? = none) :
    ∃ pool events, after.release frame = .ok ⟨.ok (), pool, events⟩ ∧ pool.Sound ∧
      pool.territory = before.territory ∧ pool.available = after.available ∧
      ∀ other, ¬ before.territory.Manages other := by
  have reached : before.territory.Manages frame → frame.base.toKernel? ≠ none :=
    sound.toKernel?_of_manages
  cases sound with
  | @ready stack leaked represents mapped =>
      exact absurd unreachable (reached (represents.manages frame available))
  | @early range leaked aligned =>
      have territory := granted.territory
      have sound := granted.sound
      cases sound with
      | ready represents mapped => cases territory
      | @early range' leaked' aligned' =>
          exact ⟨⟨.early (.bump range'), leaked' + 1⟩, _, rfl, .early aligned', territory, rfl,
            fun _ managed => managed⟩

theorem kernelFrame?_of_toKernel? {frame : Frame} {pointer : VirtAddr}
    (reached : frame.base.toKernel? = some pointer) :
    Ledger.kernelFrame? pointer = some frame := by
  have physical : pointer.toPhysical? = some frame.base :=
    Address.toPhysical?_eq_some_iff.mpr (Address.toKernel?_eq_some_iff.mp reached)
  rw [Ledger.kernelFrame?, physical, Option.map_some, Block.block_base]

theorem serves_allocateKernel (owns : memory.Owns (held ++ rest)) (count : Nat) :
    Serves (.allocateKernel count) memory held := by
  rcases owns.sound.allocate count with ⟨refusal, refused⟩ | ⟨frame, pool, replied, granted⟩
  · have refused' : memory.pool.allocateKernel count =
        .ok ⟨.error refusal, memory.pool, []⟩ := by
      simp only [FramePool.allocateKernel, refused, bind, Except.bind]
      rfl
    refine (onPool_ensures refused').bind ?_
    rintro _ after ⟨rfl, same⟩
    exact Ensures.pure ⟨settles_of_same owns.sound same, same.lostFrames⟩
  · cases reached : frame.base.toKernel? with
    | some pointer =>
        have replied' : memory.pool.allocateKernel count = .ok ⟨.ok pointer, pool, []⟩ := by
          simp only [FramePool.allocateKernel, replied, bind, Except.bind, reached]
          rfl
        refine (onPool_ensures replied').bind ?_
        rintro _ after ⟨rfl, changed⟩
        have granted' : FramePool.Grants memory.pool (frame.run count) after.pool := by
          rw [changed.pool]
          exact granted
        refine Ensures.pure ⟨?_, changed.lostFrames⟩
        simpa only [Answer.ofResult, Ledger.heldAfter, kernelFrame?_of_toKernel? reached,
          Option.elim_some] using settles_of_grants granted' changed.ram
    | none =>
        have positive : 0 < count := by
          apply Nat.pos_of_ne_zero
          rintro rfl
          cases replied
        have first : frame ∈ memory.pool.available := by
          rw [granted.available]
          apply List.mem_append_left
          exact List.mem_filterMap.mpr
            ⟨0, List.mem_range.mpr positive, Block.add?_zero frame⟩
        rcases returns_of_unreachable owns.sound granted first reached with
          ⟨final, events, released, sound, territory, available, unmanaged⟩
        have refused : memory.pool.allocateKernel count =
            .ok ⟨.error (.notDirectMapped frame.base), final, [] ++ events ++ []⟩ := by
          simp only [FramePool.allocateKernel, replied, bind, Except.bind, reached, released]
          rfl
        refine (onPool_ensures refused).bind ?_
        rintro _ after ⟨rfl, changed⟩
        have exchange : Exchange memory [] after (frame.run count) := by
          refine ⟨?_, ?_, ?_, ?_, ?_⟩
          · rw [changed.pool]
            exact sound
          · rw [changed.pool]
            exact territory
          · rw [changed.pool, available, granted.available, List.append_nil]
            exact List.perm_append_comm
          · intro other
            rw [changed.ram]
          · intro other _
            rw [changed.ram]
        exact Ensures.pure ⟨⟨frame.run count, exchange.beside held,
          fun other _ => unmanaged other⟩, changed.lostFrames⟩

/-- Every permitted command but the bootstrap settles the frames of clients. -/
theorem serves_of_permits {ledger : Ledger} {command : PoolCommand}
    (owns : ledger.memory.Owns (ledger.held ++ rest)) (permitted : ledger.PermitsPool command)
    (steady : command ≠ .bootstrap) : Serves command ledger.memory ledger.held := by
  cases command with
  | bootstrap => exact absurd rfl steady
  | allocate count => exact serves_allocate owns count
  | release frame => exact serves_release owns permitted
  | allocateKernel count => exact serves_allocateKernel owns count
  | releaseKernel pointer => exact serves_releaseKernel owns permitted
  | take => exact serves_take owns
  | statistics =>
      exact Ensures.of_eq rfl ⟨.of_exchange (.refl owns.sound ledger.held), rfl⟩
  | allow requests =>
      have limited : Exchange ledger.memory ledger.held
          { ledger.memory with allowance := requests } ledger.held := by
        apply Exchange.of_same owns.sound
        · rfl
        · rfl
      exact Ensures.of_eq rfl ⟨.of_exchange limited, rfl⟩
  | drain keep => exact permitted.elim
  | copyEntry source target => exact permitted.elim

/-! ## Entering the ready phase -/

/-- A bootstrap is refused, or the boot memory that is left becomes a table. -/
theorem bootstrap_ensures (owns : memory.Owns rest) :
    Ensures PoolCommand.bootstrap.run memory fun _ after =>
      HasPool memory memory.pool after ∨
        ∃ range leaked stack, memory.pool = ⟨.early (.bump range), leaked⟩ ∧
          FramePool.Bootstrapped (.bump range) stack ∧
          HasPool memory ⟨.ready stack, leaked⟩ after := by
  apply Ensures.get_then
  have sound := owns.sound
  generalize found : memory.pool = pool at sound
  cases sound with
  | @ready stack leaked represents mapped =>
      have refused : memory.pool.bootstrap memory.ram.holds =
          .ok ⟨.error .alreadyBootstrapped, memory.pool, []⟩ := by
        rw [found]
        rfl
      refine (onPool_ensures refused).bind ?_
      rintro _ after ⟨rfl, same⟩
      rw [found] at same
      exact Ensures.pure (Or.inl same)
  | @early range leaked aligned =>
      rcases FramePool.bootstrap_early (.bump range) leaked memory.ram.holds with
        ⟨refusal, events, refused⟩ | ⟨stack, events, bootstrapped, built⟩
      · rw [← found] at refused
        refine (onPool_ensures refused).bind ?_
        rintro _ after ⟨rfl, same⟩
        rw [found] at same
        exact Ensures.pure (Or.inl same)
      · have reachable : memory.ram.holds stack.first = true := by
          apply owns.held_of_available
          rw [found]
          exact bootstrapped.first_mem_remaining aligned
        rw [← found, Checked.require_of reachable] at built
        refine (onPool_ensures built).bind ?_
        rintro _ after ⟨rfl, changed⟩
        exact Ensures.pure (Or.inr ⟨range, leaked, stack, rfl, bootstrapped, changed⟩)

/-- What a bootstrap changes for the frames that are outstanding: nothing. -/
theorem owns_of_bootstrapped {after : Memory} {range : BumpRange} {leaked : Nat}
    {stack : FreeStack} (owns : memory.Owns rest)
    (early : memory.pool = ⟨.early (.bump range), leaked⟩)
    (bootstrapped : FramePool.Bootstrapped (.bump range) stack)
    (changed : HasPool memory ⟨.ready stack, leaked⟩ after) :
    after.Owns rest ∧
      (∀ frame ∈ after.pool.available, frame ∈ memory.pool.available) ∧
      ∀ frame, after.pool.territory.Manages frame → frame ∈ after.pool.available := by
  have fits := bootstrapped.represents.fits
  have sound := owns.sound
  rw [early] at sound
  cases sound with
  | early aligned =>
      have entered := bootstrapped.ready aligned leaked
      rw [← changed.pool] at entered
      rcases entered with ⟨ready, available, within⟩
      have subset : ∀ frame ∈ after.pool.available, frame ∈ memory.pool.available := by
        rw [early]
        exact within
      refine ⟨⟨ready, ?_, ?_, ?_⟩, subset, ?_⟩
      · rw [available]
        refine (TableBounds.nodup_managed fits).append owns.nodup ?_
        intro frame member repeated
        rw [← available] at member
        exact owns.not_available repeated (subset frame member)
      · intro frame member
        rw [changed.ram]
        rcases List.mem_append.mp member with new | old
        · exact owns.held_of_available (subset frame new)
        · exact owns.held_of_mem old
      · intro frame member
        have accepted := owns.accepted frame member
        have taken := owns.not_available member
        rw [early] at accepted taken
        have low : ¬ (range.first.block.number ≤ frame.number ∧
            frame.number < range.last.block.number) :=
          fun inside => taken (aligned.mem_remaining.mpr inside)
        have bounded : frame.number < range.last.block.number := accepted
        have first : stack.first = range.first.block := bootstrapped.first
        rw [changed.pool]
        apply Or.inl
        change frame.number < stack.first.number
        rw [first]
        omega
      · intro frame managed
        rw [changed.pool] at managed
        rw [available]
        exact (TableBounds.mem_managed fits).mpr managed

end PoolCommand

/-! ## RAM -/

namespace RamCommand

variable {memory : Memory} {held rest : List Frame}

theorem wordIndex_lt {kind : AddressKind} (address : Address kind) :
    wordIndex address < slotsPerTable := by
  have bounded := address.offset_lt
  simp only [wordIndex, slotsPerTable, pageSize] at *
  omega

/-- A frame that was written is still held, and so are the others. -/
theorem settles_of_writes {before after : Memory} {frame : Frame} {contents : FrameContents}
    (sound : before.pool.Sound) (member : frame ∈ held)
    (writes : Writes before frame contents after) :
    Settles before held after held ∧ after.lostFrames = before.lostFrames := by
  refine ⟨.of_exchange (.of_writes sound writes (List.mem_append_right _ member)), ?_⟩
  rw [Memory.lostFrames, writes.log]
  rfl

/-- Clients read RAM and write the frames that they hold. -/
theorem serves_of_permits {ledger : Ledger} {command : RamCommand}
    (owns : ledger.memory.Owns (ledger.held ++ rest)) (permitted : ledger.PermitsRam command) :
    Ensures command.run ledger.memory fun _ after =>
      Settles ledger.memory ledger.held after ledger.held ∧
        after.lostFrames = ledger.memory.lostFrames := by
  have unchanged : Settles ledger.memory ledger.held ledger.memory ledger.held :=
    .of_exchange (.refl owns.sound ledger.held)
  cases command with
  | fill frame byte =>
      refine (fillFrame_ensures (owns.left.held_of_mem permitted) byte).bind ?_
      intro _ after writes
      exact Ensures.pure (settles_of_writes owns.sound permitted writes)
  | zero frame =>
      refine (zeroFrame_ensures (owns.left.held_of_mem permitted)).bind ?_
      intro _ after writes
      exact Ensures.pure (settles_of_writes owns.sound permitted writes)
  | copy source target =>
      rcases permitted with ⟨readable, apart, member⟩
      refine (copyFrame_ensures apart readable (owns.left.held_of_mem member)).bind ?_
      intro _ after writes
      exact Ensures.pure (settles_of_writes owns.sound member writes)
  | peek address =>
      refine (readWord_ensures permitted (wordIndex_lt address)).bind ?_
      rintro word after ⟨rfl, -⟩
      exact Ensures.pure ⟨unchanged, rfl⟩
  | poke address word =>
      refine (writeWord_ensures (owns.left.held_of_mem permitted) (wordIndex_lt address)
        word).bind ?_
      intro _ after writes
      exact Ensures.pure (settles_of_writes owns.sound permitted writes)
  | hash frame =>
      refine (contents_ensures permitted).bind ?_
      rintro found after ⟨rfl, -⟩
      exact Ensures.pure ⟨unchanged, rfl⟩

end RamCommand

end PagedMemory
