import PagedMemory.Proofs.Frames.History

/-!
# What becomes of a bootstrap

What a bootstrap does is decided by the boot memory that is left when it is called.  It
is refused for the first of these reasons that holds: there is a table already, a bound
is no frame boundary, no memory is within reach of the direct map, or the table would
take up all there is.  A refused bootstrap changes nothing.

Otherwise there is a table, which takes up no more frames than its entries need, and
every frame past it is free.  The free frames are handed out in ascending order.
-/

namespace PagedMemory

/-! ## Handing out what a stock has -/

/-- Frames are handed out one by one, and when there are none left, that is the answer. -/
theorem Stock.serveAll_allocate (stock : Stock) (count : Nat) :
    (stock.serveAll (List.replicate count (.allocate 1))).1 =
      (stock.frames.take count).map .frame ++
        List.replicate (count - stock.frames.length) (.refused (.allocate .outOfMemory)) := by
  induction count generalizing stock with
  | zero =>
      rw [Nat.zero_sub]
      rfl
  | succ count induction =>
      obtain ⟨bounds, frames, leaked⟩ := stock
      cases frames with
      | nil =>
          have rest := induction ⟨bounds, [], leaked⟩
          simp only [List.take_nil, List.map_nil, List.nil_append, List.length_nil,
            Nat.sub_zero] at rest ⊢
          exact congrArg (.refused (.allocate .outOfMemory) :: ·) rest
      | cons frame others =>
          have rest := induction ⟨bounds, others, leaked⟩
          simp only [List.take_succ_cons, List.map_cons, List.cons_append, List.length_cons,
            Nat.add_sub_add_right]
          exact congrArg (.frame frame :: ·) rest

namespace BootMemory

variable {memory rest : BootMemory} {reachable : Frame → Bool}

/-- The second memory is what is left of the first one. -/
structure LeftOf (memory rest : BootMemory) : Prop where
  last : rest.usableRange.2 = memory.usableRange.2
  first : memory.usableRange.1.block.number ≤ rest.usableRange.1.block.number

/-- As far as the direct map reaches, the frames of the memory are there. -/
def Present (reachable : Frame → Bool) (memory : BootMemory) : Prop :=
  ∀ frame : Frame, memory.usableRange.1.block.number ≤ frame.number →
    frame.number < memory.usableRange.2.block.number →
    frame.base.toNat < directMapLimit → reachable frame = true

theorem LeftOf.refl (memory : BootMemory) : memory.LeftOf memory :=
  ⟨rfl, Nat.le_refl _⟩

theorem LeftOf.trans {last : BootMemory} (left : memory.LeftOf rest) (later : rest.LeftOf last) :
    memory.LeftOf last :=
  ⟨later.last.trans left.last, Nat.le_trans left.first later.first⟩

theorem LeftOf.present (left : memory.LeftOf rest) (present : memory.Present reachable) :
    rest.Present reachable := by
  intro frame above below reached
  rw [left.last] at below
  exact present frame (Nat.le_trans left.first above) below reached

/-- The first frame of a table is there if the memory is. -/
theorem Present.reachable_first {total : Nat} (present : memory.Present reachable)
    (granted : memory.verdict = .ok total) :
    reachable memory.usableRange.1.block = true := by
  obtain ⟨several, built⟩ := FramePool.bootstrapped_of_verdict granted
  have mapped := built.mapped
  have below := built.below
  rw [FreeStack.total_fresh] at mapped below
  simp only [FreeStack.fresh] at mapped below
  apply present _ (Nat.le_refl _)
  · omega
  · rw [Block.toNat_base]
    simp only [pageSize] at *
    omega

end BootMemory

namespace FramePool

variable {memory : BootMemory} {leaked : Nat} {reachable : Frame → Bool} {pool after : FramePool}

/-! ## The early phase -/

theorem HandsOut.leaves {count : Nat} {result : Except AllocateError Frame}
    (handsOut : HandsOut ⟨.early memory, leaked⟩ count result after) :
    ∃ rest, after = ⟨.early rest, leaked⟩ ∧ memory.LeftOf rest := by
  cases handsOut with
  | refused reached => exact ⟨memory, rfl, .refl memory⟩
  | @stolen range rest leaked frame early stolen =>
      cases early
      have steals := BumpRange.steals_of_steal stolen
      refine ⟨.bump rest, rfl, steals.last, ?_⟩
      have advanced := steals.advanced
      rw [steals.lowest] at advanced
      exact Nat.le_trans (Nat.le_add_right _ _) (Nat.le_of_eq advanced.symm)
  | popped ready single popped => cases ready

/-- In the early phase every request is answered, and boot memory stays boot memory. -/
theorem serve_early (memory : BootMemory) (leaked : Nat) (request : FrameRequest) :
    ∃ answer rest leaked', serve ⟨.early memory, leaked⟩ request =
        .ok (answer, ⟨.early rest, leaked'⟩) ∧ memory.LeftOf rest := by
  cases request with
  | allocate count =>
      obtain ⟨reply, allocated⟩ : ∃ reply, allocate ⟨.early memory, leaked⟩ count = .ok reply := by
        unfold allocate
        split
        · exact ⟨_, rfl⟩
        · exact ⟨_, rfl⟩
      obtain ⟨rest, left, leftOf⟩ := (handsOut_of_allocate allocated).leaves
      refine ⟨.ofResult .allocate .frame reply.result, rest, leaked, ?_, leftOf⟩
      rw [← left]
      exact Checked.bind_eq_ok.mpr ⟨reply, allocated, rfl⟩
  | take =>
      obtain ⟨reply, taken⟩ : ∃ reply, take ⟨.early memory, leaked⟩ = .ok reply := ⟨_, rfl⟩
      obtain ⟨rest, left, leftOf⟩ := (handsOut_of_take taken).leaves
      refine ⟨.ofResult .take .frame reply.result, rest, leaked, ?_, leftOf⟩
      rw [← left]
      exact Checked.bind_eq_ok.mpr ⟨reply, taken, rfl⟩
  | release frame => exact ⟨_, memory, leaked + 1, rfl, .refl memory⟩

/-- A bootstrap over memory that is refused changes nothing. -/
theorem bootstrap_of_refused {refusal : BootstrapError} (refused : memory.verdict = .error refusal)
    (leaked : Nat) (reachable : Frame → Bool) :
    ∃ events, bootstrap ⟨.early memory, leaked⟩ reachable =
      .ok ⟨.error refusal, ⟨.early memory, leaked⟩, events⟩ := by
  obtain ⟨events, replied⟩ := bootstrap_by_verdict memory leaked reachable
  rw [refused] at replied
  exact ⟨events, replied⟩

theorem bootstrap_of_granted {total : Nat} (present : memory.Present reachable)
    (granted : memory.verdict = .ok total) (leaked : Nat) :
    ∃ events, bootstrap ⟨.early memory, leaked⟩ reachable =
      .ok ⟨.ok (), ⟨.ready (.fresh memory.usableRange.1.block total), leaked⟩, events⟩ := by
  obtain ⟨events, replied⟩ := bootstrap_by_verdict memory leaked reachable
  rw [granted] at replied
  simp only [Checked.require_of (present.reachable_first granted), bind, Except.bind] at replied
  exact ⟨events, replied⟩

/-! ## What calls make of boot memory -/

/-- A pool over what is left of some boot memory, or one that has a table. -/
inductive DescendsFrom (memory : BootMemory) : FramePool → Prop where
  | early {rest : BootMemory} {leaked : Nat} (left : memory.LeftOf rest) :
      DescendsFrom memory ⟨.early rest, leaked⟩
  | ready {stack : FreeStack} {leaked : Nat} (sound : Sound ⟨.ready stack, leaked⟩) :
      DescendsFrom memory ⟨.ready stack, leaked⟩

theorem DescendsFrom.serve (descends : DescendsFrom memory pool) (request : FrameRequest) :
    ∃ answer after, pool.serve request = .ok (answer, after) ∧ DescendsFrom memory after := by
  cases descends with
  | @early rest leaked left =>
      obtain ⟨answer, last, leaked', served, later⟩ := serve_early rest leaked request
      exact ⟨answer, _, served, .early (left.trans later)⟩
  | @ready stack leaked sound =>
      obtain ⟨answer, after, served, -⟩ := PoolTurn.serves sound 0 request
      obtain ⟨stack', same, -⟩ := ready_of_table (territory_of_serve served)
      have sound' := sound.serve served
      rw [same] at served sound'
      exact ⟨answer, _, served, .ready sound'⟩

/-- Where the memory is there, every step is answered. -/
theorem DescendsFrom.step (descends : DescendsFrom memory pool)
    (present : memory.Present reachable) (step : PoolStep) :
    ∃ answer after, step.run reachable pool = .ok (answer, after) ∧
      DescendsFrom memory after := by
  cases step with
  | serve request => exact descends.serve request
  | giveBack frame => exact descends.serve (.release frame)
  | bootstrap =>
      cases descends with
      | ready sound => exact ⟨_, _, rfl, .ready sound⟩
      | @early rest leaked left =>
          cases verdict : rest.verdict with
          | error refusal =>
              obtain ⟨events, replied⟩ := bootstrap_of_refused verdict leaked reachable
              exact ⟨_, _, Checked.bind_eq_ok.mpr ⟨_, replied, rfl⟩, .early left⟩
          | ok total =>
              obtain ⟨events, replied⟩ :=
                bootstrap_of_granted (left.present present) verdict leaked
              have built := (bootstrapped_of_verdict verdict).2
              exact ⟨_, _, Checked.bind_eq_ok.mpr ⟨_, replied, rfl⟩,
                .ready (Sound.of_represents built.represents built.mapped leaked).1⟩

/-! ## What a new table is good for -/

/-- A table over a number of frames from a first one on, and nothing is handed out yet. -/
structure StartsOver (reachable : Frame → Bool) (first : Frame) (total : Nat)
    (pool : FramePool) : Prop where
  totalFrames : pool.totalFrames = total
  /-- The table takes up enough frames of 4096 bytes for its entries of 8 bytes each. -/
  room : total * 8 ≤ pool.footprintFrames * 4096
  /-- With one frame less it would not. -/
  least : (pool.footprintFrames - 1) * 4096 < total * 8
  footprint_lt : pool.footprintFrames < total
  freeFrames : pool.freeFrames = total - pool.footprintFrames
  /-- The frames past the table are handed out in ascending order, each one once. -/
  drains : ∃ frames : List Frame,
    frames.map Block.number =
      List.range' (first.number + pool.footprintFrames) (total - pool.footprintFrames) ∧
    ∀ count, ∃ last, pool.serveAll (List.replicate count (.allocate 1)) =
      .ok ((frames.take count).map .frame ++
        List.replicate (count - frames.length) (.refused (.allocate .outOfMemory)), last)
  /-- Whatever happens to the pool, there is no second bootstrap. -/
  once : ∀ acts answers later, pool.runAll reachable acts = .ok (answers, later) →
    later.bootstrap reachable = .ok ⟨.error .alreadyBootstrapped, later, []⟩

theorem startsOver_fresh {total : Nat} (granted : memory.verdict = .ok total) (leaked : Nat)
    (reachable : Frame → Bool) :
    StartsOver reachable memory.usableRange.1.block total
      ⟨.ready (.fresh memory.usableRange.1.block total), leaked⟩ := by
  obtain ⟨several, built⟩ := bootstrapped_of_verdict granted
  have holds := holds_of_bootstrapped built leaked
  constructor
  case totalFrames => exact FreeStack.total_fresh _ total
  case room => exact FreeStack.le_storage total
  case least => exact FreeStack.storage_pred_lt (Nat.lt_of_succ_lt several)
  case footprint_lt => exact FreeStack.storage_lt several
  case freeFrames => rfl
  case drains =>
    let stack := FreeStack.fresh memory.usableRange.1.block total
    have numbers : stack.bounds.managed.map Block.number = _ :=
      TableBounds.map_number_managed built.represents.fits
    have size : stack.bounds.total = total := FreeStack.total_fresh _ total
    rw [size] at numbers
    refine ⟨stack.bounds.managed, numbers, ?_⟩
    intro count
    obtain ⟨last, served, -⟩ := holds.serveAll (List.replicate count (.allocate 1))
    rw [Stock.serveAll_allocate] at served
    exact ⟨last, served⟩
  case once =>
    intro acts answers later ran
    obtain ⟨stack, same, -⟩ := ready_of_table (table_of_runAll rfl ran)
    rw [same]
    rfl

/--
The boot memory that is left after any calls decides what a bootstrap does.  It is
answered `alreadyBootstrapped` if there is a table.  Otherwise the verdict on that memory
is the answer: a refusal leaves the pool as it was, and if there is none, the pool starts
over with a table of all frames that can be reached.
-/
theorem bootstrap_decided_by_memory (present : memory.Present reachable)
    (calls : List PoolCall) :
    ∃ answers pool, (new memory).runAll reachable (calls.map .call) = .ok (answers, pool) ∧
      (pool.isBootstrapped = true →
        pool.bootstrap reachable = .ok ⟨.error .alreadyBootstrapped, pool, []⟩) ∧
      ∀ rest leaked, pool = ⟨.early rest, leaked⟩ → memory.LeftOf rest ∧ ∃ events,
        match rest.verdict with
        | .error refusal => pool.bootstrap reachable = .ok ⟨.error refusal, pool, events⟩
        | .ok total => ∃ after, pool.bootstrap reachable = .ok ⟨.ok (), after, events⟩ ∧
            after.leakedFrees = leaked ∧
            StartsOver reachable rest.usableRange.1.block total after := by
  have start : DescendsFrom memory (new memory) := .early (.refl memory)
  obtain ⟨answers, pool, ran, descends⟩ :=
    runAll_answers (DescendsFrom memory) (fun step descends => descends.step present step) calls
      start
  refine ⟨answers, pool, ran, ?_, ?_⟩
  · intro bootstrapped
    cases descends with
    | early left => cases bootstrapped
    | ready sound => rfl
  · rintro rest leaked rfl
    cases descends with
    | early left =>
        refine ⟨left, ?_⟩
        cases verdict : rest.verdict with
        | error refusal => exact bootstrap_of_refused verdict leaked reachable
        | ok total =>
            obtain ⟨events, replied⟩ := bootstrap_of_granted (left.present present) verdict leaked
            exact ⟨events, _, replied, rfl, startsOver_fresh verdict leaked reachable⟩

/--
Two frames are within reach.  When one of them is stolen, the table would fill the other
one, and the bootstrap is refused again and again.  When none is, there is a table.
-/
theorem bootstrap_decided_by_memory_at_limit :
    let reachable : Frame → Bool := fun _ => true
    let memory : BootMemory := .bump ⟨⟨0x1FFFE000⟩, ⟨0x20002000⟩⟩
    let short : FramePool := ⟨.early (.bump ⟨⟨0x1FFFF000⟩, ⟨0x20002000⟩⟩), 0⟩
    memory.Present reachable ∧
    (∃ answers, (new memory).runAll reachable
      ([PoolCall.serve .take, .bootstrap].map .call) = .ok (answers, short)) ∧
    (∃ events, short.bootstrap reachable =
      .ok ⟨.error (.footprintExhaustsMemory 1 1), short, events⟩) ∧
    ∃ events after, (new memory).bootstrap reachable = .ok ⟨.ok (), after, events⟩ ∧
      StartsOver reachable ⟨0x1FFFE, by decide⟩ 2 after := by
  intro reachable memory short
  have present : memory.Present reachable := fun _ _ _ _ => rfl
  obtain ⟨answers, pool, ran, -, decided⟩ :=
    bootstrap_decided_by_memory present [.serve .take, .bootstrap]
  have known : (new memory).runAll reachable ([PoolCall.serve .take, .bootstrap].map .call) =
      .ok ([.frame ⟨0x1FFFE, by decide⟩,
        .refused (.bootstrap (.footprintExhaustsMemory 1 1))], short) := by decide +kernel
  cases known.symm.trans ran
  obtain ⟨-, events, refused⟩ := decided _ _ rfl
  obtain ⟨_, _, start, -, decided'⟩ := bootstrap_decided_by_memory present []
  cases start
  have verdict : memory.verdict = .ok 2 := by decide +kernel
  obtain ⟨-, events', granted⟩ := decided' memory 0 rfl
  rw [verdict] at granted
  obtain ⟨after, replied, -, starts⟩ := granted
  have lowest : memory.usableRange.1.block = ⟨0x1FFFE, by decide⟩ := by decide +kernel
  rw [lowest] at starts
  exact ⟨present, ⟨_, ran⟩, ⟨events, refused⟩, events', after, replied, starts⟩

end FramePool

end PagedMemory
