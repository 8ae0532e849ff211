import PagedMemory.Proofs.Frames.DamagedStack
import PagedMemory.Proofs.Frames.History

/-!
# Overdrawn tables

The links of a table and its counter are two records of the same stack, and
damage changes one of them only.  If an entry that says "allocated" is replaced by
a free one, that frame is *revived*: there may then be more free entries than the
counter knows of.  If a free entry is replaced by one that says "allocated", its frame
is *buried*, and the counter may know of more frames than there are free entries.

A stack is overdrawn when the counter has come down to zero over a free top, and
taking a frame from it is not refused but panics.  It is overfull when the counter has
come up to the end of its word, and then giving a frame back panics.

Nothing else goes wrong.  Free entries exceed the counter by at most one for each
frame that was revived, and the counter exceeds them by at most one for each that was
buried.  So a table in which no frame was revived is never overdrawn, and it takes
about as many burials as there are words to make one overfull.
-/

namespace PagedMemory

/-- What happens to a table: one frame is asked for, in one way or the other, one
is given back, or an entry takes the value of another. -/
inductive TableAct where
  | allocate
  | take
  | release (frame : Frame)
  | damage (source target : Nat)
  deriving DecidableEq

namespace TableAct

def act : TableAct → PoolAct
  | .allocate => .call (.serve (.allocate 1))
  | .take => .call (.serve .take)
  | .release frame => .call (.serve (.release frame))
  | .damage source target => .damage source target

/-- The act asks for a frame. -/
def Takes : TableAct → Prop
  | .allocate | .take => True
  | .release _ | .damage _ _ => False

/-- Whoever asks for a frame gets one, or hears that there is none or that the
table is damaged. -/
def Expects : TableAct → Answer → Prop
  | .allocate, answer =>
      (∃ frame, answer = .frame frame) ∨
        answer = .refused (.allocate .outOfMemory) ∨
        ∃ address, answer = .refused (.allocate (.corruptFreeStack address))
  | .take, answer =>
      (∃ frame, answer = .frame frame) ∨
        answer = .refused (.take .exhausted) ∨
        ∃ address, answer = .refused (.take (.corrupt address))
  | .release _, _ | .damage _ _, _ => True

end TableAct

/-! ## Stacks -/

namespace FreeStack

variable {stack after : FreeStack} {frames : List Frame} {frame : Frame} {revived buried : Nat}

/-- Damage puts a free entry in the place of an allocated one. -/
def revives (stack : FreeStack) (source target : Nat) : Bool :=
  stack.entries[source]?.any FrameEntry.isFree &&
    decide (stack.entries[target]? = some .allocated)

/-- Damage puts an allocated entry in the place of a free one. -/
def buries (stack : FreeStack) (source target : Nat) : Bool :=
  stack.entries[target]?.any FrameEntry.isFree &&
    decide (stack.entries[source]? = some .allocated)

/-- A table whose links stay inside it and whose free entries differ from the counter by
no more than the frames that were revived or buried. -/
structure Tracked (revived buried : Nat) (stack : FreeStack) : Prop where
  linked : stack.Linked
  fits : stack.first.number + stack.total ≤ blockLimit
  reserved_lt : stack.reserved < stack.total
  bounded : stack.freeEntries ≤ stack.freeCount + revived
  counted : stack.freeCount ≤ stack.freeEntries + buried

/-- A counter that says zero over a free top tells of a frame that was revived. -/
theorem Tracked.revived_of_overdrawn (tracked : stack.Tracked revived buried)
    (overdrawn : stack.Overdrawn) : 0 < revived := by
  obtain ⟨spent, index, next, -, found⟩ := overdrawn
  have free : 0 < stack.freeEntries :=
    Array.countP_pos_iff.mpr ⟨_, Array.mem_of_getElem? found, rfl⟩
  have bounded := tracked.bounded
  omega

/-- A counter at the end of its word tells of frames that were buried. -/
theorem Tracked.buried_of_overfull (tracked : stack.Tracked revived buried)
    (overfull : stack.Overfull frame) : UInt64.size ≤ stack.total + buried := by
  obtain ⟨full, index, -, tag⟩ := overfull
  have fewer := freeEntries_lt tag
  have counted := tracked.counted
  omega

/-- Links that spell a list lead to entries of the table. -/
theorem Spells.below {link : Option Nat} (spells : stack.Spells link frames) :
    ∀ index ∈ link, index < stack.total := by
  intro index isLink
  obtain rfl := Option.mem_def.mp isLink
  cases frames with
  | nil => exact spells.elim
  | cons frame rest =>
      obtain ⟨-, next, found, -⟩ := spells
      exact (Array.getElem?_eq_some_iff.mp found).1

/-- So does the entry of each frame in that list. -/
theorem Spells.links {link : Option Nat} (spells : stack.Spells link frames)
    {frame : Frame} (member : frame ∈ frames) {index : Nat}
    (number : frame.number = stack.first.number + index) {entry : FrameEntry}
    (found : stack.entries[index]? = some entry) :
    entry.LinksBelow stack.total := by
  induction frames generalizing link with
  | nil => cases member
  | cons top rest induction =>
      cases link with
      | none => exact spells.elim
      | some place =>
          obtain ⟨number', next, found', remaining⟩ := spells
          rcases List.mem_cons.mp member with rfl | later
          · obtain rfl : place = index := by omega
            obtain rfl := Option.some.inj (found'.symm.trans found)
            exact remaining.below
          · exact induction remaining later

theorem Represents.linked (represents : stack.Represents frames) :
    stack.Linked where
  head := represents.spells.below
  links := by
    intro entry member
    obtain ⟨index, found⟩ := Array.getElem?_of_mem member
    cases entry with
    | allocated => trivial
    | free next =>
        obtain ⟨frame, listed, number⟩ := represents.mem_of_free found
        exact represents.spells.links listed number found

/-- In a table that was never damaged, free entries and counter agree. -/
theorem Represents.tracked (represents : stack.Represents frames) :
    stack.Tracked 0 0 where
  linked := represents.linked
  fits := represents.fits
  reserved_lt := represents.reserved_lt
  bounded := Nat.le_of_eq (represents.freeEntries_eq.trans represents.counted.symm)
  counted := Nat.le_of_eq (represents.counted.trans represents.freeEntries_eq.symm)

/-- Taking a frame and putting one back change both records alike. -/
theorem Tracked.uses (tracked : stack.Tracked revived buried) {next : Use}
    {outcome : Outcome} (uses : stack.Uses next outcome after) :
    after.Tracked revived buried := by
  obtain ⟨first, total, reserved⟩ := TableBounds.mk.inj uses.bounds
  have fits := tracked.fits
  have reserved_lt := tracked.reserved_lt
  rw [← first, ← total] at fits
  rw [← reserved, ← total] at reserved_lt
  have linked := tracked.linked.uses uses
  have bounded := tracked.bounded
  have counted := tracked.counted
  cases uses with
  | @pop result _ pops =>
      cases result with
      | error refusal =>
          rw [pops.eq_of_error]
          exact tracked
      | ok frame =>
          have fewer := pops.freeEntries
          have lower := pops.freeCount
          exact ⟨linked, fits, reserved_lt, by omega, by omega⟩
  | @push frame result _ pushes =>
      cases result with
      | error refusal =>
          rw [pushes.eq_of_error]
          exact tracked
      | ok done =>
          have more := pushes.freeEntries
          have higher := pushes.freeCount
          exact ⟨linked, fits, reserved_lt, by omega, by omega⟩

theorem Linked.damaged (linked : stack.Linked) {source target : Nat}
    (damaged : stack.copyEntry? source target = some after) : after.Linked := by
  obtain ⟨entry, inside, found, rfl⟩ := copyEntry?_eq_some damaged
  exact linked.replace inside (linked.links entry (Array.mem_of_getElem? found)) linked.head

/-- Damage adds a free entry only where it revives a frame, and removes one only where
it buries a frame. -/
theorem Tracked.damaged (tracked : stack.Tracked revived buried) {source target : Nat}
    (damaged : stack.copyEntry? source target = some after) :
    after.Tracked (revived + (stack.revives source target).toNat)
      (buried + (stack.buries source target).toNat) := by
  have linked := tracked.linked.damaged damaged
  obtain ⟨first, total, reserved⟩ := TableBounds.mk.inj (bounds_of_damaged damaged)
  obtain ⟨entry, inside, found, rfl⟩ := copyEntry?_eq_some damaged
  have fits := tracked.fits
  have reserved_lt := tracked.reserved_lt
  rw [← total] at fits reserved_lt
  have counts := freeEntries_set inside entry stack.head stack.freeCount
  have bounded := tracked.bounded
  have counted := tracked.counted
  have revives : stack.revives source target =
      (entry.isFree && !stack.entries[target].isFree) := by
    simp only [FreeStack.revives, found, Option.any_some,
      Array.getElem?_eq_getElem inside, Option.some.injEq]
    cases stack.entries[target] <;> simp [FrameEntry.isFree]
  have buries : stack.buries source target =
      (stack.entries[target].isFree && !entry.isFree) := by
    simp only [FreeStack.buries, found, Option.any_some,
      Array.getElem?_eq_getElem inside, Option.some.injEq]
    cases entry <;> simp [FrameEntry.isFree]
  rw [revives, buries]
  refine ⟨linked, fits, reserved_lt, ?_, ?_⟩ <;> simp only at counts ⊢ <;>
    cases new : entry.isFree <;> cases old : stack.entries[target].isFree <;>
      simp [new, old] at counts ⊢ <;> omega

theorem Tracked.more (tracked : stack.Tracked revived buried) (extra further : Nat) :
    stack.Tracked (revived + extra) (buried + further) :=
  { tracked with
    bounded := Nat.le_trans tracked.bounded (by omega)
    counted := Nat.le_trans tracked.counted (by omega) }

/-- A frame is taken or refused, unless the stack is overdrawn. -/
theorem Tracked.pops (tracked : stack.Tracked revived buried) :
    (∃ result after, stack.pop = .ok (result, after) ∧ after.Tracked revived buried) ∨
      stack.Overdrawn := by
  cases popped : stack.pop with
  | ok answered =>
      exact .inl ⟨_, _, rfl, tracked.uses (.pop (pops_of_pop popped))⟩
  | error panic =>
      have fits := tracked.fits
      cases popPanics_of_pop popped with
      | outside top outside =>
          exact absurd (tracked.linked.head _ top) (Nat.not_lt_of_le outside)
      | overdrawn overdrawn => exact .inr overdrawn
      | unnamed top inside beyond => omega

/-- A frame is put on top or rejected, unless the stack is overfull. -/
theorem Tracked.pushes (tracked : stack.Tracked revived buried)
    (past : stack.first.number + stack.reserved ≤ frame.number) :
    (∃ result after, stack.push frame = .ok (result, after) ∧ after.Tracked revived buried) ∨
      stack.Overfull frame := by
  cases pushed : stack.push frame with
  | ok answered =>
      exact .inl ⟨_, _, rfl, tracked.uses (.push (pushes_of_push pushed))⟩
  | error panic => exact .inr (overfull_of_push past pushed).2

end FreeStack

namespace FramePool

variable {reachable : Frame → Bool} {pool after : FramePool} {act : TableAct} {frame : Frame}
  {answer : Answer} {revived buried : Nat}

/-! ## Pools -/

/-- The pool has a table, and that table is overdrawn. -/
inductive Overdrawn : FramePool → Prop
  | ready {stack : FreeStack} {leaked : Nat} (overdrawn : stack.Overdrawn) :
      Overdrawn ⟨.ready stack, leaked⟩

/-- The pool has a table, and that table is overfull for a frame past its own storage. -/
inductive Overfull (frame : Frame) : FramePool → Prop
  | ready {stack : FreeStack} {leaked : Nat}
      (past : stack.first.number + stack.reserved ≤ frame.number)
      (overfull : stack.Overfull frame) : Overfull frame ⟨.ready stack, leaked⟩

/-- The pool has a table, and that table is tracked. -/
inductive Tracked (revived buried : Nat) : FramePool → Prop
  | ready {stack : FreeStack} {leaked : Nat} (tracked : stack.Tracked revived buried) :
      Tracked revived buried ⟨.ready stack, leaked⟩

/-- The act changes an entry of the table in a certain way. -/
def damages (changes : FreeStack → Nat → Nat → Bool) (pool : FramePool) : TableAct → Bool
  | .damage source target =>
      match pool.phase with
      | .early _ => false
      | .ready stack => changes stack source target
  | _ => false

/-- The number of acts, up to a panic, that change an entry in a certain way. -/
def countDamage (reachable : Frame → Bool) (changes : FreeStack → Nat → Nat → Bool)
    (pool : FramePool) : List TableAct → Nat
  | [] => 0
  | act :: rest =>
      (pool.damages changes act).toNat +
        match act.act.run reachable pool with
        | .ok (_, after) => after.countDamage reachable changes rest
        | .error _ => 0

/-- The number of frames that some acts revive, up to a panic. -/
def revivals (reachable : Frame → Bool) (pool : FramePool) (acts : List TableAct) : Nat :=
  pool.countDamage reachable FreeStack.revives acts

/-- The number of frames that some acts bury, up to a panic. -/
def burials (reachable : Frame → Bool) (pool : FramePool) (acts : List TableAct) : Nat :=
  pool.countDamage reachable FreeStack.buries acts

theorem Tracked.revived_of_overdrawn (tracked : pool.Tracked revived buried)
    (overdrawn : pool.Overdrawn) : 0 < revived := by
  cases tracked with
  | ready tracked =>
      cases overdrawn with
      | ready overdrawn => exact tracked.revived_of_overdrawn overdrawn

theorem Tracked.buried_of_overfull (tracked : pool.Tracked revived buried)
    (overfull : pool.Overfull frame) : UInt64.size ≤ pool.totalFrames + buried := by
  cases tracked with
  | ready tracked =>
      cases overfull with
      | ready past overfull => exact tracked.buried_of_overfull overfull

/-- Both ways to ask for a frame take the top of the stack and only report it
differently. -/
theorem run_of_takes (reachable : Frame → Bool) {act : TableAct} (takes : act.Takes)
    (stack : FreeStack) (leaked : Nat) :
    ∃ report : Except TakeError Frame → Answer,
      (∀ result, act.Expects (report result)) ∧
      act.act.run reachable ⟨.ready stack, leaked⟩ =
        stack.pop.map fun (result, rest) => (report result, ⟨.ready rest, leaked⟩) := by
  cases act with
  | allocate =>
      refine ⟨fun result => .ofResult .allocate .frame (result.mapError .ofTake), ?_, ?_⟩
      · rintro (⟨⟨⟩ | address⟩ | frame)
        · exact .inr (.inl rfl)
        · exact .inr (.inr ⟨address, rfl⟩)
        · exact .inl ⟨frame, rfl⟩
      · cases popped : stack.pop <;>
          simp [TableAct.act, PoolAct.run, PoolCall.run, serve, allocate, popped, bind,
            Except.bind, Except.map, pure, Except.pure, FramePool.answer]
  | take =>
      refine ⟨.ofResult .take .frame, ?_, ?_⟩
      · rintro (⟨⟨⟩ | address⟩ | frame)
        · exact .inr (.inl rfl)
        · exact .inr (.inr ⟨address, rfl⟩)
        · exact .inl ⟨frame, rfl⟩
      · cases popped : stack.pop <;>
          simp [TableAct.act, PoolAct.run, PoolCall.run, serve, take, popped, bind,
            Except.bind, Except.map, pure, Except.pure]
  | release frame => exact takes.elim
  | damage source target => exact takes.elim

/-- Past the storage of the table, a frame that is given back is put on the stack. -/
theorem serve_release_of_past {stack : FreeStack} {leaked : Nat}
    (past : stack.first.number + stack.reserved ≤ frame.number) :
    serve ⟨.ready stack, leaked⟩ (.release frame) = (stack.push frame).map fun (result, rest) =>
      (.ofResult .release (fun _ => .done) result, ⟨.ready rest, leaked⟩) := by
  simp only [serve, release_of_past past]
  cases stack.push frame with
  | error panic => rfl
  | ok pushed => rfl

theorem Overdrawn.run (overdrawn : pool.Overdrawn) (takes : act.Takes) :
    act.act.run reachable pool = .error .counterUnderflow := by
  cases overdrawn with
  | @ready stack leaked overdrawn =>
      obtain ⟨report, -, ran⟩ := run_of_takes reachable takes stack leaked
      rw [ran, overdrawn.pop]
      rfl

theorem Overfull.run (overfull : pool.Overfull frame) :
    (TableAct.release frame).act.run reachable pool = .error .counterOverflow := by
  cases overfull with
  | @ready stack leaked past overfull =>
      change serve ⟨.ready stack, leaked⟩ (.release frame) = _
      rw [serve_release_of_past past, overfull.push past]
      rfl

/-- A frame is given back, unless the pool is overfull. -/
theorem Tracked.release (tracked : pool.Tracked revived buried) (frame : Frame) :
    (∃ answer after, pool.serve (.release frame) = .ok (answer, after) ∧
      after.Tracked revived buried) ∨ pool.Overfull frame := by
  cases tracked with
  | @ready stack leaked tracked =>
      by_cases past : stack.first.number + stack.reserved ≤ frame.number
      · rcases tracked.pushes past with ⟨result, rest, pushed, tracked'⟩ | overfull
        · refine .inl ⟨.ofResult .release (fun _ => .done) result, ⟨.ready rest, leaked⟩, ?_,
            .ready tracked'⟩
          rw [serve_release_of_past past, pushed]
          rfl
        · exact .inr (.ready past overfull)
      · have fits := tracked.fits
        have less := tracked.reserved_lt
        have counted : release ⟨.ready stack, leaked⟩ frame =
            .ok (leak ⟨.ready stack, leaked⟩ frame) :=
          release_of_below (Nat.lt_of_not_le past) (by omega)
        refine .inl ⟨.done, ⟨.ready stack, leaked + 1⟩, ?_, .ready tracked⟩
        simp only [serve, counted]
        rfl

/-- Whoever asks for a frame is answered, unless the pool is overdrawn. -/
theorem Tracked.takes (tracked : pool.Tracked revived buried) (reachable : Frame → Bool)
    {act : TableAct} (takes : act.Takes) :
    (∃ answer after, act.act.run reachable pool = .ok (answer, after) ∧
      act.Expects answer ∧ after.Tracked revived buried) ∨ pool.Overdrawn := by
  cases tracked with
  | @ready stack leaked tracked =>
      obtain ⟨report, expected, ran⟩ := run_of_takes reachable takes stack leaked
      rcases tracked.pops with ⟨result, rest, popped, tracked'⟩ | overdrawn
      · refine .inl ⟨report result, ⟨.ready rest, leaked⟩, ?_, expected result, .ready tracked'⟩
        rw [ran, popped]
        rfl
      · exact .inr (.ready overdrawn)

/-- Damage is answered, whether or not the table has the entries. -/
theorem Tracked.damage (tracked : pool.Tracked revived buried) (reachable : Frame → Bool)
    (source target : Nat) :
    ∃ answer after, (PoolAct.damage source target).run reachable pool = .ok (answer, after) ∧
      after.Tracked (revived + (pool.damages FreeStack.revives (.damage source target)).toNat)
        (buried + (pool.damages FreeStack.buries (.damage source target)).toNat) := by
  cases tracked with
  | @ready stack leaked tracked =>
      cases damaged : stack.copyEntry? source target with
      | none =>
          refine ⟨.refused .noEntry, ⟨.ready stack, leaked⟩, ?_, .ready (tracked.more _ _)⟩
          simp only [PoolAct.run, copyEntry?, damaged]
          rfl
      | some rest =>
          refine ⟨.done, ⟨.ready rest, leaked⟩, ?_, .ready (tracked.damaged damaged)⟩
          simp only [PoolAct.run, copyEntry?, damaged]
          rfl

/-- A frame is asked for of an overdrawn pool. -/
def Overdraw (pool : FramePool) (act : TableAct) : Prop :=
  act.Takes ∧ pool.Overdrawn

/-- A frame is given back to an overfull pool. -/
def Overfill (pool : FramePool) (act : TableAct) : Prop :=
  ∃ frame, act = .release frame ∧ pool.Overfull frame

/-- Every act is answered as it should be, unless it overdraws the pool or overfills it. -/
theorem Tracked.answers (tracked : pool.Tracked revived buried) (reachable : Frame → Bool)
    (act : TableAct) :
    (∃ answer after, act.act.run reachable pool = .ok (answer, after) ∧
      act.Expects answer ∧
      after.Tracked (revived + (pool.damages FreeStack.revives act).toNat)
        (buried + (pool.damages FreeStack.buries act).toNat)) ∨
    pool.Overdraw act ∨ pool.Overfill act := by
  cases act with
  | allocate =>
      have takes : TableAct.Takes .allocate := trivial
      exact (tracked.takes reachable takes).imp_right fun spent => .inl ⟨takes, spent⟩
  | take =>
      have takes : TableAct.Takes .take := trivial
      exact (tracked.takes reachable takes).imp_right fun spent => .inl ⟨takes, spent⟩
  | release frame =>
      rcases tracked.release frame with ⟨answer, after, ran, tracked'⟩ | full
      · exact .inl ⟨answer, after, ran, trivial, tracked'⟩
      · exact .inr (.inr ⟨frame, rfl, full⟩)
  | damage source target =>
      obtain ⟨answer, after, ran, tracked'⟩ := tracked.damage reachable source target
      exact .inl ⟨answer, after, ran, trivial, tracked'⟩

theorem Overdraw.run (overdraw : pool.Overdraw act) :
    act.act.run reachable pool = .error .counterUnderflow :=
  overdraw.2.run overdraw.1

theorem Overfill.run (overfill : pool.Overfill act) :
    act.act.run reachable pool = .error .counterOverflow := by
  obtain ⟨frame, rfl, overfull⟩ := overfill
  exact overfull.run

/-- What an act that is answered leaves is tracked. -/
theorem Tracked.of_run (tracked : pool.Tracked revived buried)
    (ran : act.act.run reachable pool = .ok (answer, after)) :
    after.Tracked (revived + (pool.damages FreeStack.revives act).toNat)
      (buried + (pool.damages FreeStack.buries act).toNat) := by
  rcases tracked.answers reachable act with ⟨_, _, ran', -, tracked'⟩ | overdraw | overfill
  · obtain ⟨-, rfl⟩ := Prod.mk.inj (Except.ok.inj (ran.symm.trans ran'))
    exact tracked'
  · cases ran.symm.trans overdraw.run
  · cases ran.symm.trans overfill.run

theorem Tracked.totalFrames_of_run (tracked : pool.Tracked revived buried)
    (ran : act.act.run reachable pool = .ok (answer, after)) :
    after.totalFrames = pool.totalFrames := by
  cases tracked with
  | @ready stack leaked tracked =>
      have table : territory ⟨.ready stack, leaked⟩ = .table stack.bounds := rfl
      rw [(counters_of_table table).2.1, (counters_of_table (act.act.table_of_run table ran)).2.1]

/-! ## Sequences of acts -/

/-- One of some acts meets the pool in a certain state, and all acts before it are
answered. -/
inductive Meets (reachable : Frame → Bool) (trouble : FramePool → TableAct → Prop) :
    FramePool → List TableAct → Prop
  | now {pool : FramePool} {act : TableAct} {rest : List TableAct}
      (met : trouble pool act) : Meets reachable trouble pool (act :: rest)
  | later {pool after : FramePool} {act : TableAct} {answer : Answer} {rest : List TableAct}
      (ran : act.act.run reachable pool = .ok (answer, after))
      (meets : Meets reachable trouble after rest) :
      Meets reachable trouble pool (act :: rest)

variable {acts : List TableAct} {trouble : FramePool → TableAct → Prop}

/-- Acts end where one of them panics. -/
theorem Meets.runAll {panic : Panic}
    (fails : ∀ {pool act}, trouble pool act → act.act.run reachable pool = .error panic)
    (meets : Meets reachable trouble pool acts) :
    pool.runAll reachable (acts.map TableAct.act) = .error panic := by
  induction meets with
  | now met =>
      simp only [List.map_cons, FramePool.runAll, fails met]
      rfl
  | later ran meets induction =>
      simp only [List.map_cons, FramePool.runAll, ran, bind, Except.bind, induction]

/-- A tracked pool answers all acts as it should, unless one of them overdraws it or
overfills it. -/
theorem Tracked.runAll (tracked : pool.Tracked revived buried) (acts : List TableAct) :
    (∃ given after, pool.runAll reachable (acts.map TableAct.act) = .ok (given, after) ∧
      List.Forall₂ TableAct.Expects acts given) ∨
    Meets reachable Overdraw pool acts ∨ Meets reachable Overfill pool acts := by
  induction acts generalizing pool revived buried with
  | nil => exact .inl ⟨[], pool, rfl, .nil⟩
  | cons act rest induction =>
      rcases tracked.answers reachable act with
        ⟨answer, after, ran, expected, tracked'⟩ | overdraw | overfill
      · rcases induction tracked' with ⟨given, last, followed, others⟩ | overdraws | overfills
        · refine .inl ⟨answer :: given, last, ?_, .cons expected others⟩
          simp only [List.map_cons, FramePool.runAll, ran, bind, Except.bind, followed]
          rfl
        · exact .inr (.inl (.later ran overdraws))
        · exact .inr (.inr (.later ran overfills))
      · exact .inr (.inl (.now overdraw))
      · exact .inr (.inr (.now overfill))

/-- The pool that an act meets is tracked, and has as many frames as before. -/
theorem Tracked.met (tracked : pool.Tracked revived buried)
    (meets : Meets reachable trouble pool acts) :
    ∃ (last : FramePool) (act : TableAct) (more further : Nat), trouble last act ∧
      last.Tracked (revived + more) (buried + further) ∧
      more ≤ pool.revivals reachable acts ∧ further ≤ pool.burials reachable acts ∧
      last.totalFrames = pool.totalFrames := by
  induction meets generalizing revived buried with
  | @now pool act rest met =>
      exact ⟨pool, act, 0, 0, met, tracked, Nat.zero_le _, Nat.zero_le _, rfl⟩
  | @later pool between act answer rest ran meets induction =>
      obtain ⟨last, final, more, further, met, tracked', revivals, burials, same⟩ :=
        induction (tracked.of_run ran)
      have total : between.totalFrames = pool.totalFrames := tracked.totalFrames_of_run ran
      rw [Nat.add_assoc, Nat.add_assoc] at tracked'
      refine ⟨last, final, _, _, met, tracked', ?_, ?_, same.trans total⟩
      · simp only [FramePool.revivals, countDamage, ran] at revivals ⊢
        omega
      · simp only [FramePool.burials, countDamage, ran] at burials ⊢
        omega

/-- The pool that calls lead to is tracked as soon as it has a table. -/
theorem tracked_of_calls {memory : BootMemory} {calls : List PoolCall} {answers : List Answer}
    (ran : (new memory).runAll reachable (calls.map .call) = .ok (answers, pool))
    (bootstrapped : pool.isBootstrapped = true) : pool.Tracked 0 0 := by
  cases sound_of_calls ran bootstrapped with
  | early aligned => cases bootstrapped
  | ready represents mapped => exact .ready represents.tracked

/-- A bootstrapped pool whose table is damaged while it is used answers everyone who
asks for a frame with a frame or with a refusal, as long as it is neither overdrawn nor
overfilled.  When it is overdrawn the counter underflows, and it never is before damage
has put a free entry in the place of an allocated one.  When it is overfilled the counter
overflows, and before that damage has put allocated entries in the place of free ones as
often as there are words, but for the frames of the table. -/
theorem damage_is_reported_unless_overdrawn {memory : BootMemory} {calls : List PoolCall}
    {answers : List Answer}
    (history : (new memory).runAll reachable (calls.map .call) = .ok (answers, pool))
    (bootstrapped : pool.isBootstrapped = true) (acts : List TableAct) :
    (¬ Meets reachable Overdraw pool acts → ¬ Meets reachable Overfill pool acts →
      ∃ given after, pool.runAll reachable (acts.map TableAct.act) = .ok (given, after) ∧
        List.Forall₂ TableAct.Expects acts given) ∧
    (Meets reachable Overdraw pool acts →
      pool.runAll reachable (acts.map TableAct.act) = .error .counterUnderflow ∧
        0 < pool.revivals reachable acts) ∧
    (Meets reachable Overfill pool acts →
      pool.runAll reachable (acts.map TableAct.act) = .error .counterOverflow ∧
        UInt64.size ≤ pool.totalFrames + pool.burials reachable acts) := by
  have tracked := tracked_of_calls history bootstrapped
  refine ⟨fun solvent roomy => ?_, fun overdraws => ⟨overdraws.runAll Overdraw.run, ?_⟩,
    fun overfills => ⟨overfills.runAll Overfill.run, ?_⟩⟩
  · rcases tracked.runAll acts with answered | overdraws | overfills
    · exact answered
    · exact absurd overdraws solvent
    · exact absurd overfills roomy
  · obtain ⟨last, act, more, further, overdraw, tracked', bound, -, -⟩ := tracked.met overdraws
    have revived := tracked'.revived_of_overdrawn overdraw.2
    omega
  · obtain ⟨last, act, more, further, ⟨frame, -, overfull⟩, tracked', -, bound, same⟩ :=
      tracked.met overfills
    have buried := tracked'.buried_of_overfull overfull
    omega

/-- The entry of one of two frames is made to link to itself.  Both frames are taken,
the other one is given back, and then the self-linked entry is revived. -/
def selfLinked : List TableAct :=
  [.damage 1 2, .take, .take, .release ⟨2, by decide⟩, .damage 1 2, .allocate, .take]

/-- The last of these acts overdraws the pool, after one frame was revived.  All acts
before it are answered as they should be. -/
theorem damage_is_reported_unless_overdrawn_by_self_link :
    let reachable : Frame → Bool := fun _ => true
    let pool : FramePool :=
      ⟨.ready ⟨⟨1, by decide⟩, #[.allocated, .free (some 2), .free none], 1, some 1, 2⟩, 0⟩
    (new (.bump ⟨⟨0x1000⟩, ⟨0x4000⟩⟩)).runAll reachable [.call .bootstrap] =
        .ok ([.done], pool) ∧
      Meets reachable Overdraw pool selfLinked ∧ 0 < pool.revivals reachable selfLinked ∧
      ∃ given after, pool.runAll reachable (selfLinked.dropLast.map TableAct.act) =
          .ok (given, after) ∧
        List.Forall₂ TableAct.Expects selfLinked.dropLast given := by
  intro reachable pool
  have history : (new (.bump ⟨⟨0x1000⟩, ⟨0x4000⟩⟩)).runAll reachable
      ([PoolCall.bootstrap].map .call) = .ok ([.done], pool) := by decide +kernel
  have stopped : pool.runAll reachable (selfLinked.map TableAct.act) =
      .error .counterUnderflow := by decide +kernel
  have answered : pool.runAll reachable (selfLinked.dropLast.map TableAct.act) ≠
      .error .counterUnderflow := by decide +kernel
  have spared (acts : List TableAct) (few : pool.burials reachable acts = 0) :
      ¬ Meets reachable Overfill pool acts := by
    intro overfills
    have full := ((damage_is_reported_unless_overdrawn history rfl acts).2.2 overfills).2
    rw [few] at full
    exact absurd full (by decide)
  have overdraws : Meets reachable Overdraw pool selfLinked := by
    by_contra solvent
    obtain ⟨given, after, ran, -⟩ := (damage_is_reported_unless_overdrawn history rfl selfLinked).1
      solvent (spared _ (by decide +kernel))
    rw [stopped] at ran
    cases ran
  exact ⟨history, overdraws,
    ((damage_is_reported_unless_overdrawn history rfl selfLinked).2.1 overdraws).2,
    (damage_is_reported_unless_overdrawn history rfl selfLinked.dropLast).1
      (fun overdraws => answered (overdraws.runAll Overdraw.run)) (spared _ (by decide +kernel))⟩

/-- The counter comes down to zero over a top that is free, and asking for a frame is
not answered. -/
theorem damage_panics_at_free_top :
    let reachable : Frame → Bool := fun _ => true
    let entries : Array FrameEntry := #[.allocated, .allocated, .free (some 2)]
    let spent : FramePool := ⟨.ready ⟨⟨1, by decide⟩, entries, 1, some 2, 0⟩, 0⟩
    (new (.bump ⟨⟨0x1000⟩, ⟨0x4000⟩⟩)).runAll reachable
        (.call .bootstrap :: selfLinked.dropLast.map TableAct.act) =
      .ok ([.done, .done, .frame ⟨2, by decide⟩, .frame ⟨3, by decide⟩, .done, .done,
        .frame ⟨2, by decide⟩], spent) ∧
    spent.serve .take = .error .counterUnderflow ∧
    spent.serve (.allocate 1) = .error .counterUnderflow := by
  refine ⟨?_, ?_, ?_⟩ <;> decide +kernel

end FramePool

end PagedMemory
