import PagedMemory.Proofs.Frames.Supply
import PagedMemory.Proofs.Memory.Access

/-!
# Owning and exchanging frames

Whoever works on memory owns some frames; the pool has the available ones, and
no frame is on both sides or on one side twice.  A step is an *exchange*: it is
given some frames and leaves some, and what is available makes up the
difference.  It writes only frames that it was given or that were available.

Exchanges follow one another, and they can be made beside frames that have
nothing to do with them.  So the exchange that each operation makes is found out
once, from the two exchanges of a single frame: taking it and giving it back.
-/

namespace PagedMemory

/-- The data frame that was lost by declaring its page again, if a record says so. -/
def Event.lostFrame? : Event → Option Frame
  | .pageRedeclared _ frame _ => some frame
  | _ => none

namespace Memory

/-- All data frames that were lost by declaring their pages again. -/
def lostFrames (memory : Memory) : List Frame :=
  memory.log.filterMap Event.lostFrame?

theorem lostFrames_record (memory : Memory) {event : Event}
    (quiet : event.lostFrame? = none) :
    lostFrames { memory with log := event :: memory.log } = memory.lostFrames :=
  List.filterMap_cons_none quiet

/-- How many requests for single frames in a row will be granted. -/
def grants (memory : Memory) : Nat :=
  match memory.allowance with
  | none => memory.pool.available.length
  | some left => min left memory.pool.available.length

/-- Some frames are outstanding, and everything about them and the pool is in order. -/
structure Owns (memory : Memory) (frames : List Frame) : Prop where
  sound : memory.pool.Sound
  distinct : (memory.pool.available ++ frames).Nodup
  held : ∀ frame ∈ memory.pool.available ++ frames, memory.ram.holds frame = true
  accepted : ∀ frame ∈ frames, memory.pool.territory.Accepts frame

/-- A step that was given some frames and left some. -/
structure Exchange (before : Memory) (given : List Frame) (after : Memory)
    (left : List Frame) : Prop where
  sound : after.pool.Sound
  territory : after.pool.territory = before.pool.territory
  balance : (after.pool.available ++ left).Perm (before.pool.available ++ given)
  extent : ∀ frame, after.ram.holds frame = before.ram.holds frame
  untouched : ∀ frame, frame ∉ before.pool.available ++ given →
    after.ram.contentsOf frame = before.ram.contentsOf frame

namespace Owns

variable {memory : Memory} {frames other : List Frame} {frame : Frame}

theorem of_perm (owns : memory.Owns frames) (perm : frames.Perm other) :
    memory.Owns other := by
  have whole := perm.append_left memory.pool.available
  refine ⟨owns.sound, whole.nodup_iff.mp owns.distinct, ?_, ?_⟩
  · intro frame member
    exact owns.held frame (whole.mem_iff.mpr member)
  · intro frame member
    exact owns.accepted frame (perm.mem_iff.mpr member)

theorem not_available (owns : memory.Owns frames) (member : frame ∈ frames) :
    frame ∉ memory.pool.available := by
  intro available
  exact List.disjoint_of_nodup_append owns.distinct available member

theorem held_of_mem (owns : memory.Owns frames) (member : frame ∈ frames) :
    memory.ram.holds frame = true :=
  owns.held frame (List.mem_append_right _ member)

theorem held_of_available (owns : memory.Owns frames)
    (available : frame ∈ memory.pool.available) : memory.ram.holds frame = true :=
  owns.held frame (List.mem_append_left _ available)

theorem nodup (owns : memory.Owns frames) : frames.Nodup :=
  (List.nodup_append.mp owns.distinct).2.1

/-- A part of the owned frames. -/
theorem left (owns : memory.Owns (frames ++ other)) : memory.Owns frames := by
  have distinct := owns.distinct
  rw [← List.append_assoc] at distinct
  refine ⟨owns.sound, (List.nodup_append.mp distinct).1, ?_, ?_⟩
  · intro frame member
    apply owns.held
    rw [← List.append_assoc]
    exact List.mem_append_left _ member
  · intro frame member
    exact owns.accepted frame (List.mem_append_left _ member)

theorem right (owns : memory.Owns (frames ++ other)) : memory.Owns other :=
  (owns.of_perm List.perm_append_comm).left

/-- Frames of two different owners are different. -/
theorem disjoint (owns : memory.Owns (frames ++ other)) (member : frame ∈ other) :
    frame ∉ memory.pool.available ++ frames := by
  have distinct := owns.distinct
  rw [← List.append_assoc] at distinct
  intro repeated
  exact List.disjoint_of_nodup_append distinct repeated member

end Owns

namespace Exchange

variable {before between after : Memory} {given middle left rest : List Frame}

theorem refl {memory : Memory} (sound : memory.pool.Sound) (frames : List Frame) :
    Exchange memory frames memory frames :=
  ⟨sound, rfl, List.Perm.refl _, fun _ => rfl, fun _ _ => rfl⟩

theorem trans (first : Exchange before given between middle)
    (second : Exchange between middle after left) : Exchange before given after left := by
  refine ⟨second.sound, second.territory.trans first.territory,
    second.balance.trans first.balance, ?_, ?_⟩
  · intro frame
    rw [second.extent, first.extent]
  · intro frame outside
    have stillOutside : frame ∉ between.pool.available ++ middle := by
      intro member
      exact outside (first.balance.mem_iff.mp member)
    rw [second.untouched frame stillOutside, first.untouched frame outside]

/-- Which frames are left does not depend on their order. -/
theorem of_perm_left (exchange : Exchange before given after left)
    (perm : left.Perm rest) : Exchange before given after rest :=
  { exchange with
    balance := (perm.symm.append_left after.pool.available).trans exchange.balance }

theorem of_perm_given (exchange : Exchange before given after left)
    (perm : given.Perm rest) : Exchange before rest after left where
  sound := exchange.sound
  territory := exchange.territory
  balance := exchange.balance.trans (perm.append_left before.pool.available)
  extent := exchange.extent
  untouched := by
    intro frame outside
    apply exchange.untouched
    intro member
    exact outside ((perm.append_left before.pool.available).mem_iff.mp member)

/-- An exchange beside frames that have nothing to do with it. -/
theorem beside (exchange : Exchange before given after left) (rest : List Frame) :
    Exchange before (given ++ rest) after (left ++ rest) where
  sound := exchange.sound
  territory := exchange.territory
  balance := by
    rw [← List.append_assoc, ← List.append_assoc]
    exact exchange.balance.append_right rest
  extent := exchange.extent
  untouched := by
    intro frame outside
    apply exchange.untouched
    intro member
    apply outside
    rw [← List.append_assoc]
    exact List.mem_append_left _ member

theorem owns (exchange : Exchange before given after left) (owns : before.Owns given) :
    after.Owns left where
  sound := exchange.sound
  distinct := exchange.balance.nodup_iff.mpr owns.distinct
  held := by
    intro frame member
    rw [exchange.extent]
    exact owns.held frame (exchange.balance.mem_iff.mp member)
  accepted := by
    intro frame member
    rw [exchange.territory]
    have known := exchange.balance.mem_iff.mp (List.mem_append_right _ member)
    rcases List.mem_append.mp known with available | old
    · exact owns.sound.accepts_available available
    · exact owns.accepted frame old

/-- A tree among the frames beside an exchange stays as it is. -/
theorem tree (exchange : Exchange before given after left)
    (owns : before.Owns (given ++ rest)) {root : Frame}
    (tree : before.ram.Tree root) (among : ∀ frame ∈ before.ram.reach root, frame ∈ rest) :
    after.ram.Tree root ∧ after.ram.reach root = before.ram.reach root := by
  apply tree.congr exchange.extent
  intro frame member
  exact exchange.untouched frame (owns.disjoint (among frame member))

/-- Neither the pool nor RAM has changed. -/
theorem of_same (sound : before.pool.Sound) (pool : after.pool = before.pool)
    (ram : after.ram = before.ram) (frames : List Frame) :
    Exchange before frames after frames := by
  refine ⟨?_, ?_, ?_, ?_, ?_⟩
  · rw [pool]
    exact sound
  · rw [pool]
  · rw [pool]
  · intro frame
    rw [ram]
  · intro frame _
    rw [ram]

/-- A log record moves no frame. -/
theorem record (exchange : Exchange before given after left) (event : Event) :
    Exchange before given { after with log := event :: after.log } left :=
  ⟨exchange.sound, exchange.territory, exchange.balance, exchange.extent,
    exchange.untouched⟩

/-- A frame on one of the two sides has been written. -/
theorem of_writes {frame : Frame} {contents : FrameContents} (sound : before.pool.Sound)
    (writes : Writes before frame contents after)
    (member : frame ∈ before.pool.available ++ given) : Exchange before given after given := by
  refine ⟨?_, ?_, ?_, writes.replaced.extent, ?_⟩
  · rw [writes.pool]
    exact sound
  · rw [writes.pool]
  · rw [writes.pool]
  · intro other outside
    apply writes.replaced.others
    rintro rfl
    exact outside member

end Exchange

/-! ## Taking a frame -/

/-- The outcome of asking for a single frame. -/
inductive Takes (before : Memory) : Except TakeError Frame → Memory → Prop where
  | granted {frame : Frame} {after : Memory}
      (pool : FramePool.Grants before.pool [frame] after.pool)
      (ram : after.ram = before.ram) (log : after.log = before.log)
      (grants : before.grants = after.grants + 1) : Takes before (.ok frame) after
  | refused {after : Memory} (pool : after.pool = before.pool)
      (ram : after.ram = before.ram) (log : after.log = before.log)
      (none : before.grants = 0) (spent : after.grants = 0) :
      Takes before (.error .exhausted) after

private theorem takeFrame_of_reply {memory : Memory}
    (allowed : memory.allowance ≠ some 0) {reply : Reply TakeError Frame}
    (replied : memory.pool.take = .ok reply) (quiet : reply.events = []) :
    takeFrame memory = .ok (reply.result, { memory with
      pool := reply.pool
      allowance := memory.allowance.map (· - 1) }) := by
  rw [takeFrame_of_allowed allowed]
  apply onPool_eq_ok.mpr
  refine ⟨reply, replied, rfl, ?_⟩
  rw [quiet]
  rfl

theorem takeFrame_ensures {memory : Memory} (sound : memory.pool.Sound) :
    Ensures takeFrame memory (Takes memory) := by
  by_cases spent : memory.allowance = some 0
  · have none : memory.grants = 0 := by simp [grants, spent]
    exact Ensures.of_eq (takeFrame_of_spent spent) (.refused rfl rfl rfl none none)
  · cases listed : memory.pool.available with
    | nil =>
        have refused := takeFrame_of_reply spent (sound.take_nil listed) rfl
        refine Ensures.of_eq refused (.refused rfl rfl rfl ?_ ?_)
        · unfold grants
          cases memory.allowance <;> simp [listed]
        · unfold grants
          cases memory.allowance <;> simp [listed]
    | cons frame rest =>
        rcases sound.take_cons listed with ⟨pool, replied, granted⟩
        have taken := takeFrame_of_reply spent replied rfl
        refine Ensures.of_eq taken (.granted granted rfl rfl ?_)
        have fewer : memory.pool.available.length = pool.available.length + 1 := by
          rw [granted.available]
          rfl
        unfold grants
        cases allowance : memory.allowance with
        | none => simpa using fewer
        | some left =>
            have positive : left ≠ 0 := by
              rintro rfl
              exact spent allowance
            simp only [Option.map_some]
            omega

/-- The outcome of asking for a single frame and filling it. -/
inductive Obtains (before : Memory) (contents : FrameContents) :
    Except TakeError Frame → Memory → Prop where
  | granted {frame : Frame} {after : Memory}
      (pool : FramePool.Grants before.pool [frame] after.pool)
      (replaced : Ram.Replaced before.ram frame contents after.ram)
      (log : after.log = before.log)
      (grants : before.grants = after.grants + 1) : Obtains before contents (.ok frame) after
  | refused {after : Memory} (pool : after.pool = before.pool)
      (ram : after.ram = before.ram) (log : after.log = before.log)
      (none : before.grants = 0) (spent : after.grants = 0) :
      Obtains before contents (.error .exhausted) after

theorem available_of_grants {before after : Memory} {frame : Frame}
    (granted : FramePool.Grants before.pool [frame] after.pool) :
    frame ∈ before.pool.available := by
  rw [granted.available]
  exact List.mem_cons_self

private theorem Writes.obtains {before between after : Memory} {frame : Frame}
    {contents : FrameContents}
    (pool : FramePool.Grants before.pool [frame] between.pool)
    (ram : between.ram = before.ram) (log : between.log = before.log)
    (granted : before.grants = between.grants + 1)
    (writes : Writes between frame contents after) :
    Obtains before contents (.ok frame) after := by
  have same : after.grants = between.grants := by
    simp only [grants, writes.pool, writes.allowance]
  refine .granted ?_ ?_ ?_ ?_
  · rw [writes.pool]
    exact pool
  · rw [← ram]
    exact writes.replaced
  · rw [writes.log, log]
  · rw [same]
    exact granted

theorem takeZeroed_ensures {memory : Memory} {frames : List Frame}
    (owns : memory.Owns frames) :
    Ensures takeZeroed memory (Obtains memory .zero) := by
  refine (takeFrame_ensures owns.sound).bind ?_
  intro result between taken
  cases taken with
  | refused pool ram log none spent =>
      exact Ensures.pure (.refused pool ram log none spent)
  | @granted frame _ pool ram log granted =>
      have held : between.ram.holds frame = true := by
        rw [ram]
        exact owns.held_of_available (available_of_grants pool)
      refine (zeroFrame_ensures held).bind ?_
      intro _ after writes
      exact Ensures.pure (writes.obtains pool ram log granted)

/-- The frame to copy is an owned one, so it is not the one that is taken. -/
theorem takeCopy_ensures {memory : Memory} {frames : List Frame} {source : Frame}
    (owns : memory.Owns frames) (member : source ∈ frames) :
    Ensures (takeCopy source) memory (Obtains memory (memory.ram.contentsOf source)) := by
  refine (takeFrame_ensures owns.sound).bind ?_
  intro result between taken
  cases taken with
  | refused pool ram log none spent =>
      exact Ensures.pure (.refused pool ram log none spent)
  | @granted frame _ pool ram log granted =>
      have available := available_of_grants pool
      have apart : source ≠ frame := by
        rintro rfl
        exact owns.not_available member available
      have readable : between.ram.holds source = true := by
        rw [ram]
        exact owns.held_of_mem member
      have held : between.ram.holds frame = true := by
        rw [ram]
        exact owns.held_of_available available
      refine (copyFrame_ensures apart readable held).bind ?_
      intro _ after writes
      rw [← ram]
      exact Ensures.pure (writes.obtains pool ram log granted)

/-- Whoever the frame to copy belongs to, the one that is taken is given its contents. -/
theorem takeCopy_leaves {memory : Memory} (sound : memory.pool.Sound) (source : Frame) :
    Leaves (takeCopy source) memory (Obtains memory (memory.ram.contentsOf source)) := by
  refine (Leaves.of_ensures (takeFrame_ensures sound)).bind ?_
  intro result between taken
  cases taken with
  | refused pool ram log none spent =>
      exact Leaves.pure (.refused pool ram log none spent)
  | @granted frame _ pool ram log granted =>
      refine (copyFrame_leaves source frame).bind ?_
      intro _ after writes
      rw [← ram]
      exact Leaves.pure (writes.obtains pool ram log granted)

theorem Obtains.ram_of_refused {before after : Memory} {contents : FrameContents}
    {refusal : TakeError} (obtains : Obtains before contents (.error refusal) after) :
    after.ram = before.ram := by
  cases obtains with
  | refused pool ram log none spent => exact ram

/-- A frame that was granted has changed sides. -/
theorem Obtains.exchange {before after : Memory} {contents : FrameContents} {frame : Frame}
    (obtains : Obtains before contents (.ok frame) after) : Exchange before [] after [frame] := by
  cases obtains with
  | granted pool replaced log grants =>
      refine ⟨pool.sound, pool.territory, ?_, replaced.extent, ?_⟩
      · rw [pool.available, List.append_nil]
        exact List.perm_append_comm
      · intro other outside
        apply replaced.others
        rintro rfl
        exact outside (List.mem_append_left _ (available_of_grants pool))

/-! ## Taking and writing frames -/

/-- Some frames were taken, and nothing was written but them and the base frames. -/
structure Extends (before : Memory) (base taken : List Frame) (after : Memory) : Prop where
  exchange : Exchange before base after (taken ++ base)
  lostFrames : after.lostFrames = before.lostFrames
  leakedFrees : after.pool.leakedFrees = before.pool.leakedFrees
  grants : before.grants = after.grants + taken.length

namespace Extends

variable {before between after : Memory} {base rest taken more : List Frame} {frame : Frame}

theorem refl {memory : Memory} (sound : memory.pool.Sound) (base : List Frame) :
    Extends memory base [] memory :=
  ⟨.refl sound base, rfl, rfl, rfl⟩

theorem of_perm (extension : Extends before base taken after) (perm : taken.Perm more) :
    Extends before base more after where
  exchange := extension.exchange.of_perm_left (perm.append_right base)
  lostFrames := extension.lostFrames
  leakedFrees := extension.leakedFrees
  grants := by
    rw [extension.grants, perm.length_eq]

/-- A record that names no lost frame changes nothing else. -/
theorem record (extension : Extends before base taken after) {event : Event}
    (quiet : event.lostFrame? = none) :
    Extends before base taken { after with log := event :: after.log } where
  exchange := extension.exchange.record event
  lostFrames := (lostFrames_record after quiet).trans extension.lostFrames
  leakedFrees := extension.leakedFrees
  grants := extension.grants

/-- A request that was refused takes nothing. -/
theorem of_refused (sound : before.pool.Sound) {contents : FrameContents} {refusal : TakeError}
    (obtains : Obtains before contents (.error refusal) after) (base : List Frame) :
    Extends before base [] after := by
  cases obtains with
  | refused pool ram log none spent =>
      refine ⟨.of_same sound pool ram base, ?_, ?_, ?_⟩
      · rw [Memory.lostFrames, log]
        rfl
      · rw [pool]
      · rw [none, spent]
        rfl

theorem trans (first : Extends before base taken between)
    (second : Extends between base more after) : Extends before base (more ++ taken) after where
  exchange := by
    have ready := first.exchange.of_perm_left List.perm_append_comm
    have moved := ready.trans (second.exchange.beside taken)
    apply moved.of_perm_left
    rw [List.append_assoc, List.append_assoc]
    exact List.perm_append_comm.append_left more
  lostFrames := second.lostFrames.trans first.lostFrames
  leakedFrees := second.leakedFrees.trans first.leakedFrees
  grants := by
    rw [first.grants, second.grants, List.length_append, Nat.add_assoc]

/-- Work on the frames that were taken before. -/
theorem nest (first : Extends before base taken between)
    (second : Extends between taken more after) : Extends before base (more ++ taken) after where
  exchange := first.exchange.trans (second.exchange.beside base)
  lostFrames := second.lostFrames.trans first.lostFrames
  leakedFrees := second.leakedFrees.trans first.leakedFrees
  grants := by
    rw [first.grants, second.grants, List.length_append, Nat.add_assoc]

theorem owns (extension : Extends before base taken after)
    (owns : before.Owns (base ++ rest)) : after.Owns (base ++ (taken ++ rest)) := by
  have left := (extension.exchange.beside rest).owns owns
  apply left.of_perm
  rw [← List.append_assoc]
  exact List.perm_append_comm.append_right rest

/-- Frames of other owners keep their contents. -/
theorem kept (extension : Extends before base taken after) (owns : before.Owns (base ++ rest))
    (member : frame ∈ rest) : after.ram.contentsOf frame = before.ram.contentsOf frame :=
  extension.exchange.untouched frame (owns.disjoint member)

end Extends

theorem Obtains.contents {before after : Memory} {contents : FrameContents} {frame : Frame}
    (obtains : Obtains before contents (.ok frame) after) :
    after.ram.contentsOf frame = contents := by
  cases obtains with
  | granted pool replaced log grants => exact replaced.target

theorem Obtains.extension {before after : Memory} {contents : FrameContents} {frame : Frame}
    (obtains : Obtains before contents (.ok frame) after) : Extends before [] [frame] after := by
  have taken := obtains.exchange
  cases obtains with
  | granted pool replaced log grants =>
      refine ⟨taken, ?_, pool.leakedFrees, grants⟩
      rw [Memory.lostFrames, log]
      rfl

/-- A frame is taken and filled, and then its name is written into another one. -/
theorem Obtains.extends {before between after : Memory} {contents named : FrameContents}
    {frame holder : Frame} {rest : List Frame} (owns : before.Owns (holder :: rest))
    (obtains : Obtains before contents (.ok frame) between)
    (writes : Writes between holder named after) :
    Extends before [holder] [frame] after ∧ after.ram.contentsOf frame = contents ∧
      between.ram.contentsOf holder = before.ram.contentsOf holder := by
  have taken := obtains.exchange
  cases obtains with
  | granted pool replaced log grants =>
      have apart : frame ≠ holder := by
        rintro rfl
        exact owns.not_available List.mem_cons_self (available_of_grants pool)
      have beside := taken.beside [holder]
      have member : holder ∈ between.pool.available ++ ([frame] ++ [holder]) := by
        apply List.mem_append_right
        exact List.mem_append_right _ List.mem_cons_self
      refine ⟨⟨?_, ?_, ?_, ?_⟩, ?_, ?_⟩
      · exact beside.trans (.of_writes beside.sound writes member)
      · rw [Memory.lostFrames, writes.log, log]
        rfl
      · rw [writes.pool]
        exact pool.leakedFrees
      · have same : after.grants = between.grants := by
          simp only [Memory.grants, writes.pool, writes.allowance]
        rw [same, grants]
        rfl
      · rw [writes.replaced.others frame apart, replaced.target]
      · exact replaced.others holder apart.symm

/-! ## Giving frames back -/

/-- Nothing is left of some frames but those that the pool does not manage. -/
structure Disposes (before : Memory) (frames gone : List Frame) (after : Memory) : Prop where
  exchange : Exchange before frames after gone
  unmanaged : ∀ frame ∈ gone, ¬ before.pool.territory.Manages frame
  leakedFrees : after.pool.leakedFrees = before.pool.leakedFrees + gone.length
  lostFrames : after.lostFrames = before.lostFrames

/-- If the pool manages all frames that were given back, all of them are available again. -/
theorem Disposes.gone_eq_nil {before after : Memory} {frames gone : List Frame}
    (disposes : Disposes before frames gone after)
    (managed : ∀ frame ∈ before.pool.available ++ frames,
      before.pool.territory.Manages frame) : gone = [] := by
  apply List.eq_nil_iff_forall_not_mem.mpr
  intro frame member
  apply disposes.unmanaged frame member
  apply managed
  exact disposes.exchange.balance.mem_iff.mp (List.mem_append_right _ member)

/-- Some frames were given back as they were. -/
structure Returns (before : Memory) (frames gone : List Frame) (after : Memory) : Prop
    extends Disposes before frames gone after where
  ram : after.ram = before.ram

namespace Returns

variable {before between after : Memory} {first second gone lost : List Frame}

theorem refl {memory : Memory} (sound : memory.pool.Sound) : Returns memory [] [] memory :=
  ⟨⟨.refl sound [], fun _ member => (List.not_mem_nil member).elim, rfl, rfl⟩, rfl⟩

theorem trans (earlier : Returns before first gone between)
    (later : Returns between second lost after) :
    Returns before (first ++ second) (gone ++ lost) after where
  exchange := by
    have moved := later.exchange.beside gone
    have ready := (earlier.exchange.beside second).of_perm_left List.perm_append_comm
    exact (ready.trans moved).of_perm_left List.perm_append_comm
  unmanaged := by
    intro frame member
    rcases List.mem_append.mp member with early | late
    · exact earlier.unmanaged frame early
    · rw [← earlier.exchange.territory]
      exact later.unmanaged frame late
  leakedFrees := by
    rw [later.leakedFrees, earlier.leakedFrees, List.length_append, Nat.add_assoc]
  ram := later.ram.trans earlier.ram
  lostFrames := later.lostFrames.trans earlier.lostFrames

/-- A record that names no lost frame changes nothing else. -/
theorem record (returns : Returns before first gone after) {event : Event}
    (quiet : event.lostFrame? = none) :
    Returns before first gone { after with log := event :: after.log } where
  exchange := returns.exchange.record event
  unmanaged := returns.unmanaged
  leakedFrees := returns.leakedFrees
  ram := returns.ram
  lostFrames := (lostFrames_record after quiet).trans returns.lostFrames

end Returns

/-- Frames that were taken are disposed of by giving them back. -/
theorem Extends.dispose {before between after : Memory} {taken gone : List Frame}
    (extension : Extends before [] taken between) (returns : Returns between taken gone after) :
    Disposes before [] gone after where
  exchange := by
    have taken := extension.exchange
    rw [List.append_nil] at taken
    exact taken.trans returns.exchange
  unmanaged := by
    rw [← extension.exchange.territory]
    exact returns.unmanaged
  leakedFrees := by
    rw [returns.leakedFrees, extension.leakedFrees]
  lostFrames := returns.lostFrames.trans extension.lostFrames

/-- What the pool reports names no lost frame. -/
theorem lostFrames_of_poolEvents (events : List PoolEvent) (log : List Event) :
    (events.foldl (fun log event => .pool event :: log) log).filterMap
      Event.lostFrame? = log.filterMap Event.lostFrame? := by
  induction events generalizing log with
  | nil => rfl
  | cons event rest induction =>
      rw [List.foldl_cons, induction]
      rfl

private theorem returns_of_recovers {before after : Memory} {frame : Frame}
    (recovers : FramePool.Recovers before.pool frame after.pool)
    (ram : after.ram = before.ram) (lostFrames : after.lostFrames = before.lostFrames) :
    ∃ gone, Returns before [frame] gone after := by
  have extent (other : Frame) : after.ram.holds other = before.ram.holds other := by
    rw [ram]
  have untouched (other : Frame) (_ : other ∉ before.pool.available ++ [frame]) :
      after.ram.contentsOf other = before.ram.contentsOf other := by
    rw [ram]
  by_cases managed : before.pool.territory.Manages frame
  · rcases recovers.managed managed with ⟨available, leakedFrees⟩
    refine ⟨[], ⟨⟨recovers.sound, recovers.territory, ?_, extent, untouched⟩, ?_,
      leakedFrees, lostFrames⟩, ram⟩
    · rw [available, List.append_nil]
      exact (List.perm_append_singleton frame _).symm
    · intro other member
      cases member
  · rcases recovers.reserved managed with ⟨available, leakedFrees⟩
    refine ⟨[frame], ⟨⟨recovers.sound, recovers.territory, ?_, extent, untouched⟩, ?_,
      leakedFrees, lostFrames⟩, ram⟩
    · rw [available]
    · intro other member
      rw [List.mem_singleton.mp member]
      exact managed

theorem releaseFrame_ensures {memory : Memory} {frames : List Frame} {frame : Frame}
    (owns : memory.Owns frames) (member : frame ∈ frames) :
    Ensures (releaseFrame frame) memory fun result after =>
      result = .ok () ∧ ∃ gone, Returns memory [frame] gone after := by
  rcases owns.sound.release (owns.accepted frame member) (owns.not_available member)
    with ⟨pool, events, released, recovers⟩
  refine Ensures.of_eq (onPool_eq_ok.mpr ⟨_, released, rfl, rfl⟩) ⟨rfl, ?_⟩
  exact returns_of_recovers recovers rfl (lostFrames_of_poolEvents events memory.log)

/-! ## Settling -/

/--
An exchange in which some frames may be gone for good, because they were given
back to a pool that does not manage them.
-/
def Settles (before : Memory) (given : List Frame) (after : Memory) (left : List Frame) : Prop :=
  ∃ gone, Exchange before given after (gone ++ left) ∧
    ∀ frame ∈ gone, ¬ before.pool.territory.Manages frame

namespace Settles

variable {before after : Memory} {given left other rest : List Frame} {frame : Frame}

theorem of_exchange (exchange : Exchange before given after left) :
    Settles before given after left :=
  ⟨[], exchange, fun _ member => (List.not_mem_nil member).elim⟩

theorem of_disposes {gone : List Frame} (disposes : Disposes before given gone after) :
    Settles before given after [] := by
  refine ⟨gone, ?_, disposes.unmanaged⟩
  rw [List.append_nil]
  exact disposes.exchange

theorem beside (settles : Settles before given after left) (rest : List Frame) :
    Settles before (given ++ rest) after (left ++ rest) := by
  rcases settles with ⟨gone, exchange, unmanaged⟩
  refine ⟨gone, ?_, unmanaged⟩
  rw [← List.append_assoc]
  exact exchange.beside rest

theorem of_perm_given (settles : Settles before given after left) (perm : given.Perm other) :
    Settles before other after left := by
  rcases settles with ⟨gone, exchange, unmanaged⟩
  exact ⟨gone, exchange.of_perm_given perm, unmanaged⟩

theorem of_perm_left (settles : Settles before given after left) (perm : left.Perm other) :
    Settles before given after other := by
  rcases settles with ⟨gone, exchange, unmanaged⟩
  exact ⟨gone, exchange.of_perm_left (perm.append_left gone), unmanaged⟩

/-- The frames that have nothing to do with it can also come first. -/
theorem behind (settles : Settles before given after left) (rest : List Frame) :
    Settles before (rest ++ given) after (rest ++ left) :=
  ((settles.beside rest).of_perm_given List.perm_append_comm).of_perm_left
    List.perm_append_comm

theorem territory (settles : Settles before given after left) :
    after.pool.territory = before.pool.territory := by
  rcases settles with ⟨gone, exchange, -⟩
  exact exchange.territory

theorem owns (settles : Settles before given after left) (owns : before.Owns given) :
    after.Owns left := by
  rcases settles with ⟨gone, exchange, -⟩
  exact (exchange.owns owns).right

/-- No frame appears that was not accounted for. -/
theorem subset (settles : Settles before given after left)
    (member : frame ∈ after.pool.available ++ left) :
    frame ∈ before.pool.available ++ given := by
  rcases settles with ⟨gone, exchange, -⟩
  apply exchange.balance.mem_iff.mp
  rcases List.mem_append.mp member with available | inside
  · exact List.mem_append_left _ available
  · exact List.mem_append_right _ (List.mem_append_right gone inside)

/-- No managed frame disappears. -/
theorem managed (settles : Settles before given after left)
    (managed : before.pool.territory.Manages frame)
    (member : frame ∈ before.pool.available ++ given) :
    frame ∈ after.pool.available ++ left := by
  rcases settles with ⟨gone, exchange, unmanaged⟩
  rcases List.mem_append.mp (exchange.balance.mem_iff.mpr member) with available | inside
  · exact List.mem_append_left _ available
  · rcases List.mem_append.mp inside with lost | kept
    · exact absurd managed (unmanaged frame lost)
    · exact List.mem_append_right _ kept

/-- Only frames that are available or given are written. -/
theorem untouched (settles : Settles before given after left)
    (outside : frame ∉ before.pool.available ++ given) :
    after.ram.contentsOf frame = before.ram.contentsOf frame := by
  rcases settles with ⟨gone, exchange, -⟩
  exact exchange.untouched frame outside

/-- Frames of other owners keep their contents. -/
theorem kept (settles : Settles before given after left) (owns : before.Owns (given ++ rest))
    (member : frame ∈ rest) : after.ram.contentsOf frame = before.ram.contentsOf frame :=
  settles.untouched (owns.disjoint member)

theorem extent (settles : Settles before given after left) (frame : Frame) :
    after.ram.holds frame = before.ram.holds frame := by
  rcases settles with ⟨gone, exchange, -⟩
  exact exchange.extent frame

end Settles

end Memory

end PagedMemory
