import PagedMemory.Proofs.Frames.FreeEntries

/-!
# Giving frames back to any pool

A pool answers whoever gives a frame back, and whatever frame that is: the frame
may belong to somebody else, it may be available already or lie outside the
table.  This needs no more of the pool than that the end of the table's storage
can be named and that the counter has room for the frames that are not on the
stack, so a damaged table answers as well.

A reserved frame is counted and is never rejected.  A rejected frame leaves the
pool as it was.
-/

namespace PagedMemory

namespace FramePool

variable {pool : FramePool}

/-- Whether giving a frame back only counts. -/
def Reserves (pool : FramePool) (frame : Frame) : Bool :=
  match pool.phase with
  | .early _ => true
  | .ready stack => decide (frame.number < stack.first.number + stack.reserved)

/-- The end of the table's own storage can be named, and the counter has room. -/
def Bounded (pool : FramePool) : Prop :=
  ∀ stack, pool.phase = .ready stack →
    stack.first.number + stack.reserved < blockLimit ∧ stack.Roomy

theorem Sound.bounded (sound : pool.Sound) : pool.Bounded := by
  intro stack ready
  cases sound with
  | early aligned => cases ready
  | ready represents mapped =>
      cases ready
      have fits := represents.fits
      have less := represents.reserved_lt
      exact ⟨by omega, represents.roomy⟩

theorem Sound.fits_of_table {bounds : TableBounds} (sound : pool.Sound)
    (table : pool.territory = .table bounds) :
    bounds.first.number + bounds.total ≤ blockLimit := by
  cases sound with
  | early aligned => cases table
  | ready represents mapped =>
      cases table
      exact represents.fits

theorem reserves_of_early (early : pool.isBootstrapped = false) (frame : Frame) :
    pool.Reserves frame = true := by
  rcases pool with ⟨phase, leaked⟩
  cases phase with
  | early memory => rfl
  | ready stack => cases early

theorem accepts_of_manages {frame : Frame} (managed : pool.territory.Manages frame) :
    pool.territory.Accepts frame := by
  generalize pool.territory = territory at managed
  cases territory with
  | boot last => exact managed.elim
  | table bounds => exact Or.inr managed

theorem isBootstrapped_of_manages {frame : Frame} (managed : pool.territory.Manages frame) :
    pool.isBootstrapped = true := by
  rcases pool with ⟨phase, leaked⟩
  cases phase with
  | early memory => exact managed.elim
  | ready stack => rfl

/-- What a pool makes of a frame that is given back. -/
structure Handles (before : FramePool) (frame : Frame) (result : Except ReleaseError Unit)
    (after : FramePool) : Prop where
  bounded : after.Bounded
  reserves : after.Reserves = before.Reserves
  reserved : before.Reserves frame = true → result = .ok ()
  leakedFrees : after.leakedFrees =
    before.leakedFrees + if before.Reserves frame then 1 else 0
  rejected : ∀ cause, result = .error cause → after = before

/-- A reserved frame is counted. -/
theorem handles_leak (bounded : pool.Bounded) {frame : Frame} (reserved : pool.Reserves frame = true) :
    Handles pool frame (pool.leak frame).result (pool.leak frame).pool := by
  refine ⟨bounded, rfl, fun _ => rfl, ?_, nofun⟩
  rw [if_pos reserved]
  rfl

theorem handles_push {stack after : FreeStack} {leaked : Nat} {frame : Frame}
    {result : Except ReleaseError Unit} (bounded : Bounded ⟨.ready stack, leaked⟩)
    (past : stack.first.number + stack.reserved ≤ frame.number)
    (pushes : stack.Pushes frame result after) :
    Handles ⟨.ready stack, leaked⟩ frame result ⟨.ready after, leaked⟩ := by
  have first : after.first = stack.first := congrArg TableBounds.first pushes.bounds
  have reserved : after.reserved = stack.reserved := congrArg TableBounds.reserved pushes.bounds
  have unreserved : Reserves ⟨.ready stack, leaked⟩ frame = false :=
    decide_eq_false (Nat.not_lt.mpr past)
  refine ⟨?_, ?_, ?_, ?_, ?_⟩
  · rintro later ⟨⟩
    rcases bounded stack rfl with ⟨named, roomy⟩
    rw [first, reserved]
    exact ⟨named, roomy.pushes pushes⟩
  · funext other
    simp only [Reserves, first, reserved]
  · intro counted
    rw [unreserved] at counted
    cases counted
  · rw [unreserved]
    rfl
  · rintro cause rfl
    rw [pushes.eq_of_error]

/-- Whatever frame is given back, the pool answers. -/
theorem Bounded.release (bounded : pool.Bounded) (frame : Frame) :
    ∃ result after events, pool.release frame = .ok ⟨result, after, events⟩ ∧
      Handles pool frame result after := by
  rcases pool with ⟨phase, leaked⟩
  cases phase with
  | early memory => exact ⟨_, _, _, rfl, handles_leak bounded rfl⟩
  | ready stack =>
      by_cases past : stack.first.number + stack.reserved ≤ frame.number
      · obtain ⟨result, after, pushed⟩ := (bounded stack rfl).2.push_answers past
        refine ⟨result, ⟨.ready after, leaked⟩, [], ?_,
          handles_push bounded past (FreeStack.pushes_of_push pushed)⟩
        rw [release_of_past past, pushed]
        rfl
      · have below := Nat.lt_of_not_le past
        refine ⟨_, _, _, release_of_below below (bounded stack rfl).1,
          handles_leak bounded (decide_eq_true below)⟩

end FramePool

end PagedMemory
