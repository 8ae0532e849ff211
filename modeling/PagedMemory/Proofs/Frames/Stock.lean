import PagedMemory.Machine.Answer
import PagedMemory.Proofs.Frames.Bootstrap

/-!
# The bootstrapped pool as a stack of frames

A `Stock` is what a client has to know about a bootstrapped pool: the frames
that it manages, the list of those it holds, and how many reserved frames were
given back.  Its answers are read off that list; there is no table, no link and
no counter of free frames.

A pool and its stock give the same answers to every sequence of requests,
whatever frames the client gives back, and the table keeps representing the
list.  So the answers of a stock, which never report a corrupt stack, are all
that a client will see, and no panic is among them.
-/

namespace PagedMemory

/-- What a client may ask of the pool. -/
inductive FrameRequest where
  | allocate (count : Nat)
  | take
  | release (frame : Frame)
  deriving DecidableEq

namespace FramePool

def serve (pool : FramePool) : FrameRequest → Checked (Answer × FramePool)
  | .allocate count => do
      let reply ← pool.allocate count
      return (.ofResult .allocate .frame reply.result, reply.pool)
  | .take => do
      let reply ← pool.take
      return (.ofResult .take .frame reply.result, reply.pool)
  | .release frame => do
      let reply ← pool.release frame
      return (.ofResult .release (fun _ => .done) reply.result, reply.pool)

/-- Serve requests in order, and list the answers. -/
def serveAll (pool : FramePool) : List FrameRequest → Checked (List Answer × FramePool)
  | [] => return ([], pool)
  | request :: rest => do
      let (answer, pool) ← pool.serve request
      let (answers, pool) ← pool.serveAll rest
      return (answer :: answers, pool)

end FramePool

/-- A stack of frames. -/
structure Stock where
  bounds : TableBounds
  /-- The frames that are free, the next one to be handed out first. -/
  frames : List Frame
  leakedFrees : Nat
  deriving DecidableEq

namespace Stock

/-- A stock from which nothing has been taken. -/
def full (bounds : TableBounds) (leaked : Nat) : Stock :=
  ⟨bounds, bounds.managed, leaked⟩

/-- Take the first frame, or answer with a refusal. -/
def pop (stock : Stock) (refusal : Refusal) : Answer × Stock :=
  match stock.frames with
  | [] => (.refused refusal, stock)
  | frame :: rest => (.frame frame, { stock with frames := rest })

def serve (stock : Stock) : FrameRequest → Answer × Stock
  | .allocate 0 => (.refused (.allocate .zeroFrames), stock)
  | .allocate 1 => stock.pop (.allocate .outOfMemory)
  | .allocate count =>
      (.refused (.allocate (.multiFrameAfterBootstrap count)), stock)
  | .take => stock.pop (.take .exhausted)
  | .release frame =>
      if frame.number < stock.bounds.first.number + stock.bounds.reserved then
        (.done, { stock with leakedFrees := stock.leakedFrees + 1 })
      else if stock.bounds.first.number + stock.bounds.total ≤ frame.number then
        (.refused (.release (.outOfRange frame.base)), stock)
      else if frame ∈ stock.frames then
        (.refused (.release (.doubleFree frame.base)), stock)
      else
        (.done, { stock with frames := frame :: stock.frames })

/-- Serve requests in order, and list the answers. -/
def serveAll (stock : Stock) : List FrameRequest → List Answer × Stock
  | [] => ([], stock)
  | request :: rest =>
      let (answer, stock) := stock.serve request
      let (answers, stock) := stock.serveAll rest
      (answer :: answers, stock)

end Stock

/-- Whether a refusal says that the frame table is damaged. -/
def Refusal.reportsDamage : Refusal → Bool
  | .allocate (.corruptFreeStack _) | .take (.corrupt _) => true
  | _ => false

/-- A stock never reports a damaged table. -/
theorem Stock.not_reportsDamage_of_serve {stock : Stock} {request : FrameRequest}
    {refusal : Refusal} (refused : (stock.serve request).1 = .refused refusal) :
    refusal.reportsDamage = false := by
  obtain ⟨bounds, frames, leaked⟩ := stock
  cases request with
  | allocate count =>
      match count with
      | 0 =>
          cases refused
          rfl
      | 1 =>
          cases frames with
          | nil =>
              cases refused
              rfl
          | cons frame rest => cases refused
      | count + 2 =>
          cases refused
          rfl
  | take =>
      cases frames with
      | nil =>
          cases refused
          rfl
      | cons frame rest => cases refused
  | release frame =>
      simp only [serve] at refused
      split at refused
      · cases refused
      · split at refused
        · cases refused
          rfl
        · split at refused
          · cases refused
            rfl
          · cases refused

theorem Stock.not_reportsDamage_of_serveAll {stock : Stock}
    {requests : List FrameRequest} {refusal : Refusal}
    (refused : .refused refusal ∈ (stock.serveAll requests).1) :
    refusal.reportsDamage = false := by
  induction requests generalizing stock with
  | nil => cases refused
  | cons request rest induction =>
      rcases List.mem_cons.mp refused with first | later
      · exact not_reportsDamage_of_serve first.symm
      · exact induction later

namespace FramePool

/-- The table of a pool represents the list of a stock. -/
structure Holds (pool : FramePool) (stock : Stock) : Prop where
  table : ∃ stack, pool.phase = .ready stack ∧ stack.bounds = stock.bounds ∧
    stack.Represents stock.frames
  leakedFrees : pool.leakedFrees = stock.leakedFrees

/-- The counter of free frames tells how many frames the stock has. -/
theorem Holds.freeFrames_eq {pool : FramePool} {stock : Stock}
    (holds : pool.Holds stock) : pool.freeFrames = stock.frames.length := by
  obtain ⟨⟨stack, ready, -, represents⟩, -⟩ := holds
  simp only [freeFrames, ready]
  exact represents.counted

theorem Holds.nodup_frames {pool : FramePool} {stock : Stock}
    (holds : pool.Holds stock) : stock.frames.Nodup := by
  obtain ⟨⟨stack, -, -, represents⟩, -⟩ := holds
  exact represents.distinct

/-- Popping the table takes the first frame of the stock. -/
private theorem pop_refines {stack : FreeStack} {stock : Stock}
    (same : stack.bounds = stock.bounds) (represents : stack.Represents stock.frames)
    (wrap : TakeError → Refusal) :
    ∃ result after, stack.pop = .ok (result, after) ∧
      .ofResult wrap .frame result = (stock.pop (wrap .exhausted)).1 ∧
      Holds ⟨.ready after, stock.leakedFrees⟩ (stock.pop (wrap .exhausted)).2 := by
  obtain ⟨bounds, frames, leaked⟩ := stock
  cases frames with
  | nil =>
      exact ⟨_, _, represents.pop_nil, rfl, ⟨stack, rfl, same, represents⟩, rfl⟩
  | cons frame rest =>
      obtain ⟨after, popped, represents', same'⟩ := represents.pop_cons
      exact ⟨_, _, popped, rfl, ⟨after, rfl, same'.trans same, represents'⟩, rfl⟩

/-- Giving a frame back has the same answer and effect on both sides. -/
private theorem release_refines {stack : FreeStack} {stock : Stock}
    (same : stack.bounds = stock.bounds) (represents : stack.Represents stock.frames)
    (frame : Frame) :
    ∃ after, serve ⟨.ready stack, stock.leakedFrees⟩ (.release frame) =
        .ok ((stock.serve (.release frame)).1, after) ∧
      after.Holds (stock.serve (.release frame)).2 := by
  obtain ⟨bounds, frames, leaked⟩ := stock
  obtain rfl : stack.bounds = bounds := same
  obtain ⟨boundary, located, number⟩ := represents.reservedEnd
  by_cases below : frame.number < stack.first.number + stack.reserved
  · refine ⟨⟨.ready stack, leaked + 1⟩, ?_, ?_⟩
    · simp only [serve, release, located, bind, Except.bind, number,
        Nat.not_le_of_lt below, if_false, Stock.serve, FreeStack.bounds, below, if_true]
      rfl
    · simp only [Stock.serve, FreeStack.bounds, below, if_true]
      exact ⟨⟨stack, rfl, rfl, represents⟩, rfl⟩
  · have above : stack.first.number + stack.reserved ≤ frame.number :=
      Nat.le_of_not_lt below
    by_cases past : stack.first.number + stack.total ≤ frame.number
    · refine ⟨⟨.ready stack, leaked⟩, ?_, ?_⟩
      · simp only [serve, release, located, bind, Except.bind, number, above, if_true,
          FreeStack.push_outOfRange past, Stock.serve, FreeStack.bounds, below, if_false,
          past]
        rfl
      · simp only [Stock.serve, FreeStack.bounds, below, if_false, past, if_true]
        exact ⟨⟨stack, rfl, rfl, represents⟩, rfl⟩
    · have managed : stack.bounds.Manages frame := ⟨above, Nat.lt_of_not_le past⟩
      by_cases member : frame ∈ frames
      · refine ⟨⟨.ready stack, leaked⟩, ?_, ?_⟩
        · simp only [serve, release, located, bind, Except.bind, number, above, if_true,
            represents.push_member member, Stock.serve, FreeStack.bounds, below, if_false,
            past, member]
          rfl
        · simp only [Stock.serve, FreeStack.bounds, below, if_false, past, member, if_true]
          exact ⟨⟨stack, rfl, rfl, represents⟩, rfl⟩
      · obtain ⟨after, pushed, represents', same'⟩ :=
          represents.push_new managed member
        refine ⟨⟨.ready after, leaked⟩, ?_, ?_⟩
        · simp only [serve, release, located, bind, Except.bind, number, above, if_true,
            pushed, Stock.serve, FreeStack.bounds, below, if_false, past, member]
          rfl
        · simp only [Stock.serve, FreeStack.bounds, below, if_false, past, member]
          exact ⟨⟨after, rfl, same', represents'⟩, rfl⟩

/-- One request has the same answer and effect on both sides. -/
theorem Holds.serve {pool : FramePool} {stock : Stock} (holds : pool.Holds stock)
    (request : FrameRequest) :
    ∃ after, pool.serve request = .ok ((stock.serve request).1, after) ∧
      after.Holds (stock.serve request).2 := by
  obtain ⟨phase, leaked⟩ := pool
  obtain ⟨⟨stack, ready, same, represents⟩, leakedFrees⟩ := holds
  obtain rfl : phase = .ready stack := ready
  obtain rfl : leaked = stock.leakedFrees := leakedFrees
  have unchanged : Holds ⟨.ready stack, stock.leakedFrees⟩ stock :=
    ⟨⟨stack, rfl, same, represents⟩, rfl⟩
  cases request with
  | allocate count =>
      match count with
      | 0 => exact ⟨_, rfl, unchanged⟩
      | 1 =>
          obtain ⟨result, after, popped, answered, holds⟩ :=
            pop_refines same represents fun refusal => .allocate (.ofTake refusal)
          refine ⟨⟨.ready after, stock.leakedFrees⟩, ?_, holds⟩
          simp only [FramePool.serve, allocate, Nat.one_ne_zero, if_false, Nat.lt_irrefl,
            popped, Stock.serve]
          rw [show stock.pop (.allocate .outOfMemory) =
            stock.pop (.allocate (.ofTake .exhausted)) from rfl, ← answered]
          cases result <;> rfl
      | count + 2 => exact ⟨_, rfl, unchanged⟩
  | take =>
      obtain ⟨result, after, popped, answered, holds⟩ :=
        pop_refines same represents .take
      refine ⟨⟨.ready after, stock.leakedFrees⟩, ?_, holds⟩
      simp only [FramePool.serve, take, popped, Stock.serve, ← answered]
      rfl
  | release frame => exact release_refines same represents frame

/-- A sequence of requests has the same answers and effect on both sides. -/
theorem Holds.serveAll {pool : FramePool} {stock : Stock} (holds : pool.Holds stock)
    (requests : List FrameRequest) :
    ∃ after, pool.serveAll requests = .ok ((stock.serveAll requests).1, after) ∧
      after.Holds (stock.serveAll requests).2 := by
  induction requests generalizing pool stock with
  | nil => exact ⟨pool, rfl, holds⟩
  | cons request rest induction =>
      obtain ⟨between, served, holds'⟩ := holds.serve request
      obtain ⟨after, servedRest, holds''⟩ := induction holds'
      refine ⟨after, ?_, holds''⟩
      simp only [FramePool.serveAll, served, bind, Except.bind, servedRest]
      rfl

/-- A bootstrapped pool holds the full stock of its table. -/
theorem holds_of_bootstrapped {memory : BootMemory} {stack : FreeStack}
    (bootstrapped : Bootstrapped memory stack) (leaked : Nat) :
    Holds ⟨.ready stack, leaked⟩ (.full stack.bounds leaked) :=
  ⟨⟨stack, rfl, rfl, bootstrapped.represents⟩, rfl⟩

/--
After a bootstrap the pool is a stack of frames.  It starts with all frames past
the table's own, in ascending order, and from then on answers every sequence of
requests like its stock, with a table that represents what the stock holds.
-/
theorem serves_like_stock_of_bootstrap {pool : FramePool} {reachable : Frame → Bool}
    {reply : Reply BootstrapError Unit} (replied : pool.bootstrap reachable = .ok reply)
    (success : reply.result = .ok ()) :
    ∃ bounds, reply.pool.territory = .table bounds ∧
      reply.pool.totalFrames = bounds.total ∧
      reply.pool.footprintFrames = bounds.reserved ∧
      bounds.managed.map Block.number =
        List.range' (bounds.first.number + bounds.reserved)
          (bounds.total - bounds.reserved) ∧
      ∀ requests,
        let (answers, stock) :=
          (Stock.full bounds pool.leakedFrees).serveAll requests
        (∃ after, reply.pool.serveAll requests = .ok (answers, after) ∧
          after.Holds stock ∧ after.freeFrames = stock.frames.length) ∧
        stock.frames.Nodup ∧
        ∀ refusal, .refused refusal ∈ answers → refusal.reportsDamage = false := by
  obtain ⟨memory, stack, -, bootstrapped, ready⟩ := ready_of_bootstrap replied success
  have start := holds_of_bootstrapped bootstrapped pool.leakedFrees
  rw [← ready] at start
  refine ⟨stack.bounds, by rw [ready]; rfl, by rw [ready]; rfl, by rw [ready]; rfl,
    TableBounds.map_number_managed bootstrapped.represents.fits, ?_⟩
  intro requests
  obtain ⟨after, served, holds⟩ := start.serveAll requests
  exact ⟨⟨after, served, holds, holds.freeFrames_eq⟩, holds.nodup_frames,
    fun refusal refused => Stock.not_reportsDamage_of_serveAll refused⟩

/-- Eight frames of boot memory, the lowest of which becomes the table. -/
theorem serves_like_stock_over_eight_frames :
    let pool := FramePool.new (.bump ⟨⟨0x1000⟩, ⟨0x9000⟩⟩)
    ∃ reply, pool.bootstrap (fun _ => true) = .ok reply ∧ reply.result = .ok () ∧
      ∃ bounds, reply.pool.territory = .table bounds ∧
        ∀ requests, ∃ after,
          reply.pool.serveAll requests =
              .ok (((Stock.full bounds 0).serveAll requests).1, after) ∧
            after.Holds ((Stock.full bounds 0).serveAll requests).2 := by
  intro pool
  have result : (pool.bootstrap fun _ => true).map Reply.result = .ok (.ok ()) := by
    decide +kernel
  cases replied : pool.bootstrap fun _ => true with
  | error panic =>
      rw [replied] at result
      cases result
  | ok reply =>
      rw [replied] at result
      have success : reply.result = .ok () := Except.ok.inj result
      obtain ⟨bounds, territory, -, -, -, served⟩ :=
        serves_like_stock_of_bootstrap replied success
      refine ⟨reply, rfl, success, bounds, territory, fun requests => ?_⟩
      obtain ⟨⟨after, answered, holds, -⟩, -, -⟩ := served requests
      exact ⟨after, answered, holds⟩

end FramePool

end PagedMemory
