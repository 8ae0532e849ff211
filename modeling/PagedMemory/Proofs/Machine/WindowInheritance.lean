import PagedMemory.Proofs.Machine.Fork
import PagedMemory.Proofs.Machine.LoadWindows

/-!
# Load windows of forks

To the loader, the window of a space is a switch: whether it is open decides what each
call to open or to close it is answered, and nothing else does.

A fork takes the switch of its source over together with the regions.  A space without
regions has nothing to hand on, and its fork is a space like any new one: it goes back
to no declarations, and its window is closed.  So if the source has a window open over
no regions, the two go on as two spaces that were made apart.
-/

namespace PagedMemory

open Memory

/-- A call of the loader about the window of a space. -/
inductive WindowCall where
  | opening
  | closing
  deriving DecidableEq

namespace WindowCall

def command : WindowCall → SpaceCommand
  | .opening => .openWindow
  | .closing => .closeWindow

/-- What a call is answered while the window is open, or closed, and how it stands then. -/
def serve : WindowCall → Bool → Answer × Bool
  | .opening, false => (.done, true)
  | .opening, true => (.refused (.space (.invariant .loadWindowAlreadyOpen)), true)
  | .closing, true => (.done, false)
  | .closing, false => (.refused (.space (.invariant .loadWindowNotOpen)), false)

/-- What calls are answered in their order, from how the window stands before the first. -/
def answers (opened : Bool) : List WindowCall → List Answer
  | [] => []
  | call :: rest => (call.serve opened).1 :: answers (call.serve opened).2 rest

/-- A single call tells an open window from a closed one. -/
theorem answers_inj {left right : Bool} :
    (∀ calls, answers left calls = answers right calls) ↔ left = right := by
  constructor
  · intro same
    have told := same [.closing]
    cases left <;> cases right <;> first | rfl | cases told
  · rintro rfl calls
    rfl

/-- The window of a space is served as its switch is. -/
theorem run_serves {space : AddressSpace} {declarations : List Declaration}
    (reflects : space.Reflects declarations) (call : WindowCall) (memory : Memory) :
    Ensures (call.command.run space) memory fun outcome _ =>
      outcome.1 = (call.serve space.loading).1 ∧
        outcome.2.loading = (call.serve space.loading).2 ∧
        ∃ later, outcome.2.Reflects later := by
  cases call with
  | opening =>
      refine (reflects.openWindow memory).bind ?_
      rintro ⟨outcome, changed⟩ after ends
      apply Ensures.pure
      cases loading : space.loading with
      | true =>
          rw [if_pos loading] at ends
          rcases ends with ⟨same, -⟩
          cases same
          exact ⟨rfl, loading, declarations, reflects⟩
      | false =>
          rw [if_neg (ne_true_of_eq_false loading)] at ends
          rcases ends with ⟨rfl, opened, seen⟩
          exact ⟨rfl, opened, _, seen⟩
  | closing =>
      refine (reflects.closeWindow memory).bind ?_
      rintro ⟨outcome, changed⟩ after ends
      apply Ensures.pure
      cases loading : space.loading with
      | true =>
          rw [if_pos loading] at ends
          rcases ends with ⟨rfl, closed, restored⟩
          exact ⟨rfl, closed, declarations, restored⟩
      | false =>
          rw [if_neg (ne_true_of_eq_false loading)] at ends
          rcases ends with ⟨same, -⟩
          cases same
          exact ⟨rfl, loading, declarations, reflects⟩

end WindowCall

namespace Machine

variable {machine after : Machine} {record : Nat → List Declaration} {name : Nat}
  {space : AddressSpace}

/-- What commands are answered, up to the first panic. -/
def answers (machine : Machine) (commands : List Command) : List (Checked Answer) :=
  (machine.transcript commands).map (Except.map Observation.answer)

theorem answers_cons {command : Command} {answer : Answer}
    (executed : machine.execute command = .ok (answer, after)) (rest : List Command) :
    machine.answers (command :: rest) = .ok answer :: after.clearLog.answers rest := by
  simp only [answers, transcript, observe, executed, bind, Except.bind]
  rfl

/-- What a space answers to calls about its window. -/
def windowAnswers (machine : Machine) (name : Nat) (calls : List WindowCall) :
    List (Checked Answer) :=
  machine.answers (calls.map fun call => .change name call.command)

/-- One call turns the switch of the space, whatever else the machine holds. -/
theorem execute_window {declarations : List Declaration}
    (found : machine.spaces.find? name = some space)
    (reflects : space.Reflects declarations) (call : WindowCall) :
    ∃ after changed later,
      machine.execute (.change name call.command) =
          .ok ((call.serve space.loading).1, after) ∧
        after.spaces.find? name = some changed ∧
        changed.loading = (call.serve space.loading).2 ∧ changed.Reflects later := by
  rcases machine with ⟨memory, spaces⟩
  rcases call.run_serves reflects memory with
    ⟨⟨answer, changed⟩, between, returns, answered, stands, later, seen⟩
  refine ⟨⟨between, spaces.insert name changed⟩, changed, later, ?_, ?_, stands, seen⟩
  · rw [execute, withSpace_of_found found]
    simp only [returns, bind, Except.bind]
    rw [← answered]
    rfl
  · exact spaces.find?_insert_self name changed

/-- In any order and number, calls are answered from how the window stands at first. -/
theorem windowAnswers_eq {declarations : List Declaration}
    (found : machine.spaces.find? name = some space)
    (reflects : space.Reflects declarations) (calls : List WindowCall) :
    machine.windowAnswers name calls = (WindowCall.answers space.loading calls).map .ok := by
  induction calls generalizing machine space declarations with
  | nil => rfl
  | cons call rest induction =>
      rcases execute_window found reflects call with
        ⟨after, changed, later, executed, located, stands, seen⟩
      calc
        machine.windowAnswers name (call :: rest)
          = .ok (call.serve space.loading).1 :: after.clearLog.windowAnswers name rest :=
            answers_cons executed _
        _ = .ok (call.serve space.loading).1 ::
              (WindowCall.answers changed.loading rest).map .ok := by
            exact congrArg _ (induction located seen)
        _ = (WindowCall.answers space.loading (call :: rest)).map .ok := by
            rw [stands]
            rfl

/--
The window of a fork is as that of its source if that has regions, and closed as in a
new space if it has none.  From then on each of the two answers calls as its own switch
stands, so they answer all calls alike unless the source has a window open over no
regions.
-/
theorem fork_takes_window_of_regions {first : Machine} (empty : first.spaces = .empty)
    (records : declaring.Reaches (first, fun _ => []) (machine, record))
    (found : machine.spaces.find? name = some space) {copy : Nat} {heap : Heap} {root : Frame}
    (forked : machine.execute (.fork name copy heap) = .ok (.frame root, after)) :
    ∃ made, after.spaces.find? name = some space ∧ after.spaces.find? copy = some made ∧
      made.loading = (space.loading && !space.regions.entries.isEmpty) ∧
      (∀ calls, after.windowAnswers name calls =
        (WindowCall.answers space.loading calls).map .ok) ∧
      (∀ calls, after.windowAnswers copy calls =
        (WindowCall.answers made.loading calls).map .ok) ∧
      ((∀ calls, after.windowAnswers copy calls = after.windowAnswers name calls) ↔
        (space.loading = true → space.regions.entries ≠ [])) := by
  rcases finds_of_fork found forked with ⟨kept, made, located, -, loading⟩
  have stand := reflects_of_reaches empty (records.step trivial forked)
  have source := windowAnswers_eq kept (stand name space kept)
  have fork := windowAnswers_eq located (stand copy made located)
  refine ⟨made, kept, located, loading, source, fork, ?_⟩
  have told : Function.Injective (List.map (.ok : Answer → Checked Answer)) :=
    List.map_injective_iff.mpr fun _ _ same => Except.ok.inj same
  calc
    (∀ calls, after.windowAnswers copy calls = after.windowAnswers name calls)
      ↔ ∀ calls, WindowCall.answers made.loading calls =
          WindowCall.answers space.loading calls := by
        simp only [source, fork, told.eq_iff]
    _ ↔ made.loading = space.loading := WindowCall.answers_inj
    _ ↔ (space.loading = true → space.regions.entries ≠ []) := by
        rw [loading]
        cases space.loading <;> simp

/-- A fork is taken in a window that was opened over one region. -/
theorem fork_takes_window_of_one_region :
    let commands : List Command := [
      .create 0,
      .change 0 (.declare ⟨0x400000⟩ 0x1000 ⟨5⟩ .available),
      .change 0 .openWindow]
    ∃ ledger space root after,
      Ledger.ownership.follow (Ledger.start eightFrames) commands = some ledger ∧
      ledger.machine.spaces.find? 0 = some space ∧ space.loading = true ∧
      ledger.machine.execute (.fork 0 1 .available) = .ok (.frame root, after) ∧
      after.windowAnswers 1 [.closing, .closing, .opening] =
        [.ok .done, .ok (.refused (.space (.invariant .loadWindowNotOpen))), .ok .done] ∧
      ∀ calls, after.windowAnswers 1 calls = after.windowAnswers 0 calls := by
  intro commands
  have outcome : (Ledger.ownership.follow (Ledger.start eightFrames) commands).bind (fun ledger =>
      (ledger.machine.spaces.find? 0).map fun space =>
        (ledger.memory.pool.freeFrames, ledger.memory.allowance, ledger.spaces.length,
          [ledger.machine.spaces.holds 1, space.loading, space.regions.entries.isEmpty])) =
      some (5, none, 1, [false, true, false]) := by
    decide +kernel
  rcases Option.bind_eq_some_iff.mp outcome with ⟨ledger, followed, outcome⟩
  rcases Option.map_eq_some_iff.mp outcome with ⟨space, found, observed⟩
  simp only [Prod.mk.injEq, List.cons.injEq] at observed
  rcases observed with ⟨free, unlimited, single, vacant, opened, some, -⟩
  have reached := Regime.reaches_of_follow followed
  rcases Ledger.balanced_of_reaches starts_eightFrames reached with ⟨balanced, table⟩
  have count := Ledger.count_of_single starts_eightFrames reached found single
  have available := balanced.owns.sound.freeFrames_eq (FramePool.counters_of_table table).1
  have regions : space.regions.entries ≠ [] := by
    intro none
    rw [none] at some
    cases some
  have enough : space.forkCost ledger.memory.ram ≤ ledger.memory.grants := by
    rw [AddressSpace.forkCost, if_neg regions, Memory.le_grants_iff]
    dsimp only at count
    refine ⟨by omega, ?_⟩
    intro left limited
    cases unlimited.symm.trans limited
  rcases balanced.forks found .available with ⟨result, between, returns, forks⟩
  rcases forks.succeeds_iff.mpr ⟨enough, fun _ => rfl⟩ with ⟨copy, rfl⟩
  have executed := execute_fork found (ne_true_of_eq_false vacant) returns
  rcases exists_declaring reached.unrestricted with ⟨record, records⟩
  rcases fork_takes_window_of_regions rfl records found executed with
    ⟨made, -, -, loading, -, fork, alike⟩
  rw [opened, some] at loading
  refine ⟨ledger, space, copy.root, _, followed, found, opened, executed, ?_, ?_⟩
  · rw [fork, loading]
    rfl
  · exact alike.mpr fun _ => regions

/-- A window is open over no regions; the fork that is taken then starts with a closed one. -/
theorem fork_drops_window_over_no_regions :
    let commands : List Command := [.create 0, .change 0 .openWindow, .fork 0 1 .available]
    ∃ machine record space copy,
      declaring.follow (eightFrames, fun _ => []) commands = some (machine, record) ∧
      machine.spaces.find? 0 = some space ∧ machine.spaces.find? 1 = some copy ∧
      space.loading = true ∧ copy.loading = false ∧
      machine.windowAnswers 0 [.closing] = [.ok .done] ∧
      machine.windowAnswers 1 [.closing] =
        [.ok (.refused (.space (.invariant .loadWindowNotOpen)))] := by
  intro commands
  have outcome : (declaring.follow (eightFrames, fun _ => []) commands).bind (fun reached =>
      (reached.1.spaces.find? 0).bind fun space => (reached.1.spaces.find? 1).map fun copy =>
        (space.loading, copy.loading)) = some (true, false) := by
    decide +kernel
  rcases Option.bind_eq_some_iff.mp outcome with ⟨⟨machine, record⟩, ran, outcome⟩
  rcases Option.bind_eq_some_iff.mp outcome with ⟨space, found, outcome⟩
  rcases Option.map_eq_some_iff.mp outcome with ⟨copy, copied, observed⟩
  rcases Prod.mk.inj observed with ⟨opened, closed⟩
  have stand := reflects_of_reaches rfl (Regime.reaches_of_follow ran)
  refine ⟨machine, record, space, copy, ran, found, copied, opened, closed, ?_, ?_⟩
  · rw [windowAnswers_eq found (stand 0 space found), opened]
    rfl
  · rw [windowAnswers_eq copied (stand 1 copy copied), closed]
    rfl

end Machine

end PagedMemory
