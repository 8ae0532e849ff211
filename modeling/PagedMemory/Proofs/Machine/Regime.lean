import PagedMemory.Machine.Basic

/-!
# Runs of a machine

Machines can be run under different rules, which say what may be commanded, how it
has to be answered, and what is kept track of beside the machine.  Such rules are a
*regime*.  There is one notion of a run for all of them: it starts somewhere, and each
of its steps executes a command without a panic, as the regime allows.

A regime can be made stricter, and it can be given a record of what happens.  Either
way the runs are runs of the regime that it was made from, and every run can be given
a record.  So what is known of all runs is shown once, for the regime that asks least.
-/

namespace PagedMemory

/-- Rules for running a machine. -/
structure Regime (State : Type) where
  /-- A state is a machine and what is kept track of. -/
  machine : State → Machine
  /-- Whether a command may be given and be answered in a certain way. -/
  Allows : State → Command → Answer → Prop
  /-- The state once a command has been answered. -/
  next : State → Command → Answer → Machine → State
  machine_next : ∀ state command answer after,
    machine (next state command answer after) = after := by
    intros
    rfl

namespace Regime

variable {State Other Record : Type} {regime : Regime State} {other : Regime Other}
  {first state after : State} {command : Command} {commands : List Command}

/-- A state can be reached from another one. -/
inductive Reaches (regime : Regime State) (first : State) : State → Prop where
  | refl : Reaches regime first first
  | step {state : State} {command : Command} {answer : Answer} {machine : Machine}
      (reached : Reaches regime first state) (allowed : regime.Allows state command answer)
      (executed : (regime.machine state).execute command = .ok (answer, machine)) :
      Reaches regime first (regime.next state command answer machine)

theorem Reaches.trans (earlier : regime.Reaches first state)
    (later : regime.Reaches state after) : regime.Reaches first after := by
  induction later with
  | refl => exact earlier
  | step _ allowed executed induction => exact induction.step allowed executed

/-! ## Making regimes -/

/-- Everything may be commanded, and nothing is kept track of. -/
def unrestricted : Regime Machine where
  machine machine := machine
  Allows _ _ _ := True
  next _ _ _ after := after

/-- Only some of the steps are allowed. -/
def restrict (regime : Regime State) (allowed : State → Command → Answer → Prop) :
    Regime State where
  machine := regime.machine
  Allows state command answer :=
    regime.Allows state command answer ∧ allowed state command answer
  next := regime.next
  machine_next := regime.machine_next

/-- Only certain commands are given. -/
def among (regime : Regime State) (allowed : Command → Prop) : Regime State :=
  regime.restrict fun _ command _ => allowed command

/-- A record is kept of what happens. -/
def recording (regime : Regime State)
    (record : State → Record → Command → Answer → Machine → Record) :
    Regime (State × Record) where
  machine state := regime.machine state.1
  Allows state := regime.Allows state.1
  next state command answer after :=
    (regime.next state.1 command answer after, record state.1 state.2 command answer after)
  machine_next state := regime.machine_next state.1

/-! ## Comparing regimes -/

/-- Every step under one regime is one under another, where less is kept track of. -/
structure Refines (regime : Regime State) (other : Regime Other) (view : State → Other) :
    Prop where
  machine : ∀ state, other.machine (view state) = regime.machine state
  allows : ∀ state command answer, regime.Allows state command answer →
    other.Allows (view state) command answer
  next : ∀ state command answer after,
    view (regime.next state command answer after) = other.next (view state) command answer after

theorem Reaches.view {view : State → Other} (reached : regime.Reaches first state)
    (refines : regime.Refines other view) : other.Reaches (view first) (view state) := by
  induction reached with
  | refl => exact .refl
  | @step state command answer machine _ allowed executed induction =>
      rw [← refines.machine] at executed
      rw [refines.next]
      exact induction.step (refines.allows state command answer allowed) executed

theorem restrict_refines (allowed : State → Command → Answer → Prop) :
    (regime.restrict allowed).Refines regime id where
  machine _ := rfl
  allows _ _ _ := And.left
  next _ _ _ _ := rfl

theorem recording_refines (record : State → Record → Command → Answer → Machine → Record) :
    (regime.recording record).Refines regime Prod.fst where
  machine _ := rfl
  allows _ _ _ := id
  next _ _ _ _ := rfl

/-- A run under any rules is a run of the machine. -/
theorem Reaches.unrestricted (reached : regime.Reaches first state) :
    unrestricted.Reaches (regime.machine first) (regime.machine state) :=
  reached.view ⟨fun _ => rfl, fun _ _ _ _ => trivial, regime.machine_next⟩

/-- A run under stricter rules is a run. -/
theorem Reaches.widen {allowed : State → Command → Answer → Prop}
    (reached : (regime.restrict allowed).Reaches first state) : regime.Reaches first state :=
  reached.view (restrict_refines allowed)

/-- What has been recorded of a run can be forgotten. -/
theorem Reaches.forget {record : State → Record → Command → Answer → Machine → Record}
    {first state : State × Record} (reached : (regime.recording record).Reaches first state) :
    regime.Reaches first.1 state.1 :=
  reached.view (recording_refines record)

/-- Of every run a record can be kept. -/
theorem Reaches.recorded (reached : regime.Reaches first state)
    (record : State → Record → Command → Answer → Machine → Record) (empty : Record) :
    ∃ known, (regime.recording record).Reaches (first, empty) (state, known) := by
  induction reached with
  | refl => exact ⟨empty, .refl⟩
  | step _ allowed executed induction =>
      rcases induction with ⟨known, recorded⟩
      exact ⟨_, recorded.step allowed executed⟩

/-! ## Following a list of commands -/

/-- Whether a step is allowed can be decided. -/
abbrev Decides (regime : Regime State) : Type :=
  ∀ state command answer, Decidable (regime.Allows state command answer)

instance : Decides unrestricted :=
  fun _ _ _ => .isTrue trivial

instance (regime : Regime State) [regime.Decides]
    (allowed : State → Command → Answer → Prop)
    [∀ state command answer, Decidable (allowed state command answer)] :
    (regime.restrict allowed).Decides :=
  fun _ _ _ => inferInstanceAs (Decidable (_ ∧ _))

instance (regime : Regime State) [decides : regime.Decides]
    (record : State → Record → Command → Answer → Machine → Record) :
    (regime.recording record).Decides :=
  fun state => decides state.1

/-- The state after some commands, if all of them are allowed and none panics. -/
def follow (regime : Regime State) [regime.Decides] (state : State) :
    List Command → Option State
  | [] => some state
  | command :: rest =>
      match (regime.machine state).execute command with
      | .error _ => none
      | .ok (answer, machine) =>
          if regime.Allows state command answer then
            regime.follow (regime.next state command answer machine) rest
          else
            none

variable [regime.Decides]

theorem step_of_follow (followed : regime.follow state (command :: commands) = some after) :
    ∃ answer machine, (regime.machine state).execute command = .ok (answer, machine) ∧
      regime.Allows state command answer ∧
      regime.follow (regime.next state command answer machine) commands = some after := by
  rw [follow] at followed
  split at followed
  · cases followed
  next answer machine executed =>
    split at followed
    next allowed => exact ⟨answer, machine, executed, allowed, followed⟩
    · cases followed

/-- Following commands of a certain kind is a run of such commands. -/
theorem reaches_among_of_follow {allowed : Command → Prop}
    (kind : ∀ command ∈ commands, allowed command)
    (followed : regime.follow state commands = some after) :
    (regime.among allowed).Reaches state after := by
  induction commands generalizing state with
  | nil =>
      cases followed
      exact .refl
  | cons command rest induction =>
      rcases step_of_follow followed with ⟨answer, machine, executed, permitted, others⟩
      rcases List.forall_mem_cons.mp kind with ⟨now, later⟩
      have step : (regime.among allowed).Reaches state
          (regime.next state command answer machine) := .step .refl ⟨permitted, now⟩ executed
      exact step.trans (induction later others)

/-- Following commands is a run. -/
theorem reaches_of_follow (followed : regime.follow state commands = some after) :
    regime.Reaches state after := by
  have among : (regime.among fun _ => True).Reaches state after :=
    reaches_among_of_follow (fun _ _ => trivial) followed
  exact among.widen

end Regime

end PagedMemory
