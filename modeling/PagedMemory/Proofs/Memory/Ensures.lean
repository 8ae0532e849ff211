import PagedMemory.Memory

/-!
# Correctness of memory computations

`Ensures program before post` says that a computation started in a given state
does not panic, and that its value and the state it leaves satisfy a condition.
A panic satisfies no condition, so a theorem of this form always includes that
the computation returns.

`Leaves program before post` asks the same of a computation that may as well panic,
and `Yields program post` is about values only: whatever the state, a value that is
returned satisfies the condition.
-/

namespace PagedMemory.Memory

/-- A computation goes on with the value of a check that passes. -/
theorem bind_of_passes {α β : Type} {check : Checked α} {value : α} (passes : check = .ok value)
    (next : α → MemoryM β) (memory : Memory) :
    (liftM check >>= next) memory = next value memory := by
  rw [passes]
  rfl

/-- A computation returns, and its outcome satisfies a condition. -/
def Ensures {α : Type} (program : MemoryM α) (before : Memory)
    (post : α → Memory → Prop) : Prop :=
  ∃ value after, program before = .ok (value, after) ∧ post value after

namespace Ensures

variable {α β : Type} {before : Memory}

theorem of_eq {program : MemoryM α} {value : α} {after : Memory}
    {post : α → Memory → Prop} (returns : program before = .ok (value, after))
    (holds : post value after) : Ensures program before post :=
  ⟨value, after, returns, holds⟩

protected theorem pure {value : α} {post : α → Memory → Prop}
    (holds : post value before) : Ensures (pure value) before post :=
  ⟨value, before, rfl, holds⟩

theorem imp {program : MemoryM α} {post weaker : α → Memory → Prop}
    (ensured : Ensures program before post)
    (implies : ∀ value after, post value after → weaker value after) :
    Ensures program before weaker := by
  rcases ensured with ⟨value, after, returns, holds⟩
  exact ⟨value, after, returns, implies value after holds⟩

protected theorem bind {step : MemoryM α} {next : α → MemoryM β}
    {middle : α → Memory → Prop} {post : β → Memory → Prop}
    (first : Ensures step before middle)
    (rest : ∀ value between, middle value between → Ensures (next value) between post) :
    Ensures (step >>= next) before post := by
  rcases first with ⟨value, between, returns, holds⟩
  rcases rest value between holds with ⟨result, after, returnsRest, holdsRest⟩
  exact ⟨result, after,
    bind_eq_ok.mpr ⟨value, between, returns, returnsRest⟩, holdsRest⟩

/-- A computation has one outcome, so that is the one that satisfies the condition. -/
theorem of_returns {program : MemoryM α} {post : α → Memory → Prop} {value : α}
    {after : Memory} (ensured : Ensures program before post)
    (returns : program before = .ok (value, after)) : post value after := by
  rcases ensured with ⟨value', after', same, holds⟩
  rw [returns] at same
  cases same
  exact holds

theorem get_then {next : Memory → MemoryM β} {post : β → Memory → Prop}
    (rest : Ensures (next before) before post) : Ensures (get >>= next) before post := by
  rcases rest with ⟨result, after, returns, holds⟩
  exact ⟨result, after, bind_eq_ok.mpr ⟨before, before, rfl, returns⟩, holds⟩

/-- A check that passes leaves the state alone. -/
theorem lift_then {check : Checked α} {value : α} {next : α → MemoryM β}
    {post : β → Memory → Prop} (passes : check = .ok value)
    (rest : Ensures (next value) before post) :
    Ensures (liftM check >>= next) before post := by
  rw [Ensures, bind_of_passes passes]
  exact rest

theorem record_then {event : Event} {next : Unit → MemoryM β} {post : β → Memory → Prop}
    (rest : Ensures (next ()) { before with log := event :: before.log } post) :
    Ensures (Memory.record event >>= next) before post := by
  rcases rest with ⟨result, after, returns, holds⟩
  exact ⟨result, after, bind_eq_ok.mpr ⟨(), _, record_eq event before, returns⟩, holds⟩

theorem inspectRam {view : Ram → Checked α} {value : α}
    {post : α → Memory → Prop} (seen : view before.ram = .ok value)
    (holds : post value before) : Ensures (Memory.inspectRam view) before post :=
  ⟨value, before, inspectRam_eq_ok.mpr ⟨seen, rfl⟩, holds⟩

theorem changeRam {change : Ram → Checked Ram} {ram : Ram}
    {post : Unit → Memory → Prop} (changed : change before.ram = .ok ram)
    (holds : post () { before with ram }) :
    Ensures (Memory.changeRam change) before post :=
  ⟨(), _, changeRam_eq_ok.mpr ⟨ram, changed, rfl⟩, holds⟩

end Ensures

/-! ## Whatever state is left -/

/-- If a computation returns, its outcome satisfies a condition. -/
def Leaves {α : Type} (program : MemoryM α) (before : Memory)
    (post : α → Memory → Prop) : Prop :=
  ∀ value after, program before = .ok (value, after) → post value after

namespace Leaves

variable {α β : Type} {before : Memory}

theorem of_ensures {program : MemoryM α} {post : α → Memory → Prop}
    (ensured : Ensures program before post) : Leaves program before post :=
  fun _ _ returns => ensured.of_returns returns

protected theorem pure {value : α} {post : α → Memory → Prop}
    (holds : post value before) : Leaves (pure value) before post := by
  intro result after returns
  rcases pure_eq_ok.mp returns with ⟨rfl, rfl⟩
  exact holds

theorem imp {program : MemoryM α} {post weaker : α → Memory → Prop}
    (left : Leaves program before post)
    (implies : ∀ value after, post value after → weaker value after) :
    Leaves program before weaker :=
  fun value after returns => implies value after (left value after returns)

protected theorem bind {step : MemoryM α} {next : α → MemoryM β}
    {middle : α → Memory → Prop} {post : β → Memory → Prop}
    (first : Leaves step before middle)
    (rest : ∀ value between, middle value between → Leaves (next value) between post) :
    Leaves (step >>= next) before post := by
  intro result after returns
  rcases bind_eq_ok.mp returns with ⟨value, between, stepped, finished⟩
  exact rest value between (first value between stepped) result after finished

/-- A check leaves the state alone. -/
theorem lift_then {check : Checked α} {next : α → MemoryM β} {post : β → Memory → Prop}
    (rest : ∀ value, check = .ok value → Leaves (next value) before post) :
    Leaves (liftM check >>= next) before post := by
  intro result after returns
  rcases bind_eq_ok.mp returns with ⟨value, between, checked, finished⟩
  rcases Checked.bind_eq_ok.mp checked with ⟨value', passes, same⟩
  cases same
  exact rest value passes result after finished

theorem record_then {event : Event} {next : Unit → MemoryM β} {post : β → Memory → Prop}
    (rest : Leaves (next ()) { before with log := event :: before.log } post) :
    Leaves (Memory.record event >>= next) before post := by
  intro result after returns
  rcases bind_eq_ok.mp returns with ⟨_, between, recorded, finished⟩
  rw [record_eq] at recorded
  cases recorded
  exact rest result after finished

end Leaves

/-! ## Whatever is returned -/

/-- Whatever a computation returns satisfies a condition; it may as well panic. -/
def Yields {α : Type} (program : MemoryM α) (post : α → Prop) : Prop :=
  ∀ before value after, program before = .ok (value, after) → post value

namespace Yields

variable {α β : Type} {post : β → Prop}

protected theorem pure {value : β} (holds : post value) : Yields (pure value) post := by
  intro before result after returns
  rcases pure_eq_ok.mp returns with ⟨rfl, -⟩
  exact holds

protected theorem bind {step : MemoryM α} {next : α → MemoryM β} {middle : α → Prop}
    (first : Yields step middle) (rest : ∀ value, middle value → Yields (next value) post) :
    Yields (step >>= next) post := by
  intro before result after returns
  rcases bind_eq_ok.mp returns with ⟨value, between, stepped, finished⟩
  exact rest value (first before value between stepped) between result after finished

/-- Nothing is asked of the first step. -/
theorem after_any {step : MemoryM α} {next : α → MemoryM β}
    (rest : ∀ value, Yields (next value) post) : Yields (step >>= next) post := by
  have nothing : Yields step fun _ => True := fun _ _ _ _ => trivial
  exact nothing.bind fun value _ => rest value

/-- A check leaves its own value behind. -/
theorem lift_then {check : Checked α} {next : α → MemoryM β}
    (rest : ∀ value, check = .ok value → Yields (next value) post) :
    Yields (liftM check >>= next) post := by
  have checked : Yields (liftM check : MemoryM α) fun value => check = .ok value := by
    intro before value after returns
    rcases Checked.bind_eq_ok.mp returns with ⟨value', passes, same⟩
    cases same
    exact passes
  exact checked.bind rest

end Yields

end PagedMemory.Memory
