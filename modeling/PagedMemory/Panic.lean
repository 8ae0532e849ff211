/-!
# Panics

An operation of this library fails in one of two ways.  A *refusal* is an
ordinary outcome: the caller receives an error value and may go on.  A *panic*
is a broken promise, such as an index past the end of a table or a frame copied
onto itself; the machine stops there and nothing further can be observed.

Every promise that the library relies on is checked where it is used, so that
"no panic is possible here" is a theorem about a caller and not an assumption.
-/

namespace PagedMemory

/-- The promise whose breach stopped the machine. -/
inductive Panic where
  /-- A 64-bit sum does not fit its word. -/
  | arithmeticOverflow
  /-- A frame number needs more than twenty bits. -/
  | frameNumberTooLarge
  /-- A table was indexed past its last slot. -/
  | indexOutOfBounds
  /-- A page slot is marked empty but has other bits set. -/
  | staleBits
  /-- A frame was to be copied onto itself. -/
  | selfCopy
  /-- A frame outside RAM was read or written. -/
  | unreachableFrame
  /-- A physical address beyond the direct map was turned into a pointer. -/
  | unreachableAddress
  /-- A region without pages was recorded. -/
  | emptyRegion
  /-- A region that already keeps its declared rights was opened again. -/
  | rightsSavedTwice
  /-- A frame of the frame table itself was put on the free stack. -/
  | reservedFramePushed
  /-- The count of free frames was to fall below zero. -/
  | counterUnderflow
  /-- The count of free frames was to exceed a word. -/
  | counterOverflow
  deriving DecidableEq

/-- A computation that returns a value unless it panics. -/
abbrev Checked := Except Panic

namespace Checked

/-- Go on only if a promise holds. -/
def require (promise : Prop) [Decidable promise] (panic : Panic) : Checked Unit :=
  if promise then .ok () else .error panic

@[simp]
theorem require_eq_ok {promise : Prop} [Decidable promise] {panic : Panic} :
    require promise panic = .ok () ↔ promise := by
  simp [require]

theorem require_of {promise : Prop} [Decidable promise] {panic : Panic}
    (kept : promise) : require promise panic = .ok () := by
  simp [kept]

theorem require_of_not {promise : Prop} [Decidable promise] {panic : Panic}
    (broken : ¬ promise) : require promise panic = .error panic := by
  simp [require, broken]

/-- A sequence returns a value exactly if each of its steps does. -/
theorem bind_eq_ok {α β : Type} {step : Checked α} {next : α → Checked β} {result : β} :
    (step >>= next) = .ok result ↔
      ∃ value, step = .ok value ∧ next value = .ok result := by
  cases step <;> simp [bind, Except.bind]

theorem require_eq_error {promise : Prop} [Decidable promise] {panic reason : Panic} :
    require promise panic = .error reason ↔ ¬ promise ∧ panic = reason := by
  unfold require
  split <;> simp [*]

/-- A sequence panics exactly where one of its steps does. -/
theorem bind_eq_error {α β : Type} {step : Checked α} {next : α → Checked β} {panic : Panic} :
    (step >>= next) = .error panic ↔
      step = .error panic ∨ ∃ value, step = .ok value ∧ next value = .error panic := by
  cases step <;> simp [bind, Except.bind]

theorem ok_of_toOption {α : Type} {computed : Checked α} {value : α}
    (returned : computed.toOption = some value) : computed = .ok value := by
  cases computed with
  | error panic => cases returned
  | ok result => exact congrArg Except.ok (Option.some.inj returned)

end Checked

end PagedMemory
