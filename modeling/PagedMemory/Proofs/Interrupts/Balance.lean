import Mathlib.Data.List.Perm.Basic
import PagedMemory.LookasideCache

/-!
# Balanced masking

A guard restores what it remembers, not what it finds.  When guards are let go
in another order than last in, first out, interrupts may be unmasked while a
guard is alive, so a stack of guards is not what the flag can be argued from.
What is always true is a count: of the guards that remember enabled interrupts
and the flag itself, exactly one is set if interrupts started enabled, and none
if they started masked.

Switching address spaces takes a guard and lets it go.  It is followed here as
the two steps it consists of, so it needs no argument of its own.
-/

namespace PagedMemory

/-- What code that masks interrupts only through guards does to a processor. -/
inductive MaskingAct where
  | acquire
  /-- Let the guard at a position go; nothing happens if there is none. -/
  | release (position : Nat)
  /-- Switch address spaces on a processor with that many lookaside slots. -/
  | activate (slots : Nat)
  deriving DecidableEq

/-- What an act has to invalidate: the slots of the cache from the lowest to the
highest, each of them with interrupts masked. -/
def MaskingAct.flushes : MaskingAct → List Invalidation
  | .activate slots => (List.range slots).map fun slot => ⟨slot, true⟩
  | _ => []

namespace MaskSession

/-- Carry out an act, with the invalidations that it makes. -/
def perform (session : MaskSession) :
    MaskingAct → List Invalidation × MaskSession
  | .acquire => ([], session.step .acquire)
  | .release position => ([], session.step (.release position))
  | .activate slots =>
      let (flushed, cpu) := LookasideCache.activate slots session.cpu
      (flushed, { session with cpu })

/-- Carry out acts one after the other, with the invalidations of each. -/
def performAll (session : MaskSession) :
    List MaskingAct → List (List Invalidation) × MaskSession
  | [] => ([], session)
  | act :: rest =>
      let (flushed, session) := session.perform act
      let (others, session) := session.performAll rest
      (flushed :: others, session)

/-- The number of live guards that remember enabled interrupts. -/
def restorers (session : MaskSession) : Nat :=
  session.guards.countP (·.wereEnabled)

/-- Only the youngest guard may be let go. -/
def LastIn (session : MaskSession) : MaskingAct → Prop
  | .release position => session.guards.length ≤ position + 1
  | _ => True

/-- Every guard that acts let go is the youngest one at that moment. -/
def Nested (session : MaskSession) : List MaskingAct → Prop
  | [] => True
  | act :: rest => session.LastIn act ∧ (session.perform act).2.Nested rest

variable {session : MaskSession} {enabled : Bool}

/-! ## Single steps -/

@[simp]
theorem step_acquire :
    session.step .acquire =
      ⟨session.cpu.disable, session.guards ++ [⟨session.cpu.enabled⟩]⟩ := rfl

/-- Letting a guard go does nothing if there is no such guard, and otherwise
restores what that guard remembers. -/
theorem step_release (session : MaskSession) (position : Nat) :
    session.guards.length ≤ position ∧
        session.step (.release position) = session ∨
      ∃ guard, session.guards[position]? = some guard ∧
        session.step (.release position) =
          ⟨guard.release session.cpu, session.guards.eraseIdx position⟩ := by
  cases found : session.guards[position]? with
  | none =>
      exact .inl ⟨List.getElem?_eq_none_iff.mp found, by simp [step, found]⟩
  | some guard => exact .inr ⟨guard, rfl, by simp [step, found]⟩

/-- Switching spaces takes one guard and lets that guard go. -/
theorem perform_activate (session : MaskSession) (slots : Nat) :
    (session.perform (.activate slots)).2 =
      (session.step .acquire).step (.release session.guards.length) := by
  simp [perform, step, LookasideCache.activate, MaskGuard.acquire,
    List.eraseIdx_append_of_length_le]

/-- Switching spaces leaves the flag and the guards as it found them. -/
theorem activate_restores (session : MaskSession) (slots : Nat) :
    (session.perform (.activate slots)).2.cpu.enabled = session.cpu.enabled ∧
      (session.perform (.activate slots)).2.guards = session.guards :=
  ⟨MaskGuard.enabled_release_acquire session.cpu, rfl⟩

/-- An act invalidates exactly what it has to. -/
theorem flushes_of_perform (session : MaskSession) (act : MaskingAct) :
    (session.perform act).1 = act.flushes := by
  cases act with
  | acquire => rfl
  | release position => rfl
  | activate slots =>
      simp [perform, MaskingAct.flushes, LookasideCache.activate,
        LookasideCache.invalidateAll, MaskGuard.acquire, Cpu.disable]

/-! ## What every act keeps -/

/-- Of the live guards that remember enabled interrupts and the flag, as many are
set as when the processor started. -/
structure Balanced (enabled : Bool) (session : MaskSession) : Prop where
  owed : session.restorers + session.cpu.enabled.toNat = enabled.toNat
  silent : enabled = false → session.cpu.enables = 0

theorem balanced_start (enabled : Bool) : Balanced enabled (start enabled) where
  owed := by simp [start, restorers, Cpu.fresh]
  silent := fun _ => rfl

theorem Balanced.acquire (balanced : Balanced enabled session) :
    Balanced enabled (session.step .acquire) where
  owed := by
    rw [← balanced.owed]
    cases flag : session.cpu.enabled <;>
      simp [restorers, Cpu.disable, List.countP_append, flag]
  silent := balanced.silent

/-- A guard that is let go hands what it remembers over to the flag. -/
theorem Balanced.release (balanced : Balanced enabled session)
    (position : Nat) :
    Balanced enabled (session.step (.release position)) := by
  obtain ⟨-, same⟩ | ⟨guard, found, released⟩ := step_release session position
  · rwa [same]
  obtain ⟨bound, isGuard⟩ := List.getElem?_eq_some_iff.mp found
  have counted :
      (guard :: session.guards.eraseIdx position).countP (·.wereEnabled) =
        session.restorers := by
    rw [← isGuard]
    exact (List.getElem_cons_eraseIdx_perm bound).countP_eq _
  have owed := balanced.owed
  rw [← counted, List.countP_cons] at owed
  have atMostOne := Bool.toNat_le enabled
  rw [released]
  cases remembers : guard.wereEnabled with
  | false =>
      have same : guard.release session.cpu = session.cpu := by
        simp [MaskGuard.release, remembers]
      rw [same]
      exact ⟨by simpa [restorers, remembers] using owed, balanced.silent⟩
  | true =>
      -- the guard is counted, so the flag is clear and interrupts started enabled
      have opened : guard.release session.cpu = session.cpu.enable := by
        simp [MaskGuard.release, remembers]
      simp only [remembers, if_true] at owed
      rw [opened]
      refine ⟨?_, fun off => ?_⟩
      · simp only [restorers, Cpu.enable, Bool.toNat_true]
        omega
      · rw [off, Bool.toNat_false] at owed
        omega

theorem Balanced.perform (balanced : Balanced enabled session)
    (act : MaskingAct) : Balanced enabled (session.perform act).2 := by
  cases act with
  | acquire => exact balanced.acquire
  | release position => exact balanced.release position
  | activate slots =>
      rw [perform_activate]
      exact balanced.acquire.release _

theorem Balanced.performAll (balanced : Balanced enabled session)
    (acts : List MaskingAct) : Balanced enabled (session.performAll acts).2 := by
  induction acts generalizing session with
  | nil => exact balanced
  | cons act rest ih => exact ih (balanced.perform act)

/-- Without guards the flag is back at where it started. -/
theorem Balanced.restored (balanced : Balanced enabled session)
    (alone : session.guards = []) : session.cpu.enabled = enabled := by
  have owed := balanced.owed
  simp only [restorers, alone, List.countP_nil, Nat.zero_add] at owed
  cases enabled with
  | false => exact Bool.toNat_eq_zero.mp owed
  | true => exact Bool.toNat_eq_one.mp owed

/-- A processor that started masked stays masked and is never told to unmask. -/
theorem Balanced.masked (balanced : Balanced false session) :
    session.cpu.enabled = false ∧ session.cpu.enables = 0 := by
  have owed := balanced.owed
  rw [Bool.toNat_false, Nat.add_eq_zero_iff, Bool.toNat_eq_zero] at owed
  exact ⟨owed.2, balanced.silent rfl⟩

/-! ## Guards that are nested -/

/-- The oldest guard remembers the flag that the processor started with. -/
def Anchored (enabled : Bool) (session : MaskSession) : Prop :=
  ∀ oldest ∈ session.guards.head?, oldest.wereEnabled = enabled

theorem Anchored.acquire (balanced : Balanced enabled session)
    (anchored : Anchored enabled session) :
    Anchored enabled (session.step .acquire) := by
  cases alive : session.guards with
  | nil => simpa [Anchored, alive] using balanced.restored alive
  | cons oldest younger => simpa [Anchored, alive] using anchored

/-- Letting the youngest guard go leaves the oldest in place, or none at all. -/
theorem Anchored.release (anchored : Anchored enabled session)
    {position : Nat} (last : session.guards.length ≤ position + 1) :
    Anchored enabled (session.step (.release position)) := by
  obtain ⟨-, same⟩ | ⟨guard, found, released⟩ := step_release session position
  · rwa [same]
  obtain ⟨bound, -⟩ := List.getElem?_eq_some_iff.mp found
  have youngest : position = session.guards.length - 1 := by omega
  rw [released, youngest, List.eraseIdx_length_sub_one]
  intro oldest isOldest
  refine anchored oldest ?_
  rw [Option.mem_def, List.head?_dropLast] at isOldest
  split at isOldest
  · exact isOldest
  · cases isOldest

theorem Anchored.perform (balanced : Balanced enabled session)
    (anchored : Anchored enabled session) {act : MaskingAct}
    (last : session.LastIn act) :
    Anchored enabled (session.perform act).2 := by
  cases act with
  | acquire => exact anchored.acquire balanced
  | release position => exact anchored.release last
  | activate slots =>
      rw [perform_activate]
      exact (anchored.acquire balanced).release (by simp)

theorem Anchored.performAll (balanced : Balanced enabled session)
    (anchored : Anchored enabled session) {acts : List MaskingAct}
    (nested : session.Nested acts) :
    Anchored enabled (session.performAll acts).2 := by
  induction acts generalizing session with
  | nil => exact anchored
  | cons act rest ih =>
      exact ih (balanced.perform act) (anchored.perform balanced nested.1)
        nested.2

/-- If the oldest guard remembers the first flag, interrupts are masked as long
as it lives. -/
theorem Balanced.masked_of_anchored (balanced : Balanced enabled session)
    (anchored : Anchored enabled session) (alive : session.guards ≠ []) :
    session.cpu.enabled = false := by
  obtain ⟨oldest, younger, guards⟩ := List.exists_cons_of_ne_nil alive
  have remembers : oldest.wereEnabled = enabled :=
    anchored oldest (by simp [guards])
  have owed := balanced.owed
  rw [restorers, guards, List.countP_cons, remembers] at owed
  cases enabled with
  | false => exact balanced.masked.1
  | true =>
      simp only [if_true, Bool.toNat_true] at owed
      exact Bool.toNat_eq_zero.mp (by omega)

/-! ## Sequences of acts -/

/-- Every act of a sequence invalidates exactly what it has to. -/
theorem flushes_of_performAll (session : MaskSession) (acts : List MaskingAct) :
    (session.performAll acts).1 = acts.map MaskingAct.flushes := by
  induction acts generalizing session with
  | nil => rfl
  | cons act rest ih =>
      simp only [performAll, flushes_of_perform, ih, List.map_cons]

/-- Masking is balanced in whatever order guards are let go, and interrupts are
masked under a live guard if guards are nested.  Every switch of spaces discards
every slot once, lowest first and with interrupts masked, and leaves the flag as
it found it. -/
theorem masking_is_balanced (enabled : Bool) (acts : List MaskingAct) :
    let (flushed, session) := (start enabled).performAll acts
    (session.guards = [] → session.cpu.enabled = enabled) ∧
      session.restorers + session.cpu.enabled.toNat = enabled.toNat ∧
      (enabled = false →
        session.cpu.enabled = false ∧ session.cpu.enables = 0) ∧
      ((start enabled).Nested acts → session.guards ≠ [] →
        session.cpu.enabled = false) ∧
      flushed = acts.map MaskingAct.flushes ∧
      ∀ slots, (session.perform (.activate slots)).1 =
          (List.range slots).map (fun slot => ⟨slot, true⟩) ∧
        (session.perform (.activate slots)).2.cpu.enabled =
          session.cpu.enabled ∧
        (session.perform (.activate slots)).2.guards = session.guards := by
  have balanced := (balanced_start enabled).performAll acts
  refine ⟨balanced.restored, balanced.owed, ?_, ?_,
    flushes_of_performAll (start enabled) acts, ?_⟩
  · rintro rfl
    exact balanced.masked
  · intro nested alive
    have anchored : Anchored enabled (start enabled) := by
      simp [Anchored, start]
    exact balanced.masked_of_anchored
      (anchored.performAll (balanced_start enabled) nested) alive
  · intro slots
    exact ⟨flushes_of_perform _ (.activate slots), activate_restores _ slots⟩

/-- Interrupts that started enabled and two guards of which the older is let go
first: the flag is set while the younger is alive, and the count is still one. -/
theorem masking_is_balanced_out_of_order :
    let session := ((start true).performAll
      [.acquire, .acquire, .activate 2, .release 0]).2
    session.restorers + session.cpu.enabled.toNat = 1 ∧
      session.guards = [⟨false⟩] ∧ session.cpu.enabled = true :=
  ⟨(masking_is_balanced true
      [.acquire, .acquire, .activate 2, .release 0]).2.1,
    by decide, by decide⟩

end MaskSession

end PagedMemory
