/-!
# Interrupt masking

Code that must not be interrupted masks interrupts and keeps a guard.  The guard
remembers whether interrupts were enabled before, and letting it go enables them
only in that case.  Guards may therefore be nested.

The processor counts how often interrupts were disabled and enabled.
-/

namespace PagedMemory

/-- The interrupt flag of a processor, with the number of changes made to it. -/
structure Cpu where
  enabled : Bool
  disables : Nat
  enables : Nat
  deriving DecidableEq

namespace Cpu

/-- A processor whose flag has not been changed yet. -/
def fresh (enabled : Bool) : Cpu := ⟨enabled, 0, 0⟩

def disable (cpu : Cpu) : Cpu :=
  { cpu with enabled := false, disables := cpu.disables + 1 }

def enable (cpu : Cpu) : Cpu :=
  { cpu with enabled := true, enables := cpu.enables + 1 }

end Cpu

/-- Keeps interrupts masked until it is let go. -/
structure MaskGuard where
  /-- Whether interrupts were enabled when the guard was made. -/
  wereEnabled : Bool
  deriving DecidableEq

namespace MaskGuard

/-- Mask interrupts. -/
def acquire (cpu : Cpu) : MaskGuard × Cpu :=
  (⟨cpu.enabled⟩, cpu.disable)

/-- Let a guard go. -/
def release (guard : MaskGuard) (cpu : Cpu) : Cpu :=
  if guard.wereEnabled then cpu.enable else cpu

/-- Masking and letting go at once leaves the flag as it was. -/
@[simp]
theorem enabled_release_acquire (cpu : Cpu) :
    ((acquire cpu).1.release (acquire cpu).2).enabled = cpu.enabled := by
  cases flag : cpu.enabled <;> simp [acquire, release, flag, Cpu.enable, Cpu.disable]

end MaskGuard

/-- A processor with the guards that are alive on it, oldest first. -/
structure MaskSession where
  cpu : Cpu
  guards : List MaskGuard
  deriving DecidableEq

namespace MaskSession

/-- One thing that can happen to the interrupt flag. -/
inductive Command where
  | acquire
  /-- Let the guard at a position go; nothing happens if there is none. -/
  | release (position : Nat)
  | enable
  | disable
  deriving DecidableEq

/-- A processor without guards. -/
def start (enabled : Bool) : MaskSession := ⟨.fresh enabled, []⟩

def step (session : MaskSession) : Command → MaskSession
  | .acquire =>
      let (guard, cpu) := MaskGuard.acquire session.cpu
      ⟨cpu, session.guards ++ [guard]⟩
  | .release position =>
      match session.guards[position]? with
      | some guard => ⟨guard.release session.cpu, session.guards.eraseIdx position⟩
      | none => session
  | .enable => { session with cpu := session.cpu.enable }
  | .disable => { session with cpu := session.cpu.disable }

/-- The session after each of some commands. -/
def trace (session : MaskSession) : List Command → List MaskSession
  | [] => []
  | command :: rest =>
      let session := session.step command
      session :: session.trace rest

end MaskSession

end PagedMemory
