import Mathlib.Algebra.GroupWithZero.Nat
import PagedMemory.Machine.Basic
import PagedMemory.Proofs.Frames.Bootstrap
import PagedMemory.Proofs.Machine.Regime
import PagedMemory.Proofs.Space.Declare

/-!
# Who has which frame

A ledger is a machine in the middle of a run, with what the machine itself does
not record: the frames that clients hold, and the spaces that are gone.  Clients
*hold* a frame from the answer that hands it to them until they give it back or
a space takes it over.

A run obeys frame ownership if clients give back, attach and write only frames
that they hold.  Everything else is permitted, in any order and with any number
of spaces, whether or not it is refused.  A ledger is *balanced* if the frames
accounted for (available, held, lost, or reached from a space) are all
different, every space is in order, and the lost frames are as many as the
spaces have counted.
-/

namespace PagedMemory

/-- The frames reached from some spaces. -/
def Ram.reached (ram : Ram) (entries : List (Nat × AddressSpace)) : List Frame :=
  entries.flatMap fun entry => ram.reach entry.2.root

/-- How many data frames some spaces have lost by their own count. -/
def leaks (spaces : List AddressSpace) : Nat :=
  (spaces.map AddressSpace.leakedFrames).sum

/-- The frame that a client hands over to a space. -/
def SpaceAccess.given? : SpaceAccess → Option Frame
  | .attach _ frame => some frame
  | _ => none

/-- A machine in the middle of a run. -/
structure Ledger where
  machine : Machine
  /-- The frames that clients hold. -/
  held : List Frame
  /-- The spaces that are gone, as they were before. -/
  past : List AddressSpace

namespace Ledger

/-- The start of a run. -/
def start (machine : Machine) : Ledger :=
  ⟨machine, [], []⟩

def memory (ledger : Ledger) : Memory :=
  ledger.machine.memory

def spaces (ledger : Ledger) : List (Nat × AddressSpace) :=
  ledger.machine.spaces.entries

/-- All frames that have been handed out and not been given back. -/
def outstanding (ledger : Ledger) : List Frame :=
  ledger.held ++ (ledger.memory.lostFrames ++ ledger.memory.ram.reached ledger.spaces)

def accounted (ledger : Ledger) : List Frame :=
  ledger.memory.pool.available ++ ledger.outstanding

/-! ## Runs -/

/-- The frame behind a kernel address, if the direct map has one. -/
def kernelFrame? (pointer : VirtAddr) : Option Frame :=
  pointer.toPhysical?.map Address.block

/-- The frames that clients hold once a command has been answered. -/
def heldAfter (held : List Frame) : Command → Answer → List Frame
  | .pool (.allocate count), .frame first => first.run count ++ held
  | .pool (.allocateKernel count), .address pointer =>
      (kernelFrame? pointer).elim [] (fun first => first.run count) ++ held
  | .pool .take, .frame frame => frame :: held
  | .pool (.release frame), .done => held.erase frame
  | .pool (.releaseKernel pointer), .done =>
      (kernelFrame? pointer).elim held held.erase
  | .access _ (.attach _ frame), .done => held.erase frame
  | _, _ => held

/-- The spaces that are gone once a command has been executed. -/
def pastAfter (ledger : Ledger) : Command → List AddressSpace
  | .destroy name | .discard name => (ledger.machine.spaces.find? name).toList ++ ledger.past
  | _ => ledger.past

/-- The ledger once a command has been answered. -/
def next (ledger : Ledger) (command : Command) (answer : Answer) (machine : Machine) : Ledger :=
  ⟨machine, heldAfter ledger.held command answer, ledger.pastAfter command⟩

/-- What clients may do to RAM: read all of it, and write the frames that they hold. -/
def PermitsRam (ledger : Ledger) : RamCommand → Prop
  | .fill frame _ | .zero frame => frame ∈ ledger.held
  | .copy source target =>
      ledger.memory.ram.holds source = true ∧ source ≠ target ∧ target ∈ ledger.held
  | .peek address => ledger.memory.ram.holds address.block = true
  | .poke address _ => address.block ∈ ledger.held
  | .hash frame => ledger.memory.ram.holds frame = true

/--
What clients may ask of the pool: anything but to take back a frame that is not
theirs to give, to hand out frames without naming them, or to damage the table.
-/
def PermitsPool (ledger : Ledger) : PoolCommand → Prop
  | .release frame => frame ∈ ledger.held
  | .releaseKernel pointer => ∀ frame ∈ kernelFrame? pointer, frame ∈ ledger.held
  | .drain _ | .copyEntry _ _ => False
  | .bootstrap | .allocate _ | .allocateKernel _ | .take | .statistics | .allow _ => True

/-- Frame ownership: clients touch only the frames that they hold. -/
def Permits (ledger : Ledger) : Command → Prop
  | .pool command => ledger.PermitsPool command
  | .ram command => ledger.PermitsRam command
  | .access _ command => ∀ frame ∈ command.given?, frame ∈ ledger.held
  | .create _ | .change _ _ | .fork _ _ _ | .destroy _ | .discard _ | .sameRegions _ _ => True

instance (ledger : Ledger) (command : RamCommand) : Decidable (ledger.PermitsRam command) :=
  match command with
  | .fill frame _ | .zero frame => inferInstanceAs (Decidable (frame ∈ ledger.held))
  | .copy source target => inferInstanceAs (Decidable
      (ledger.memory.ram.holds source = true ∧ source ≠ target ∧ target ∈ ledger.held))
  | .peek address => inferInstanceAs (Decidable (ledger.memory.ram.holds address.block = true))
  | .poke address _ => inferInstanceAs (Decidable (address.block ∈ ledger.held))
  | .hash frame => inferInstanceAs (Decidable (ledger.memory.ram.holds frame = true))

instance (ledger : Ledger) (command : PoolCommand) : Decidable (ledger.PermitsPool command) :=
  match command with
  | .release frame => inferInstanceAs (Decidable (frame ∈ ledger.held))
  | .releaseKernel pointer =>
      inferInstanceAs (Decidable (∀ frame ∈ kernelFrame? pointer, frame ∈ ledger.held))
  | .drain _ | .copyEntry _ _ => .isFalse id
  | .bootstrap | .allocate _ | .allocateKernel _ | .take | .statistics | .allow _ =>
      .isTrue trivial

instance (ledger : Ledger) (command : Command) : Decidable (ledger.Permits command) :=
  match command with
  | .pool command => inferInstanceAs (Decidable (ledger.PermitsPool command))
  | .ram command => inferInstanceAs (Decidable (ledger.PermitsRam command))
  | .access _ command => inferInstanceAs (Decidable (∀ frame ∈ command.given?, frame ∈ ledger.held))
  | .create _ | .change _ _ | .fork _ _ _ | .destroy _ | .discard _ | .sameRegions _ _ =>
      .isTrue trivial

/-- Runs that obey frame ownership. -/
def ownership : Regime Ledger where
  machine := machine
  Allows ledger command _ := ledger.Permits command
  next := next

instance : ownership.Decides :=
  fun ledger command _ => inferInstanceAs (Decidable (ledger.Permits command))

end Ledger

/-! ## Balance -/

/-- A space is in order: its tree is one, and its frames have not been given back. -/
structure AddressSpace.Sound (ram : Ram) (space : AddressSpace) : Prop where
  tree : ram.Tree space.root
  live : space.released = false
  settled : space.Settled

namespace Ledger

/-- Everything is accounted for, once. -/
structure Balanced (ledger : Ledger) : Prop where
  owns : ledger.memory.Owns ledger.outstanding
  names : (ledger.spaces.map Prod.fst).Nodup
  spaces : ∀ entry ∈ ledger.spaces, entry.2.Sound ledger.memory.ram
  tally : ledger.memory.lostFrames.length =
    leaks (ledger.spaces.map Prod.snd) + leaks ledger.past
  covered : ∀ frame, ledger.memory.pool.territory.Manages frame → frame ∈ ledger.accounted

/-- No frame has come from nowhere; a frame table is there to stay, and so are lost frames. -/
structure Follows (before after : Ledger) : Prop where
  accounted : ∀ frame ∈ after.accounted, frame ∈ before.accounted
  table : ∀ bounds, before.memory.pool.territory = .table bounds →
    after.memory.pool.territory = .table bounds
  /-- A table that was not there before has been stored where it has room. -/
  stored : ∀ bounds, after.memory.pool.territory = .table bounds →
    before.memory.pool.territory = .table bounds ∨ bounds.Stored
  extent : ∀ frame, after.memory.ram.holds frame = before.memory.ram.holds frame
  /-- What nobody had has not been written. -/
  untouched : ∀ frame, frame ∉ before.accounted →
    after.memory.ram.contentsOf frame = before.memory.ram.contentsOf frame
  lostFrames : before.memory.lostFrames <:+ after.memory.lostFrames

variable {before : Ledger} {old others : List (Nat × AddressSpace)} {lost : List Frame}

theorem reached_append (ram : Ram) (first second : List (Nat × AddressSpace)) :
    ram.reached (first ++ second) = ram.reached first ++ ram.reached second :=
  List.flatMap_append

/-- The frames that a step is about can be put in front of all others. -/
theorem outstanding_perm {ledger : Ledger} {earlier : List Frame}
    (entries : ledger.spaces.Perm (old ++ others))
    (lostFrames : ledger.memory.lostFrames = lost ++ earlier) :
    ledger.outstanding.Perm
      ((ledger.held ++ (lost ++ ledger.memory.ram.reached old)) ++
        (earlier ++ ledger.memory.ram.reached others)) := by
  have reached : (ledger.memory.ram.reached ledger.spaces).Perm
      (ledger.memory.ram.reached old ++ ledger.memory.ram.reached others) := by
    rw [← reached_append]
    exact entries.flatMap_right _
  rw [outstanding, lostFrames, List.append_assoc, List.append_assoc, List.append_assoc]
  apply List.Perm.append_left
  apply List.Perm.append_left
  exact (reached.append_left earlier).trans (List.perm_append_comm_assoc _ _ _)

/-- A space in order stays in order while none of its frames is written. -/
theorem sound_of_same {ram ram' : Ram} {space : AddressSpace} (sound : space.Sound ram)
    (extent : ∀ frame, ram'.holds frame = ram.holds frame)
    (same : ∀ frame ∈ ram.reach space.root, ram'.contentsOf frame = ram.contentsOf frame) :
    space.Sound ram' :=
  ⟨(sound.tree.congr extent same).1, sound.live, sound.settled⟩

theorem leaks_append (first second : List AddressSpace) :
    leaks (first ++ second) = leaks first + leaks second := by
  rw [leaks, List.map_append, List.sum_append]
  rfl

theorem leaks_singleton (name : Nat) (space : AddressSpace) :
    leaks ([(name, space)].map Prod.snd) = space.leakedFrames :=
  List.sum_singleton

theorem leaks_perm {first second : List AddressSpace} (perm : first.Perm second) :
    leaks first = leaks second :=
  (perm.map AddressSpace.leakedFrames).sum_nat

/--
A step settles the frames of clients and of some spaces, and leaves other spaces
alone.  It keeps the balance if its own spaces are in order afterwards.
-/
theorem Balanced.of_settles (balanced : before.Balanced) (after : Ledger)
    (old new : List (Nat × AddressSpace)) (lost : List Frame)
    (entries : before.spaces.Perm (old ++ others))
    (entries' : after.spaces.Perm (new ++ others))
    (settles : Memory.Settles before.memory
      (before.held ++ before.memory.ram.reached old) after.memory
      (after.held ++ (lost ++ after.memory.ram.reached new)))
    (lostFrames : after.memory.lostFrames = lost ++ before.memory.lostFrames)
    (names : ((new ++ others).map Prod.fst).Nodup)
    (sound : ∀ entry ∈ new, entry.2.Sound after.memory.ram)
    (tally : lost.length + leaks (old.map Prod.snd) + leaks before.past =
      leaks (new.map Prod.snd) + leaks after.past) :
    after.Balanced ∧ Follows before after := by
  -- The step is an exchange beside the frames lost earlier and those of the other spaces.
  let rest := before.memory.lostFrames ++ before.memory.ram.reached others
  have perm : before.outstanding.Perm
      ((before.held ++ before.memory.ram.reached old) ++ rest) :=
    outstanding_perm entries (List.nil_append before.memory.lostFrames).symm
  have owns := balanced.owns.of_perm perm
  have kept (frame : Frame) (member : frame ∈ rest) :
      after.memory.ram.contentsOf frame = before.memory.ram.contentsOf frame :=
    settles.kept owns member
  have othersKept (entry : Nat × AddressSpace) (member : entry ∈ others) :
      ∀ frame ∈ before.memory.ram.reach entry.2.root,
        after.memory.ram.contentsOf frame = before.memory.ram.contentsOf frame := by
    intro frame inside
    exact kept frame (List.mem_append_right _ (List.mem_flatMap.mpr ⟨entry, member, inside⟩))
  have reachedOthers : after.memory.ram.reached others = before.memory.ram.reached others := by
    apply List.flatMap_congr
    exact fun entry member => Ram.reach_of_same (othersKept entry member)
  have perm' : after.outstanding.Perm
      ((after.held ++ (lost ++ after.memory.ram.reached new)) ++ rest) := by
    have regrouped := outstanding_perm entries' lostFrames
    rw [reachedOthers] at regrouped
    exact regrouped
  have whole : Memory.Settles before.memory before.outstanding after.memory
      after.outstanding :=
    ((settles.beside rest).of_perm_given perm.symm).of_perm_left perm'.symm
  refine ⟨⟨whole.owns balanced.owns, ?_, ?_, ?_, ?_⟩, ?_, ?_, ?_, settles.extent, ?_, ?_⟩
  · exact (entries'.map Prod.fst).nodup_iff.mpr names
  · intro entry member
    rcases List.mem_append.mp (entries'.mem_iff.mp member) with changed | other
    · exact sound entry changed
    · have old := balanced.spaces entry (entries.mem_iff.mpr (List.mem_append_right _ other))
      exact sound_of_same old settles.extent (othersKept entry other)
  · have counted := balanced.tally
    rw [leaks_perm (entries.map Prod.snd), List.map_append, leaks_append] at counted
    rw [lostFrames, List.length_append, leaks_perm (entries'.map Prod.snd), List.map_append,
      leaks_append]
    omega
  · intro frame managed
    rw [whole.territory] at managed
    exact whole.managed managed (balanced.covered frame managed)
  · intro frame member
    exact whole.subset member
  · intro bounds table
    rw [whole.territory, table]
  · intro bounds table
    exact Or.inl (whole.territory.symm.trans table)
  · intro frame outside
    exact whole.untouched outside
  · rw [lostFrames]
    exact List.suffix_append lost before.memory.lostFrames

end Ledger

end PagedMemory
