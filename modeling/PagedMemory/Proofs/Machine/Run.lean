import PagedMemory.Proofs.Machine.Outcome

/-!
# Runs that obey frame ownership

Every outcome of a command on a balanced ledger leaves a balanced ledger.  So all
ledgers of a run are balanced if the first one is, no permitted command panics,
and no frame appears in a run that was not accounted for at its start.

The frames that store the table itself are never accounted for.  Nobody has them,
so commands write them for the table only, and what the table says and what is in
the frames of clients and spaces do not get into each other's way.
-/

namespace PagedMemory

open Memory

namespace Ledger

theorem Follows.refl (ledger : Ledger) : Follows ledger ledger :=
  ⟨fun _ member => member, fun _ table => table, fun _ table => Or.inl table, fun _ => rfl,
    fun _ _ => rfl, List.suffix_refl _⟩

theorem Follows.trans {first second third : Ledger} (earlier : Follows first second)
    (later : Follows second third) : Follows first third where
  accounted frame member := earlier.accounted frame (later.accounted frame member)
  table bounds table := later.table bounds (earlier.table bounds table)
  stored bounds table := (later.stored bounds table).elim (earlier.stored bounds) Or.inr
  untouched frame outside :=
    (later.untouched frame (mt (earlier.accounted frame) outside)).trans
      (earlier.untouched frame outside)
  extent frame := (later.extent frame).trans (earlier.extent frame)
  lostFrames := earlier.lostFrames.trans later.lostFrames

variable {ledger : Ledger}

/-! ## Outcomes keep the balance -/

/-- The ledger after an answer is balanced, and it follows the one before. -/
def Advances (ledger : Ledger) (command : Command) (answer : Answer) (after : Machine) : Prop :=
  (ledger.next command answer after).Balanced ∧
    Follows ledger (ledger.next command answer after)

/-- Only a teardown makes a space a thing of the past. -/
theorem pastAfter_of_target {command : Command} {answer : Answer}
    (target : command.target? answer = none) : ledger.pastAfter command = ledger.past := by
  cases command with
  | destroy name => cases target
  | discard name => cases target
  | _ => rfl

/-- A step that concerns clients only. -/
theorem advances_of_settles (balanced : ledger.Balanced) {command : Command} {answer : Answer}
    {after : Memory} (past : ledger.pastAfter command = ledger.past)
    (settles : Settles ledger.memory ledger.held after
      (heldAfter ledger.held command answer))
    (lostFrames : after.lostFrames = ledger.memory.lostFrames) :
    ledger.Advances command answer ⟨after, ledger.machine.spaces⟩ := by
  apply balanced.of_settles (ledger.next command answer ⟨after, ledger.machine.spaces⟩)
    [] [] [] (List.Perm.refl ledger.spaces) (List.Perm.refl ledger.spaces)
    (settles.beside []) lostFrames balanced.names
  · intro entry member
    cases member
  · simp [next, past]

/-- A command about a space that nobody has made leaves everything as it is. -/
theorem advances_of_missing (balanced : ledger.Balanced) {command : Command} {name : Nat}
    (about : command.subject? = some name)
    (missing : ledger.machine.spaces.find? name = none) :
    ledger.Advances command (.refused .noSpace) ledger.machine := by
  have past : ledger.pastAfter command = ledger.past := by
    cases command <;> cases about <;> simp [pastAfter, missing]
  have same : ledger.next command (.refused .noSpace) ledger.machine = ledger := by
    rw [next, heldAfter_refused, past]
  rw [Advances, same]
  exact ⟨balanced, .refl ledger⟩

/-- Entering the ready phase touches nothing that is outstanding. -/
theorem advances_of_bootstrapped (balanced : ledger.Balanced) {answer : Answer} {after : Memory}
    {range : BumpRange} {leaked : Nat} {stack : FreeStack}
    (early : ledger.memory.pool = ⟨.early (.bump range), leaked⟩)
    (bootstrapped : FramePool.Bootstrapped (.bump range) stack)
    (changed : HasPool ledger.memory ⟨.ready stack, leaked⟩ after) :
    ledger.Advances (.pool .bootstrap) answer ⟨after, ledger.machine.spaces⟩ := by
  let entered := ledger.next (.pool .bootstrap) answer ⟨after, ledger.machine.spaces⟩
  have same : entered.outstanding = ledger.outstanding := by
    change ledger.held ++ (after.lostFrames ++ after.ram.reached ledger.spaces) = _
    rw [changed.lostFrames, changed.ram]
    rfl
  rcases PoolCommand.owns_of_bootstrapped balanced.owns early bootstrapped changed with
    ⟨owns, subset, managed⟩
  have sound (entry : Nat × AddressSpace) (member : entry ∈ ledger.spaces) :
      entry.2.Sound after.ram := by
    rw [changed.ram]
    exact balanced.spaces entry member
  have tally : after.lostFrames.length =
      leaks (ledger.spaces.map Prod.snd) + leaks ledger.past := by
    rw [changed.lostFrames]
    exact balanced.tally
  refine ⟨⟨?_, balanced.names, sound, tally, ?_⟩, ?_, ?_, ?_, ?_, ?_, ?_⟩
  · rw [same]
    exact owns
  · intro frame member
    exact List.mem_append_left _ (managed frame member)
  · intro frame member
    rcases List.mem_append.mp member with available | outstanding
    · exact List.mem_append_left _ (subset frame available)
    · rw [same] at outstanding
      exact List.mem_append_right _ outstanding
  · intro bounds table
    rw [early] at table
    cases table
  · intro bounds table
    change after.pool.territory = _ at table
    rw [changed.pool] at table
    cases table
    exact Or.inr bootstrapped.stored
  · exact fun frame => congrArg (·.holds frame) changed.ram
  · exact fun frame _ => congrArg (·.contentsOf frame) changed.ram
  · exact ⟨[], changed.lostFrames.symm⟩

/-- A step that concerns clients and one space. -/
theorem advances_of_found (balanced : ledger.Balanced) {command : Command} {answer : Answer}
    {after : Memory} {table : SpaceTable} {name : Nat} {space : AddressSpace}
    (new : List (Nat × AddressSpace)) (lost : List Frame)
    (found : ledger.machine.spaces.find? name = some space)
    (entries : table.entries.Perm (new ++ (ledger.machine.spaces.erase name).entries))
    (named : (new.map Prod.fst).Sublist [name])
    (settles : Settles ledger.memory (ledger.held ++ ledger.memory.ram.reach space.root) after
      (heldAfter ledger.held command answer ++ (lost ++ after.ram.reached new)))
    (lostFrames : after.lostFrames = lost ++ ledger.memory.lostFrames)
    (sound : ∀ entry ∈ new, entry.2.Sound after.ram)
    (tally : lost.length + space.leakedFrames + leaks ledger.past =
      leaks (new.map Prod.snd) + leaks (ledger.pastAfter command)) :
    ledger.Advances command answer ⟨after, table⟩ := by
  rcases SpaceTable.nodup_names_erase balanced.names name with ⟨distinct, fresh⟩
  apply balanced.of_settles (ledger.next command answer ⟨after, table⟩) [(name, space)] new lost
    (SpaceTable.entries_perm balanced.names found) entries _ lostFrames _ sound _
  · rw [reached_singleton]
    exact settles
  · rw [List.map_append]
    exact (List.nodup_cons.mpr ⟨fresh, distinct⟩).sublist (named.append_right _)
  · rw [leaks_singleton]
    exact tally

/-- A step that makes a space. -/
theorem advances_of_made (balanced : ledger.Balanced) {command : Command} {answer : Answer}
    {after : Memory} {name : Nat} {space : AddressSpace}
    (vacant : ledger.machine.spaces.find? name = none)
    (held : heldAfter ledger.held command answer = ledger.held)
    (past : ledger.pastAfter command = ledger.past)
    (extension : Extends ledger.memory [] (after.ram.reach space.root) after)
    (sound : space.Sound after.ram) (leaked : space.leakedFrames = 0) :
    ledger.Advances command answer ⟨after, ledger.machine.spaces.insert name space⟩ := by
  rcases SpaceTable.nodup_names_erase balanced.names name with ⟨distinct, fresh⟩
  rw [SpaceTable.erase_of_none vacant] at distinct fresh
  have entries : (ledger.machine.spaces.insert name space).entries =
      [(name, space)] ++ ledger.machine.spaces.entries := by
    rw [SpaceTable.insert, SpaceTable.erase_of_none vacant, List.singleton_append]
  apply balanced.of_settles (ledger.next command answer
    ⟨after, ledger.machine.spaces.insert name space⟩) [] [(name, space)] []
    (List.Perm.refl ledger.spaces) (List.Perm.of_eq entries) _ extension.lostFrames
    (List.nodup_cons.mpr ⟨fresh, distinct⟩)
  · intro entry member
    rw [List.mem_singleton.mp member]
    exact sound
  · simp [next, past, leaks, leaked]
  · change Settles ledger.memory (ledger.held ++ []) after
      (heldAfter ledger.held command answer ++ ([] ++ after.ram.reached [(name, space)]))
    rw [held, reached_singleton, List.nil_append]
    have taken := extension.exchange
    rw [List.append_nil] at taken
    exact (Settles.of_exchange taken).behind ledger.held

theorem advances_of_created (balanced : ledger.Balanced) {name : Nat} {space : AddressSpace}
    {after : Memory} (vacant : ledger.machine.spaces.find? name = none)
    (creates : AddressSpace.Creates ledger.memory (.ok space) after) :
    ledger.Advances (.create name) (.frame space.root)
      ⟨after, ledger.machine.spaces.insert name space⟩ := by
  cases creates with
  | @created root _ extension tree zeroed =>
      have single := (Ram.tree_of_zero tree.held_root zeroed).2
      rw [← single] at extension
      have settled : AddressSpace.Settled ⟨root, .empty, false, 0, false⟩ := by
        intro _ region member
        cases member
      exact advances_of_made balanced vacant rfl rfl extension ⟨tree, rfl, settled⟩ rfl

theorem advances_of_changed (balanced : ledger.Balanced) {name : Nat} {command : SpaceCommand}
    {answer : Answer} {space changed : AddressSpace} {pages : List Page} {lost : List Frame}
    {after : Memory} (found : ledger.machine.spaces.find? name = some space)
    (changes : AddressSpace.Changes ledger.memory space changed pages lost after) :
    ledger.Advances (.change name command) answer
      ⟨after, ledger.machine.spaces.insert name changed⟩ := by
  have sound := balanced.sound_of_found found
  rcases changes with ⟨reshapes, root, released, counted, settled⟩
  apply advances_of_found balanced [(name, changed)] lost found (List.Perm.refl _)
    (List.Sublist.refl _) _ reshapes.lostFrames
  · intro entry member
    rw [List.mem_singleton.mp member]
    refine ⟨?_, released.trans sound.live, settled sound.settled⟩
    rw [root]
    exact reshapes.tree
  · have past : ledger.pastAfter (.change name command) = ledger.past := rfl
    rw [leaks_singleton, counted, past]
    omega
  · rw [reached_singleton, root]
    exact (Settles.of_exchange reshapes.exchange).behind ledger.held

theorem advances_of_accessed (balanced : ledger.Balanced) {name : Nat} {command : SpaceAccess}
    {answer : Answer} {space : AddressSpace} {added? : Option (Page × Frame)} {after : Memory}
    (found : ledger.machine.spaces.find? name = some space)
    (serves : SpaceAccess.Serves ledger.memory ledger.held space added? after
      (heldAfter ledger.held (.access name command) answer)) :
    ledger.Advances (.access name command) answer ⟨after, ledger.machine.spaces⟩ := by
  have sound := balanced.sound_of_found found
  apply advances_of_found balanced [(name, space)] [] found (balanced.entries_perm found)
    (List.Sublist.refl _) _ serves.lostFrames
  · intro entry member
    rw [List.mem_singleton.mp member]
    exact ⟨serves.tree, sound.live, sound.settled⟩
  · simp [pastAfter, leaks]
  · rw [reached_singleton]
    exact serves.settles

/-- A space that is torn down has nothing left. -/
theorem advances_of_removed (balanced : ledger.Balanced) {command : Command} {name : Nat}
    {space : AddressSpace} {gone : List Frame} {after : Memory}
    (removes : command = .destroy name ∨ command = .discard name)
    (found : ledger.machine.spaces.find? name = some space)
    (returns : Returns ledger.memory (ledger.memory.ram.reach space.root) gone after) :
    ledger.Advances command .done ⟨after, ledger.machine.spaces.erase name⟩ := by
  have past : ledger.pastAfter command = space :: ledger.past := by
    rcases removes with rfl | rfl <;> simp [pastAfter, found]
  have held : heldAfter ledger.held command .done = ledger.held := by
    rcases removes with rfl | rfl <;> rfl
  apply advances_of_found balanced [] [] found (List.Perm.refl _)
    (List.nil_sublist _) _ returns.lostFrames
  · intro entry member
    cases member
  · simp [past, leaks]
  · rw [held]
    exact (Settles.of_disposes returns.toDisposes).behind ledger.held

/-- Every outcome leaves a balanced ledger. -/
theorem Balanced.advances (balanced : ledger.Balanced) {command : Command} {answer : Answer}
    {after : Machine} (outcome : ledger.Outcome command answer after) :
    ledger.Advances command answer after := by
  cases outcome with
  | missing about missing => exact advances_of_missing balanced about missing
  | settled target settles lostFrames =>
      exact advances_of_settles balanced (pastAfter_of_target target) settles lostFrames
  | bootstrapped early bootstrapped changed =>
      exact advances_of_bootstrapped balanced early bootstrapped changed
  | created vacant creates => exact advances_of_created balanced vacant creates
  | forked found vacant forked =>
      have settled := (balanced.sound_of_found found).settled
      exact advances_of_made balanced vacant rfl rfl forked.extension
        ⟨forked.tree, forked.live, forked.settled settled⟩ forked.leakedFrames
  | changed found changes => exact advances_of_changed balanced found changes
  | accessed found serves => exact advances_of_accessed balanced found serves
  | removed removes found returns => exact advances_of_removed balanced removes found returns

/-- A command is executed, and the ledger after it is balanced again. -/
def Continues (ledger : Ledger) (command : Command) : Prop :=
  ∃ answer machine, ledger.machine.execute command = .ok (answer, machine) ∧
    (ledger.next command answer machine).Balanced ∧
    Follows ledger (ledger.next command answer machine)

/-- A balanced ledger executes every permitted command and is balanced afterwards. -/
theorem Balanced.continues (balanced : ledger.Balanced) {command : Command}
    (permitted : ledger.Permits command) : ledger.Continues command := by
  rcases balanced.answers permitted with ⟨answer, machine, executed, outcome⟩
  exact ⟨answer, machine, executed, balanced.advances outcome⟩

/-- All ledgers of a run are balanced if the first one is. -/
theorem Balanced.of_reaches {first : Ledger} (balanced : first.Balanced)
    (reached : ownership.Reaches first ledger) : ledger.Balanced ∧ Follows first ledger := by
  induction reached with
  | refl => exact ⟨balanced, .refl first⟩
  | step earlier permitted executed induction =>
      rcases induction with ⟨before, follows⟩
      rcases before.advances (before.outcome permitted executed) with ⟨after, next⟩
      exact ⟨after, follows.trans next⟩

/-- Every frame is lost once at most, so counters of lost frames are far from their ends. -/
theorem Balanced.leakedFrames_le (balanced : ledger.Balanced) {name : Nat} {space : AddressSpace}
    (found : ledger.machine.spaces.find? name = some space) :
    space.leakedFrames ≤ blockLimit := by
  have lost := (List.nodup_append.mp (List.nodup_append.mp balanced.owns.nodup).2.1).1
  have fewer := Block.length_le_of_nodup lost
  have counted := balanced.tally
  rw [leaks_perm ((balanced.entries_perm found).map Prod.snd), List.map_append, leaks_append,
    leaks_singleton] at counted
  omega

/-! ## Where the frame table is stored -/

/-- A frame that nobody has: it is not available, held or lost, and no space has it. -/
structure Unowned (ledger : Ledger) (frame : Frame) : Prop where
  available : frame ∉ ledger.memory.pool.available
  held : frame ∉ ledger.held
  lost : frame ∉ ledger.memory.lostFrames
  spaces : ∀ name space, ledger.machine.spaces.find? name = some space →
    frame ∉ space.frames ledger.memory.ram

theorem Balanced.unowned (balanced : ledger.Balanced) {frame : Frame}
    (outside : frame ∉ ledger.accounted) : ledger.Unowned frame := by
  have nowhere : frame ∉ ledger.outstanding := fun member =>
    outside (List.mem_append_right _ member)
  refine ⟨?_, ?_, ?_, ?_⟩
  · exact fun member => outside (List.mem_append_left _ member)
  · exact fun member => nowhere (List.mem_append_left _ member)
  · exact fun member => nowhere (List.mem_append_right _ (List.mem_append_left _ member))
  · intro name space found inside
    exact nowhere (mem_outstanding (balanced.mem_of_found found)
      ((space.reach_perm_frames _).mem_iff.mpr inside))

/-- The entries of a frame table lie in frames of its own. -/
structure KeepsTable (ledger : Ledger) (bounds : TableBounds) : Prop where
  reserved : ∀ index frame, bounds.Stores index frame →
    bounds.first.number ≤ frame.number ∧ frame.number < bounds.first.number + bounds.reserved
  unowned : ∀ index frame, bounds.Stores index frame → ledger.Unowned frame
  /-- Whatever is commanded from now on, nothing else is written there. -/
  untouched : ∀ index frame, bounds.Stores index frame → ∀ later,
    ownership.Reaches ledger later →
      later.memory.ram.contentsOf frame = ledger.memory.ram.contentsOf frame

theorem Balanced.keepsTable (balanced : ledger.Balanced) {bounds : TableBounds}
    (table : ledger.memory.pool.territory = .table bounds) (stored : bounds.Stored) :
    ledger.KeepsTable bounds := by
  have outside {index : Nat} {frame : Frame} (stores : bounds.Stores index frame) :
      frame ∉ ledger.accounted := by
    have unaccepted := stored.not_accepts stores
    rw [← table] at unaccepted
    intro member
    rcases List.mem_append.mp member with available | outstanding
    · exact unaccepted (balanced.owns.sound.accepts_available available)
    · exact unaccepted (balanced.owns.accepted frame outstanding)
  refine ⟨fun _ _ => stored.reserves, fun _ _ stores => balanced.unowned (outside stores), ?_⟩
  intro index frame stores later reached
  exact (balanced.of_reaches reached).2.untouched frame (outside stores)

end Ledger

end PagedMemory
