import PagedMemory.Proofs.Space.Backing
import PagedMemory.Proofs.Space.Copy
import PagedMemory.Proofs.Space.Declare
import PagedMemory.Proofs.Space.Teardown

/-!
# What a fork comes to

A fork that succeeds makes a tree of its own, of as many frames as the source
has if the source has regions, and of one frame otherwise.  One that fails has
disposed of every frame it took, by tearing the unfinished copy down.
-/

namespace PagedMemory.AddressSpace

open Memory

variable {memory : Memory} {rest : List Frame}

/-- How many frames a fork takes. -/
def forkCost (space : AddressSpace) (ram : Ram) : Nat :=
  if space.regions.entries = [] then 1 else (space.frames ram).length

/-- One frame for the root, one for each table and one for each backed page. -/
theorem forkCost_eq (space : AddressSpace) (ram : Ram) :
    space.forkCost ram = if space.regions.entries = [] then 1
      else 1 + (ram.tables space.root).length + (ram.backing space.root).length := by
  rw [forkCost, length_frames]

theorem forkCost_of_regions {space : AddressSpace} (regions : space.regions.entries ≠ [])
    (ram : Ram) : space.forkCost ram = (ram.reach space.root).length := by
  rw [forkCost, if_neg regions, (space.reach_perm_frames ram).length_eq]

theorem forkCost_pos (space : AddressSpace) (ram : Ram) : 0 < space.forkCost ram := by
  unfold forkCost
  split
  · exact Nat.one_pos
  · exact Nat.succ_pos _

/-- A copy of a space has been made. -/
structure Forked (before : Memory) (space copy : AddressSpace) (after : Memory) : Prop where
  extension : Extends before [] (after.ram.reach copy.root) after
  tree : after.ram.Tree copy.root
  cost : (after.ram.reach copy.root).length = space.forkCost before.ram
  live : copy.released = false
  leakedFrames : copy.leakedFrames = 0
  entries : copy.regions.entries = space.regions.entries
  settled : space.Settled → copy.Settled
  /-- Without regions, the copy is as good as new. -/
  fresh : space.regions.entries = [] →
    copy.loading = false ∧ after.ram.contentsOf copy.root = .zero
  deep : space.regions.entries ≠ [] →
    copy.loading = space.loading ∧
      Ram.SameDirectory before.ram after.ram space.root copy.root

/-- The outcome of a fork. -/
inductive Forks (before : Memory) (space : AddressSpace) (heap : Heap) :
    Except SpaceError AddressSpace → Memory → Prop where
  | forked {copy : AddressSpace} {after : Memory}
      (room : space.regions.entries ≠ [] → heap = .available)
      (forked : Forked before space copy after) : Forks before space heap (.ok copy) after
  | failed {refusal : SpaceError} {gone : List Frame} {after : Memory}
      (shortage : refusal.isExhaustion = true)
      (reason : before.grants < space.forkCost before.ram ∨
        space.regions.entries ≠ [] ∧ heap = .exhausted)
      (disposes : Disposes before [] gone after) :
      Forks before space heap (.error refusal) after

/-- A fork is given no frame that was outstanding. -/
theorem Forks.exchange {before after : Memory} {space : AddressSpace} {heap : Heap}
    {result : Except SpaceError AddressSpace} (forks : Forks before space heap result after) :
    ∃ left, Exchange before [] after left := by
  cases forks with
  | forked room forked => exact ⟨_, forked.extension.exchange⟩
  | failed shortage reason disposes => exact ⟨_, disposes.exchange⟩

/-- A fork succeeds exactly if there are enough frames and the regions can be copied. -/
theorem Forks.succeeds_iff {before after : Memory} {space : AddressSpace} {heap : Heap}
    {result : Except SpaceError AddressSpace} (forks : Forks before space heap result after) :
    (∃ copy, result = .ok copy) ↔ space.forkCost before.ram ≤ before.grants ∧
      (space.regions.entries ≠ [] → heap = .available) := by
  cases forks with
  | @forked copy _ room forked =>
      have granted := forked.extension.grants
      rw [forked.cost] at granted
      have enough : space.forkCost before.ram ≤ before.grants := by omega
      exact ⟨fun _ => ⟨enough, room⟩, fun _ => ⟨copy, rfl⟩⟩
  | failed shortage reason disposes =>
      constructor
      · rintro ⟨copy, impossible⟩
        cases impossible
      · rintro ⟨enough, room⟩
        rcases reason with short | ⟨regions, exhausted⟩
        · omega
        · cases (room regions).symm.trans exhausted

/-- An unfinished copy gives back what it has taken. -/
theorem abandon_ensures {before : Memory} {copy : AddressSpace}
    (owns : before.Owns rest) (live : copy.released = false)
    (extension : Extends before [] (memory.ram.reach copy.root) memory)
    (refusal : SpaceError) :
    Ensures (copy.abandon refusal) memory fun result after =>
      result = .error refusal ∧ ∃ gone, Disposes before [] gone after := by
  have owned : memory.Owns (memory.ram.reach copy.root ++ rest) := extension.owns owns
  refine (discard_ensures live owned).bind ?_
  rintro _ after ⟨gone, returns⟩
  exact Ensures.pure ⟨rfl, gone, extension.dispose returns⟩

theorem Forked.record {before after : Memory} {space copy : AddressSpace}
    (forked : Forked before space copy after) {event : Event}
    (quiet : event.lostFrame? = none) :
    Forked before space copy { after with log := event :: after.log } :=
  { forked with extension := forked.extension.record quiet }

/-- Without regions, a new space is a copy. -/
theorem forked_of_empty {created : Memory} {space : AddressSpace} {root : Frame}
    (regions : space.regions.entries = []) (new : Extends memory [] [root] created)
    (tree : created.ram.Tree root) (zeroed : created.ram.contentsOf root = .zero) :
    Forked memory space ⟨root, .empty, false, 0, false⟩ created := by
  have single := (Ram.tree_of_zero tree.held_root zeroed).2
  refine ⟨?_, tree, ?_, rfl, rfl, regions.symm, ?_, fun _ => ⟨rfl, zeroed⟩, ?_⟩
  · rw [single]
    exact new
  · rw [single, forkCost, if_pos regions]
    rfl
  · intro _ _ region member
    cases member
  · intro some
    exact absurd regions some

/-- What the loops have made of a new root. -/
theorem forked_of_tables {created after : Memory} {space copy : AddressSpace}
    {taken : List Frame} {count : Nat} (owns : memory.Owns rest)
    (readable : ∀ frame ∈ memory.ram.reach space.root, frame ∈ rest)
    (regions : space.regions.entries ≠ [])
    (new : Extends memory [] [copy.root] created)
    (single : created.ram.reach copy.root = [copy.root])
    (copies : CopiesTables created copy.root (List.range slotsPerTable) taken after)
    (forked : TablesForked created space.root copy.root (List.range slotsPerTable) taken
      after (.ok count))
    (live : copy.released = false) (leaked : copy.leakedFrames = 0)
    (entries : copy.regions.entries = space.regions.entries)
    (loading : copy.loading = space.loading) : Forked memory space copy after := by
  have kept (frame : Frame) (member : frame ∈ memory.ram.reach space.root) :
      created.ram.contentsOf frame = memory.ram.contentsOf frame :=
    new.kept owns (readable frame member)
  have sameReach := Ram.reach_of_same kept
  have reach := copies.reach
  rw [single] at reach
  rcases sameDirectory_of_tablesForked forked with ⟨enough, same⟩
  refine ⟨(new.nest copies.extension).of_perm reach.symm, copies.tree, ?_, live, leaked,
    entries, ?_, ?_, ?_⟩
  · rw [reach.length_eq, forkCost_of_regions regions, ← sameReach, ← enough]
    exact List.length_append
  · intro settled closed
    rw [entries]
    exact settled (loading.symm.trans closed)
  · intro none
    exact absurd none regions
  · intro _
    refine ⟨loading, same.transport ?_⟩
    rw [sameReach]
    exact fun frame member => (kept frame member).symm

theorem entries_of_copy? {list copy : RegionList} {heap : Heap}
    (copied : list.copy? heap = some copy) :
    heap = .available ∧ copy.entries = list.entries := by
  cases heap with
  | available =>
      cases copied
      exact ⟨rfl, rfl⟩
  | exhausted => cases copied

theorem fork_ensures {space : AddressSpace} (owns : memory.Owns rest)
    (readable : ∀ frame ∈ memory.ram.reach space.root, frame ∈ rest) (heap : Heap) :
    Ensures (space.fork heap) memory (Forks memory space heap) := by
  refine (create_ensures owns).bind ?_
  intro result created creates
  cases creates with
  | refused new none =>
      refine Ensures.pure (.failed rfl (Or.inl ?_) (new.dispose (.refl new.exchange.sound)))
      rw [none]
      exact space.forkCost_pos memory.ram
  | @created root _ new tree zeroed =>
      have single := (Ram.tree_of_zero tree.held_root zeroed).2
      have whole : Extends memory [] (created.ram.reach root) created := by
        rw [single]
        exact new
      by_cases regions : space.regions.entries = []
      · dsimp only
        rw [if_pos (List.isEmpty_iff.mpr regions)]
        apply Ensures.record_then
        have forked := forked_of_empty regions new tree zeroed
        exact Ensures.pure (.forked (fun some => absurd regions some) (forked.record rfl))
      · dsimp only
        rw [if_neg (fun empty => regions (List.isEmpty_iff.mp empty))]
        have cost := forkCost_of_regions regions memory.ram
        cases copied : space.regions.copy? heap with
        | none =>
            have exhausted : heap = .exhausted := by
              cases heap with
              | available => cases copied
              | exhausted => rfl
            refine (abandon_ensures owns rfl whole .outOfHeap).imp ?_
            rintro result after ⟨rfl, gone, disposes⟩
            exact .failed rfl (Or.inr ⟨regions, exhausted⟩) disposes
        | some list =>
            rcases entries_of_copy? copied with ⟨available, entries⟩
            have owned : created.Owns (created.ram.reach root ++ rest) := whole.owns owns
            have kept (frame : Frame) (member : frame ∈ memory.ram.reach space.root) :
                created.ram.contentsOf frame = memory.ram.contentsOf frame :=
              new.kept owns (readable frame member)
            have sameReach := Ram.reach_of_same kept
            have readable' : ∀ frame ∈ created.ram.reach space.root, frame ∈ rest := by
              rw [sameReach]
              exact readable
            have empty (slot : Nat) (_ : slot ∈ List.range slotsPerTable) :
                created.ram.slot root slot = none := by
              rw [Ram.slot, zeroed, FrameContents.slot_zero]
            refine (forkTables_ensures owned tree readable'
              (fun slot member => List.mem_range.mp member) List.nodup_range empty 0).bind ?_
            rintro result after ⟨taken, copies, forked⟩
            cases result with
            | error refusal =>
                rcases grants_of_tablesForked forked with ⟨rfl, short⟩
                have reach := copies.reach
                rw [single] at reach
                have grown := (new.nest copies.extension).of_perm reach.symm
                refine (abandon_ensures owns rfl grown .outOfFrames).imp ?_
                rintro result later ⟨rfl, gone, disposes⟩
                refine .failed rfl (Or.inl ?_) disposes
                rw [cost, ← sameReach, new.grants]
                exact short
            | ok count =>
                have made : Forked memory space { (⟨root, .empty, false, 0, false⟩ : AddressSpace)
                    with regions := list, loading := space.loading } after :=
                  forked_of_tables owns readable regions new single copies forked rfl rfl
                    entries rfl
                apply Ensures.record_then
                exact Ensures.pure (.forked (fun _ => available) (made.record rfl))

end PagedMemory.AddressSpace
