import PagedMemory.Proofs.Space.Building
import PagedMemory.Proofs.Space.Fork

/-!
# Forks build tables

A fork reads data frames of its source, which may be anybody's: those of another space,
or some that belong to no space at all.  It may panic over them.  If it succeeds, it has
written no frames but those that it has taken, and the tables of the copy stand where the
source has some.
-/

namespace PagedMemory.AddressSpace

open Memory

variable {memory : Memory} {source target : Frame} {rest : List Frame}

/-- Whatever frames are copied, the copy of a table is a clean table. -/
theorem forkPages_leaves (owns : memory.Owns [target])
    (clean : (memory.ram.contentsOf target).Clean) {slots : List Nat}
    (bounded : ∀ slot ∈ slots, slot < slotsPerTable) (copied : Nat) :
    Leaves (forkPages source target slots copied) memory fun result after =>
      ∀ count, result = .ok count →
        HandsOn memory [target] after [target] ∧ (after.ram.contentsOf target).Clean := by
  induction slots generalizing memory copied with
  | nil => exact Leaves.pure fun _ _ => ⟨.refl memory _, clean⟩
  | cons slot slots induction =>
      rcases List.forall_mem_cons.mp bounded with ⟨inside, boundedRest⟩
      refine (slotFrame?_leaves source slot).bind ?_
      rintro found memory rfl
      cases found with
      | none => exact induction owns clean boundedRest copied
      | some data =>
          refine (takeCopy_leaves owns.sound data).bind ?_
          intro result between obtains
          cases result with
          | error refusal => exact Leaves.pure nofun
          | ok frame =>
              have held : between.ram.holds target = true := by
                rw [obtains.exchange.extent]
                exact owns.held_of_mem List.mem_cons_self
              refine (Leaves.of_ensures (setPageSlot_ensures held inside (.backed frame))).bind ?_
              intro _ later writes
              rcases obtains.extends owns writes with ⟨extension, -, same⟩
              -- The page keeps the frame; the loop goes on with the table alone.
              have step : HandsOn memory [target] later [target] :=
                (HandsOn.of_exchange extension.exchange).drop
              have clean' : (later.ram.contentsOf target).Clean := by
                rw [writes.replaced.target, same]
                exact clean.put inside (.backed frame)
              refine (induction (step.owns owns) clean' boundedRest (copied + 1)).imp ?_
              intro result after copies count success
              rcases copies count success with ⟨handsOn, clean''⟩
              exact ⟨step.trans handsOn, clean''⟩

/-- The tables of a copy that is finished are those for the slots that the source has filled. -/
theorem forkTables_builds {names : Nat → Option Frame}
    (owns : memory.Owns (memory.ram.bones target ++ rest))
    (skeleton : memory.ram.Skeleton target) (among : source ∈ rest)
    (named : memory.ram.slot source = names) {slots : List Nat}
    (bounded : ∀ slot ∈ slots, slot < slotsPerTable) (distinct : slots.Nodup)
    (empty : ∀ slot ∈ slots, memory.ram.slot target slot = none) (copied : Nat) :
    Leaves (forkTables source target slots copied) memory fun result after =>
      ∀ count, result = .ok count →
        Builds memory target (slots.filter fun slot => (names slot).isSome) after ∧
          ∀ slot ∈ slots, (names slot).isSome = true →
            (after.ram.slot target slot).isSome = true := by
  induction slots generalizing memory copied with
  | nil => exact Leaves.pure fun _ _ => ⟨.refl skeleton, nofun⟩
  | cons slot slots induction =>
      rcases List.forall_mem_cons.mp bounded with ⟨inside, boundedRest⟩
      rcases List.forall_mem_cons.mp empty with ⟨unused, emptyRest⟩
      rcases List.nodup_cons.mp distinct with ⟨fresh, distinctRest⟩
      have heldSource : memory.ram.holds source = true := owns.right.held_of_mem among
      refine (Leaves.of_ensures (slotFrame?_ensures heldSource inside)).bind ?_
      rintro found memory ⟨rfl, rfl⟩
      rw [named]
      cases stands : names slot with
      | none =>
          refine (induction owns skeleton named boundedRest distinctRest emptyRest copied).imp ?_
          intro result after copies count success
          rcases copies count success with ⟨builds, filled⟩
          rw [List.filter_cons_of_neg (by simp [stands])]
          refine ⟨builds, List.forall_mem_cons.mpr ⟨?_, filled⟩⟩
          rw [stands]
          exact nofun
      | some table =>
          rw [List.filter_cons_of_pos (by simp [stands])]
          refine (Leaves.of_ensures (takeZeroed_ensures owns)).bind ?_
          intro result between obtains
          cases result with
          | error refusal => exact Leaves.pure nofun
          | ok made =>
              have held : between.ram.holds target = true := by
                rw [obtains.exchange.extent]
                exact skeleton.heldRoot
              refine (Leaves.of_ensures (setDirectorySlot_ensures held inside
                (.table made))).bind ?_
              intro _ linked writes
              rcases Builds.of_obtains owns.left skeleton inside unused obtains writes with
                ⟨built, place⟩
              have ownsLinked := built.owns owns
              have ownsMade : linked.Owns [made] := by
                have perm := List.perm_cons_erase (Ram.table_mem_bones place)
                exact Owns.left (ownsLinked.left.of_perm perm)
              refine (forkPages_leaves ownsMade (built.skeleton.clean _ _ place)
                (fun index => List.mem_range.mp) copied).bind ?_
              intro result later copies
              cases result with
              | error refusal => exact Leaves.pure nofun
              | ok count =>
                  rcases copies count rfl with ⟨handsOn, clean⟩
                  have kept := Builds.of_table ownsLinked.left built.skeleton place handsOn clean
                  have grown : Builds memory target [slot] later := built.trans kept
                  have there : (later.ram.slot target slot).isSome = true := by
                    rw [kept.kept slot made place]
                    rfl
                  -- The source stands beside the copy, so it names what it named before.
                  have named' : later.ram.slot source = names := by
                    rw [← named]
                    exact funext (Ram.slot_congr (grown.handsOn.kept owns among))
                  have empty' := still_empty (fun other => grown.slot_of_not_mem) fresh emptyRest
                  refine (induction (grown.owns owns) grown.skeleton named' boundedRest
                    distinctRest empty' count).imp ?_
                  intro result after copies total success
                  rcases copies total success with ⟨builds, filled⟩
                  exact ⟨grown.trans builds,
                    List.forall_mem_cons.mpr ⟨fun _ => builds.filled there, filled⟩⟩

/-- A copy of a space has been made, whatever frames stand behind the pages of the space. -/
structure Copied (before : Memory) (space copy : AddressSpace) (after : Memory) : Prop where
  handsOn : HandsOn before [] after (after.ram.bones copy.root)
  skeleton : after.ram.Skeleton copy.root
  entries : copy.regions.entries = space.regions.entries
  slots : ∀ index, (after.ram.slot copy.root index).isSome = true ↔
    space.regions.entries ≠ [] ∧ (before.ram.slot space.root index).isSome = true

theorem Copied.record {before after : Memory} {space copy : AddressSpace}
    (copied : Copied before space copy after) (event : Event) :
    Copied before space copy { after with log := event :: after.log } :=
  { copied with handsOn := copied.handsOn.record event }

/-- An empty directory has been filled like another one. -/
theorem isSome_slot_of_tables {after : Memory}
    (absent : ∀ index, memory.ram.slot target index = none)
    (builds : Builds memory target ((List.range slotsPerTable).filter fun slot =>
      (memory.ram.slot source slot).isSome) after)
    (filled : ∀ slot ∈ List.range slotsPerTable, (memory.ram.slot source slot).isSome = true →
      (after.ram.slot target slot).isSome = true) (index : Nat) :
    (after.ram.slot target index).isSome = true ↔
      (memory.ram.slot source index).isSome = true := by
  constructor
  · intro there
    rcases Option.isSome_iff_exists.mp there with ⟨table, named⟩
    rcases builds.added index table named with old | new
    · cases (absent index).symm.trans old
    · exact (List.mem_filter.mp new).2
  · intro there
    by_cases bounded : index < slotsPerTable
    · exact filled index (List.mem_range.mpr bounded) there
    · rw [Ram.slot_of_le (Nat.le_of_not_lt bounded)] at there
      cases there

/-- Giving up on a copy is no success. -/
theorem abandon_leaves {space copy : AddressSpace} (before : Memory) (refusal : SpaceError) :
    Leaves (copy.abandon refusal) memory fun result after =>
      ∀ copy, result = .ok copy → Copied before space copy after := by
  refine Leaves.bind (fun _ _ _ => trivial) ?_
  intro _ after _
  exact Leaves.pure nofun

theorem fork_copies {space : AddressSpace} (owns : memory.Owns rest)
    (among : space.root ∈ rest) (heap : Heap) :
    Leaves (space.fork heap) memory fun result after =>
      ∀ copy, result = .ok copy → Copied memory space copy after := by
  refine (Leaves.of_ensures (create_ensures owns)).bind ?_
  intro result created creates
  cases creates with
  | refused new none =>
      refine Leaves.pure fun copy same => ?_
      cases same
  | @created root _ new tree zeroed =>
      have made : HandsOn memory [] created (created.ram.bones root) := by
        rw [Ram.bones_of_zero zeroed]
        exact .of_exchange new.exchange
      have absent (index : Nat) : created.ram.slot root index = none := by
        rw [Ram.slot, zeroed, FrameContents.slot_zero]
      dsimp only
      by_cases regions : space.regions.entries = []
      · rw [if_pos (List.isEmpty_iff.mpr regions)]
        have copied : Copied memory space ⟨root, .empty, false, 0, false⟩ created := by
          refine ⟨made, tree.skeleton, regions.symm, fun index => ?_⟩
          simp [absent, regions]
        apply Leaves.record_then
        refine Leaves.pure fun copy same => ?_
        cases same
        exact copied.record _
      · rw [if_neg (fun empty => regions (List.isEmpty_iff.mp empty))]
        cases listed : space.regions.copy? heap with
        | none => exact abandon_leaves memory .outOfHeap
        | some list =>
            rcases entries_of_copy? listed with ⟨-, entries⟩
            rcases made.passes rest owns with ⟨whole, kept⟩
            refine (forkTables_builds whole tree.skeleton among rfl
              (fun slot => List.mem_range.mp) List.nodup_range (fun slot _ => absent slot)
              0).bind ?_
            intro result after copies
            cases result with
            | error refusal => exact abandon_leaves memory _
            | ok count =>
                rcases copies count rfl with ⟨builds, filled⟩
                have copied : Copied memory space ⟨root, list, space.loading, 0, false⟩ after := by
                  refine ⟨made.trans builds.handsOn, builds.skeleton, entries, fun index => ?_⟩
                  rw [isSome_slot_of_tables absent builds filled,
                    Ram.slot_congr (kept space.root among)]
                  exact (and_iff_right regions).symm
                apply Leaves.record_then
                refine Leaves.pure fun copy same => ?_
                cases same
                exact copied.record _

end PagedMemory.AddressSpace
