import PagedMemory.Address
import Mathlib.Data.List.Nodup
import Mathlib.Data.List.Perm.Subperm

/-!
# Runs of consecutive blocks

A run that fits below the block limit spells consecutive numbers, so it repeats
no block and holds exactly the blocks between its two ends.
-/

namespace PagedMemory.Block

variable {kind : AddressKind}

theorem number_injective : Function.Injective (@number kind) := by
  intro left right equal
  exact number_inj.mp equal

/-- No more blocks than there are can be different from one another. -/
theorem length_le_of_nodup {blocks : List (Block kind)} (distinct : blocks.Nodup) :
    blocks.length ≤ blockLimit := by
  have within : blocks.map number ⊆ List.range blockLimit := by
    intro number member
    rcases List.mem_map.mp member with ⟨block, -, rfl⟩
    exact List.mem_range.mpr block.number_lt
  have fewer := (List.subperm_of_subset (distinct.map number_injective) within).length_le
  rwa [List.length_map, List.length_range] at fewer

theorem map_number_run {first : Block kind} {count : Nat}
    (fits : first.number + count ≤ blockLimit) :
    (first.run count).map number = List.range' first.number count := by
  have each : ∀ index ∈ List.range count,
      (first.add? index).map number = some (first.number + index) := by
    intro index member
    have below : index < count := List.mem_range.mp member
    have target : first.add? index =
        some ⟨first.number + index, Nat.lt_of_lt_of_le (by omega) fits⟩ :=
      add?_eq_some_iff.mpr rfl
    rw [target]
    rfl
  calc
    (first.run count).map number
      = (List.range count).filterMap
          (fun index => (first.add? index).map number) := by
        rw [run, List.map_filterMap]
    _ = (List.range count).filterMap
          (fun index => some (first.number + index)) :=
        List.filterMap_congr each
    _ = (List.range count).map (first.number + ·) :=
        congrFun (List.filterMap_eq_map (f := (first.number + ·))) _
    _ = List.range' first.number count :=
        List.range'_eq_map_range.symm

theorem length_run {first : Block kind} {count : Nat}
    (fits : first.number + count ≤ blockLimit) :
    (first.run count).length = count := by
  have numbers := congrArg List.length (map_number_run fits)
  simpa using numbers

theorem nodup_run {first : Block kind} {count : Nat}
    (fits : first.number + count ≤ blockLimit) :
    (first.run count).Nodup := by
  apply List.Nodup.of_map number
  rw [map_number_run fits]
  exact List.nodup_range'

/-- A run holds the blocks from its first one on, below its end. -/
theorem mem_run {first block : Block kind} {count : Nat} :
    block ∈ first.run count ↔
      first.number ≤ block.number ∧ block.number < first.number + count := by
  constructor
  · intro member
    rcases List.mem_filterMap.mp member with ⟨index, inside, target⟩
    have below := List.mem_range.mp inside
    rw [add?_eq_some_iff.mp target]
    omega
  · rintro ⟨above, below⟩
    refine List.mem_filterMap.mpr ⟨block.number - first.number, ?_, add?_eq_some_iff.mpr ?_⟩
    · exact List.mem_range.mpr (by omega)
    · omega

/-- Two lists of blocks with the same numbers are the same list. -/
theorem eq_of_map_number {left right : List (Block kind)}
    (equal : left.map number = right.map number) : left = right :=
  List.map_injective_iff.mpr number_injective equal

theorem run_succ (first next : Block kind) {count : Nat}
    (successor : next.number = first.number + 1)
    (fits : first.number + (count + 1) ≤ blockLimit) :
    first.run (count + 1) = first :: next.run count := by
  apply eq_of_map_number
  rw [List.map_cons, map_number_run fits, map_number_run (by omega), successor,
    List.range'_succ]

/-- The first blocks of a run are a shorter run. -/
theorem take_run {first : Block kind} {count size : Nat}
    (fits : first.number + count ≤ blockLimit) (within : size ≤ count) :
    (first.run count).take size = first.run size := by
  apply eq_of_map_number
  rw [List.map_take, map_number_run fits, map_number_run (by omega),
    List.take_range'_of_length_ge within]

/-- Without its first blocks, a run is the run from a later block on. -/
theorem drop_run {first later : Block kind} {count size : Nat}
    (fits : first.number + count ≤ blockLimit) (within : size ≤ count)
    (start : later.number = first.number + size) :
    (first.run count).drop size = later.run (count - size) := by
  apply eq_of_map_number
  rw [List.map_drop, map_number_run fits, map_number_run (by omega),
    List.drop_range', start, Nat.mul_one]

/-- A run is its first blocks and the run from a later block on. -/
theorem run_split {first later : Block kind} {count size : Nat}
    (fits : first.number + count ≤ blockLimit) (within : size ≤ count)
    (start : later.number = first.number + size) :
    first.run count = first.run size ++ later.run (count - size) := by
  rw [← take_run fits within, ← drop_run fits within start, List.take_append_drop]

end PagedMemory.Block
