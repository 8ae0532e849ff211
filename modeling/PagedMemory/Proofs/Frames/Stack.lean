import PagedMemory.Frames.FreeStack
import PagedMemory.Proofs.Address.Run

/-!
# The free stack as a list of frames

The links of the frame table, followed from the head, spell a list of frames.
`Represents` says that they spell a given list and that the rest of the table
agrees with it: an entry is free exactly if its frame is in the list, the list
repeats nothing, no frame of the table itself is in it, and the counter is its
length.

A stack that represents a list behaves like that list.  Popping takes its head,
pushing puts a frame in front of it, and no step runs into a panic or finds the
table corrupt.  A newly built table represents all frames past its own storage
in ascending order.
-/

namespace PagedMemory

/-- The frames that a frame table is about, and how many of them it occupies. -/
structure TableBounds where
  first : Frame
  total : Nat
  reserved : Nat
  deriving DecidableEq

namespace TableBounds

/-- A frame past the table's own storage that has an entry. -/
def Manages (bounds : TableBounds) (frame : Frame) : Prop :=
  bounds.first.number + bounds.reserved ≤ frame.number ∧
    frame.number < bounds.first.number + bounds.total

/-- The managed frames in ascending order. -/
def managed (bounds : TableBounds) : List Frame :=
  (bounds.first.run bounds.total).drop bounds.reserved

theorem managed_eq_run {bounds : TableBounds} {lowest : Frame}
    (fits : bounds.first.number + bounds.total ≤ blockLimit)
    (start : lowest.number = bounds.first.number + bounds.reserved)
    (within : bounds.reserved ≤ bounds.total) :
    bounds.managed = lowest.run (bounds.total - bounds.reserved) :=
  Block.drop_run fits within start

theorem nodup_managed {bounds : TableBounds}
    (fits : bounds.first.number + bounds.total ≤ blockLimit) :
    bounds.managed.Nodup :=
  (Block.nodup_run fits).sublist (List.drop_sublist _ _)

theorem map_number_managed {bounds : TableBounds}
    (fits : bounds.first.number + bounds.total ≤ blockLimit) :
    bounds.managed.map Block.number =
      List.range' (bounds.first.number + bounds.reserved)
        (bounds.total - bounds.reserved) := by
  rw [managed, List.map_drop, Block.map_number_run fits, List.drop_range',
    Nat.mul_one]

theorem length_managed {bounds : TableBounds}
    (fits : bounds.first.number + bounds.total ≤ blockLimit) :
    bounds.managed.length = bounds.total - bounds.reserved := by
  simpa using congrArg List.length (map_number_managed fits)

theorem mem_managed {bounds : TableBounds}
    (fits : bounds.first.number + bounds.total ≤ blockLimit) {frame : Frame} :
    frame ∈ bounds.managed ↔ bounds.Manages frame := by
  rw [← List.mem_map_of_injective Block.number_injective, map_number_managed fits,
    List.mem_range'_1]
  unfold Manages
  omega

end TableBounds

namespace FreeStack

/-- From a link on, the table spells the frames of a list and then ends. -/
def Spells (stack : FreeStack) : Option Nat → List Frame → Prop
  | none, [] => True
  | none, _ :: _ => False
  | some _, [] => False
  | some index, frame :: rest =>
      frame.number = stack.first.number + index ∧
        ∃ next, stack.entries[index]? = some (.free next) ∧
          stack.Spells next rest

/-- The frames that a table is about. -/
def bounds (stack : FreeStack) : TableBounds :=
  ⟨stack.first, stack.total, stack.reserved⟩

/-- The frames of a stack from the top down are those of a list. -/
structure Represents (stack : FreeStack) (frames : List Frame) : Prop where
  fits : stack.first.number + stack.total ≤ blockLimit
  reserved_lt : stack.reserved < stack.total
  spells : stack.Spells stack.head frames
  distinct : frames.Nodup
  manages : ∀ frame ∈ frames, stack.bounds.Manages frame
  /-- The entry of a frame says whether the frame is in the list. -/
  free_iff : ∀ frame index, frame.number = stack.first.number + index →
    (frame ∈ frames ↔ ∃ next, stack.entries[index]? = some (.free next))
  counted : stack.freeCount = frames.length

/-! ## Following links -/

/--
Replacing the entry of a frame outside a list does not change how the list is
spelled.
-/
theorem Spells.replace {stack : FreeStack} {link : Option Nat} {frames : List Frame}
    (spells : stack.Spells link frames)
    {target : Nat} {entry : FrameEntry} {inside : target < stack.entries.size}
    {head : Option Nat} {count : Nat}
    (avoided : ∀ frame ∈ frames, frame.number ≠ stack.first.number + target) :
    Spells { stack with
      entries := stack.entries.set target entry inside
      head
      freeCount := count } link frames := by
  induction frames generalizing link with
  | nil =>
      cases link with
      | none => trivial
      | some index => exact spells.elim
  | cons frame rest induction =>
      cases link with
      | none => exact spells.elim
      | some index =>
          obtain ⟨number, next, entryFree, remaining⟩ := spells
          have apart : target ≠ index := by
            intro same
            apply avoided frame List.mem_cons_self
            rw [number, same]
          refine ⟨number, next, ?_, ?_⟩
          · rw [Array.getElem?_set_ne inside apart]
            exact entryFree
          · exact induction remaining
              fun other member => avoided other (List.mem_cons_of_mem _ member)

theorem frameAt_of_number {stack : FreeStack} {frame : Frame} {index : Nat}
    (number : frame.number = stack.first.number + index) :
    stack.frameAt index = .ok frame :=
  Block.ofNumber_eq_ok_iff.mpr number

/-! ## Popping -/

/-- Two frames are the same if they have the same place in the table. -/
private theorem eq_of_place {stack : FreeStack} {left right : Frame} {index : Nat}
    (leftNumber : left.number = stack.first.number + index)
    (rightNumber : right.number = stack.first.number + index) : left = right :=
  Block.number_inj.mp (leftNumber.trans rightNumber.symm)

/-- Replacing the entry of a frame changes whether that frame is listed, and no other. -/
private theorem Represents.free_iff_replace {stack : FreeStack} {frames remaining : List Frame}
    (represents : stack.Represents frames) {frame : Frame} {index : Nat} {entry : FrameEntry}
    (number : frame.number = stack.first.number + index) (inside : index < stack.entries.size)
    (itself : frame ∈ remaining ↔ ∃ next, entry = .free next)
    (others : ∀ other, other ≠ frame → (other ∈ remaining ↔ other ∈ frames))
    (other : Frame) (place : Nat) (otherNumber : other.number = stack.first.number + place) :
    other ∈ remaining ↔
      ∃ next, (stack.entries.set index entry)[place]? = some (.free next) := by
  by_cases same : index = place
  · subst same
    have equal : other = frame := eq_of_place otherNumber number
    rw [equal, itself]
    simp [inside]
  · have differs : other ≠ frame := by
      rintro rfl
      exact same (Nat.add_left_cancel (number.symm.trans otherNumber))
    rw [Array.getElem?_set_ne inside same, others other differs]
    exact represents.free_iff other place otherNumber

theorem Represents.pop_nil {stack : FreeStack} (represents : stack.Represents []) :
    stack.pop = .ok (.error .exhausted, stack) := by
  have spells := represents.spells
  cases top : stack.head with
  | none =>
      unfold pop
      rw [top]
      rfl
  | some index =>
      rw [top] at spells
      exact spells.elim

theorem Represents.pop_cons {stack : FreeStack} {frame : Frame} {rest : List Frame}
    (represents : stack.Represents (frame :: rest)) :
    ∃ after, stack.pop = .ok (.ok frame, after) ∧ after.Represents rest ∧
      after.bounds = stack.bounds := by
  have spells := represents.spells
  cases top : stack.head with
  | none =>
      rw [top] at spells
      exact spells.elim
  | some index =>
      rw [top] at spells
      obtain ⟨number, next, entryFree, remaining⟩ := spells
      obtain ⟨inside, entry⟩ := Array.getElem?_eq_some_iff.mp entryFree
      have counted := represents.counted
      have positive : stack.freeCount ≠ 0 := by
        rw [counted]
        exact Nat.succ_ne_zero _
      have fresh : frame ∉ rest := (List.nodup_cons.mp represents.distinct).1
      refine ⟨{ stack with
        entries := stack.entries.set index .allocated
        head := next
        freeCount := stack.freeCount - 1 }, ?_, ?_, by simp [bounds, total]⟩
      · unfold pop
        simp only [top, inside, dite_true, entry, Checked.require_of positive,
          frameAt_of_number number]
        rfl
      · constructor
        · simpa [total] using represents.fits
        · simpa [total] using represents.reserved_lt
        · exact remaining.replace fun other member same =>
            fresh (eq_of_place number same ▸ member)
        · exact (List.nodup_cons.mp represents.distinct).2
        · intro other member
          simpa [bounds, TableBounds.Manages, total] using
            represents.manages other (List.mem_cons_of_mem _ member)
        · apply represents.free_iff_replace number inside
          · simp [fresh]
          · exact fun other differs => by simp [differs]
        · simp only [counted, List.length_cons, Nat.add_sub_cancel]

/-! ## Pushing -/

/-- A count of frames is far from the end of its word. -/
theorem Represents.countable {stack : FreeStack} {frames : List Frame}
    (represents : stack.Represents frames) : stack.freeCount + 1 < UInt64.size := by
  have fewer := Block.length_le_of_nodup represents.distinct
  rw [← represents.counted] at fewer
  simp only [blockLimit, UInt64.size] at *
  omega

theorem Represents.reservedEnd {stack : FreeStack} {frames : List Frame}
    (represents : stack.Represents frames) :
    ∃ boundary, stack.reservedEnd = .ok boundary ∧
      boundary.number = stack.first.number + stack.reserved := by
  have within : stack.first.number + stack.reserved < blockLimit := by
    have fits := represents.fits
    have less := represents.reserved_lt
    omega
  exact ⟨⟨_, within⟩, frameAt_of_number rfl, rfl⟩

theorem indexOf?_eq_some_iff {stack : FreeStack} {frame : Frame} {index : Nat} :
    stack.indexOf? frame = some index ↔
      frame.number = stack.first.number + index ∧ index < stack.total := by
  unfold indexOf?
  split <;> simp only [Option.some.injEq, reduceCtorEq, false_iff] <;> omega

theorem push_outOfRange {stack : FreeStack} {frame : Frame}
    (past : stack.first.number + stack.total ≤ frame.number) :
    stack.push frame = .ok (.error (.outOfRange frame.base), stack) := by
  have absent : stack.indexOf? frame = none := by
    apply Option.eq_none_iff_forall_ne_some.mpr
    intro index found
    rw [indexOf?_eq_some_iff] at found
    omega
  unfold push
  rw [absent]
  rfl

/-- The place of a managed frame in the table. -/
private theorem place_of_manages {stack : FreeStack} {frame : Frame}
    (managed : stack.bounds.Manages frame) :
    ∃ index, frame.number = stack.first.number + index ∧
      stack.indexOf? frame = some index ∧ stack.reserved ≤ index ∧
      index < stack.entries.size := by
  obtain ⟨above, below⟩ := managed
  simp only [bounds] at above below
  refine ⟨frame.number - stack.first.number, by omega, ?_, by omega, ?_⟩
  · rw [indexOf?_eq_some_iff]
    omega
  · simp only [total] at below
    omega

theorem Represents.push_member {stack : FreeStack} {frame : Frame}
    {frames : List Frame} (represents : stack.Represents frames)
    (member : frame ∈ frames) :
    stack.push frame = .ok (.error (.doubleFree frame.base), stack) := by
  obtain ⟨index, number, found, unreserved, inside⟩ :=
    place_of_manages (represents.manages frame member)
  obtain ⟨next, entryFree⟩ :=
    (represents.free_iff frame index number).mp member
  have entry : stack.entries[index] = .free next :=
    (Array.getElem?_eq_some_iff.mp entryFree).2
  unfold push
  simp only [found, Checked.require_of unreserved, inside, dite_true, entry]
  rfl

theorem Represents.push_new {stack : FreeStack} {frame : Frame}
    {frames : List Frame} (represents : stack.Represents frames)
    (managed : stack.bounds.Manages frame) (fresh : frame ∉ frames) :
    ∃ after, stack.push frame = .ok (.ok (), after) ∧
      after.Represents (frame :: frames) ∧ after.bounds = stack.bounds := by
  obtain ⟨index, number, found, unreserved, inside⟩ := place_of_manages managed
  have entry : stack.entries[index] = .allocated := by
    cases tag : stack.entries[index] with
    | allocated => rfl
    | free next =>
        have entryFree : stack.entries[index]? = some (.free next) := by
          rw [Array.getElem?_eq_getElem inside, tag]
        exact (fresh ((represents.free_iff frame index number).mpr
          ⟨next, entryFree⟩)).elim
  refine ⟨{ stack with
    entries := stack.entries.set index (.free stack.head)
    head := some index
    freeCount := stack.freeCount + 1 }, ?_, ?_, by simp [bounds, total]⟩
  · unfold push
    simp only [found, Checked.require_of unreserved, inside, dite_true, entry,
      Checked.require_of represents.countable]
    rfl
  · constructor
    · simpa [total] using represents.fits
    · simpa [total] using represents.reserved_lt
    · refine ⟨number, stack.head, by simp [inside], ?_⟩
      exact represents.spells.replace fun other member same =>
        fresh (eq_of_place number same ▸ member)
    · exact List.nodup_cons.mpr ⟨fresh, represents.distinct⟩
    · intro other member
      rcases List.mem_cons.mp member with rfl | old
      · simpa [bounds, TableBounds.Manages, total] using managed
      · simpa [bounds, TableBounds.Manages, total] using represents.manages other old
    · apply represents.free_iff_replace number inside
      · simp
      · exact fun other differs => by simp [differs]
    · simp only [represents.counted, List.length_cons]

/-! ## The table as it is built -/

/-- The entries of a new table from an index on. -/
private theorem spells_initial {stack : FreeStack} {total reserved : Nat}
    (entries : stack.entries =
      Array.ofFn fun index : Fin total => initialEntry reserved total index)
    (fits : stack.first.number + total ≤ blockLimit)
    (count : Nat) {index : Nat} {frame : Frame}
    (number : frame.number = stack.first.number + index)
    (unreserved : reserved ≤ index) (ends : index + (count + 1) = total) :
    stack.Spells (some index) (frame.run (count + 1)) := by
  induction count generalizing index frame with
  | zero =>
      have entryFree : stack.entries[index]? = some (.free none) := by
        simp [entries, initialEntry, show index < total by omega,
          show ¬ index < reserved by omega, show ¬ index + 1 < total by omega]
      have alone : frame.run 1 = [frame] := by
        simp [Block.run, List.range_succ]
      rw [alone]
      exact ⟨number, none, entryFree, trivial⟩
  | succ count induction =>
      have within : stack.first.number + (index + 1) < blockLimit := by omega
      let next : Frame := ⟨stack.first.number + (index + 1), within⟩
      have entryFree : stack.entries[index]? = some (.free (some (index + 1))) := by
        simp [entries, initialEntry, show index < total by omega,
          show ¬ index < reserved by omega, show index + 1 < total by omega]
      have following : stack.Spells (some (index + 1)) (next.run (count + 1)) :=
        induction rfl (by omega) (by omega)
      rw [Block.run_succ frame next (by simp only [next]; omega) (by omega)]
      exact ⟨number, some (index + 1), entryFree, following⟩

/-- A table with nothing handed out holds every frame that it manages. -/
private theorem represents_initial {stack : FreeStack} {total : Nat}
    (entries : stack.entries =
      Array.ofFn fun index : Fin total => initialEntry stack.reserved total index)
    (top : stack.head = some stack.reserved)
    (counted : stack.freeCount = total - stack.reserved)
    (fits : stack.first.number + total ≤ blockLimit)
    (less : stack.reserved < total) :
    stack.Represents stack.bounds.managed := by
  have size : stack.total = total := by simp [FreeStack.total, entries]
  have boundsFit : stack.bounds.first.number + stack.bounds.total ≤ blockLimit := by
    simpa only [bounds, size] using fits
  constructor
  · exact boundsFit
  · rw [size]
    exact less
  · let lowest : Frame := ⟨stack.first.number + stack.reserved, by omega⟩
    obtain ⟨count, remaining⟩ : ∃ count, total - stack.reserved = count + 1 :=
      ⟨total - stack.reserved - 1, by omega⟩
    have ascending : stack.bounds.managed = lowest.run (count + 1) := by
      rw [← remaining, ← size]
      exact TableBounds.managed_eq_run boundsFit rfl (by simp only [bounds, size]; omega)
    rw [top, ascending]
    exact spells_initial entries fits count rfl (Nat.le_refl _) (by omega)
  · exact TableBounds.nodup_managed boundsFit
  · intro frame member
    exact (TableBounds.mem_managed boundsFit).mp member
  · intro frame index number
    rw [TableBounds.mem_managed boundsFit]
    simp only [TableBounds.Manages, bounds, size, number, entries, initialEntry]
    by_cases inside : index < total
    · by_cases low : index < stack.reserved
      · simp [inside, low]
      · simp [inside, low]
        omega
    · simp [inside]
  · rw [TableBounds.length_managed boundsFit, counted]
    simp only [bounds, size]

/-- A new table is about the frames it was built for, and holds all it manages. -/
theorem represents_of_build {first : Frame} {total : Nat} {stack : FreeStack}
    (built : build first total = .ok (.ok stack))
    (fits : first.number + total ≤ blockLimit) :
    stack.first = first ∧ stack.total = total ∧
      stack.Represents stack.bounds.managed := by
  obtain ⟨reserved, -, chosen⟩ := Checked.bind_eq_ok.mp built
  by_cases large : total ≤ reserved
  · simp [large, pure, Except.pure] at chosen
  · simp only [large, if_false, pure, Except.pure, Except.ok.injEq] at chosen
    subst chosen
    exact ⟨rfl, Array.size_ofFn,
      represents_initial rfl rfl rfl fits (Nat.lt_of_not_le large)⟩

/-! ## Listing the stack -/

/-- The frames that some links from a given one on lead to. -/
def chain (stack : FreeStack) : Nat → Option Nat → List Frame
  | 0, _ => []
  | _ + 1, none => []
  | count + 1, some index =>
      match stack.frameAt index, stack.entries[index]? with
      | .ok frame, some (.free next) => frame :: stack.chain count next
      | _, _ => []

/-- The frames from the top down, as many as are counted. -/
def frames (stack : FreeStack) : List Frame :=
  stack.chain stack.freeCount stack.head

theorem Spells.chain_eq {stack : FreeStack} {link : Option Nat}
    {frames : List Frame} (spells : stack.Spells link frames) :
    stack.chain frames.length link = frames := by
  induction frames generalizing link with
  | nil => rfl
  | cons frame rest induction =>
      cases link with
      | none => exact spells.elim
      | some index =>
          obtain ⟨number, next, entryFree, remaining⟩ := spells
          simp only [List.length_cons, chain, frameAt_of_number number, entryFree,
            induction remaining]

theorem Represents.frames_eq {stack : FreeStack} {frames : List Frame}
    (represents : stack.Represents frames) : stack.frames = frames := by
  rw [FreeStack.frames, represents.counted]
  exact represents.spells.chain_eq

end FreeStack

end PagedMemory
