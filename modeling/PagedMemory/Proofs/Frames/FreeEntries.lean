import PagedMemory.Proofs.Frames.Moves

/-!
# Free entries and the counter

The entries of a table that say "free" can be counted, whether links lead to them or
not.  Taking a frame lowers their number and the counter by one, and putting a frame on
top raises both.  So the two keep their distance as long as the table is not damaged:
if the counter has room for all frames at first, it always has.
-/

namespace PagedMemory

/-- The entry says that its frame is free. -/
def FrameEntry.isFree : FrameEntry → Bool
  | .allocated => false
  | .free _ => true

namespace FreeStack

variable {stack after : FreeStack} {frame : Frame} {frames : List Frame}

/-- The number of entries that are free, whether links lead to them or not. -/
def freeEntries (stack : FreeStack) : Nat :=
  stack.entries.countP FrameEntry.isFree

/-- Replacing an entry changes the number of free entries by that entry only. -/
theorem freeEntries_set {target : Nat} (inside : target < stack.entries.size)
    (entry : FrameEntry) (head : Option Nat) (count : Nat) :
    freeEntries { stack with
      entries := stack.entries.set target entry
      head
      freeCount := count } + stack.entries[target].isFree.toNat =
        stack.freeEntries + entry.isFree.toNat := by
  have member : stack.entries[target].isFree = true → 0 < stack.freeEntries :=
    fun free => Array.countP_pos_iff.mpr ⟨_, Array.getElem_mem inside, free⟩
  simp only [freeEntries, Array.countP_set inside] at member ⊢
  cases old : stack.entries[target].isFree with
  | false => cases new : entry.isFree <;> simp
  | true =>
      have positive := member old
      cases new : entry.isFree <;> simp <;> omega

/-- Where an entry is allocated, not all entries are free. -/
theorem freeEntries_lt {index : Nat} (tag : stack.entries[index]? = some .allocated) :
    stack.freeEntries < stack.total := by
  refine Nat.lt_of_le_of_ne Array.countP_le_size fun all => ?_
  exact Bool.noConfusion
    (Array.countP_eq_size.mp all FrameEntry.allocated (Array.mem_of_getElem? tag))

/-- Every frame that is taken uses up a free entry. -/
theorem Pops.freeEntries (pops : stack.Pops (.ok frame) after) :
    after.freeEntries + 1 = stack.freeEntries := by
  cases pops with
  | @taken _ _ next top number inside tag counted =>
      have counts := freeEntries_set inside .allocated next (stack.freeCount - 1)
      rw [tag] at counts
      exact counts

theorem Pops.freeCount (pops : stack.Pops (.ok frame) after) :
    after.freeCount + 1 = stack.freeCount := by
  cases pops with
  | taken top number inside tag counted => exact Nat.sub_one_add_one counted

/-- Every frame that is put on top makes for a free entry. -/
theorem Pushes.freeEntries (pushes : stack.Pushes frame (.ok ()) after) :
    after.freeEntries = stack.freeEntries + 1 := by
  cases pushes with
  | @put index found unreserved inside tag countable =>
      have counts := freeEntries_set inside (.free stack.head) (some index) (stack.freeCount + 1)
      rw [tag] at counts
      exact counts

theorem Pushes.freeCount (pushes : stack.Pushes frame (.ok ()) after) :
    after.freeCount = stack.freeCount + 1 := by
  cases pushes with
  | put found unreserved inside tag countable => rfl

/-- A free entry is that of a frame in the list. -/
theorem Represents.mem_of_free (represents : stack.Represents frames) {index : Nat}
    {next : Option Nat} (found : stack.entries[index]? = some (.free next)) :
    ∃ frame ∈ frames, frame.number = stack.first.number + index := by
  have inside : index < stack.total := (Array.getElem?_eq_some_iff.mp found).1
  have named : stack.first.number + index < blockLimit :=
    Nat.lt_of_lt_of_le (Nat.add_lt_add_left inside _) represents.fits
  exact ⟨⟨_, named⟩, (represents.free_iff ⟨_, named⟩ index rfl).mpr ⟨next, found⟩, rfl⟩

/-- Only the frames of the list have free entries. -/
theorem Represents.freeEntries_eq (represents : stack.Represents frames) :
    stack.freeEntries = frames.length := by
  induction frames generalizing stack with
  | nil =>
      refine Array.countP_eq_zero.mpr fun entry member free => ?_
      obtain ⟨index, found⟩ := Array.getElem?_of_mem member
      cases entry with
      | allocated => cases free
      | free next =>
          obtain ⟨frame, listed, -⟩ := represents.mem_of_free found
          cases listed
  | cons frame rest induction =>
      obtain ⟨after, popped, remaining, -⟩ := represents.pop_cons
      rw [List.length_cons, ← induction remaining]
      exact (pops_of_pop popped).freeEntries.symm

/-! ## Room in the counter -/

/-- The counter has room for all frames whose entries are allocated. -/
def Roomy (stack : FreeStack) : Prop :=
  stack.freeCount + stack.total < UInt64.size + stack.freeEntries

theorem Represents.roomy (represents : stack.Represents frames) : stack.Roomy := by
  have fits := represents.fits
  rw [Roomy, represents.freeEntries_eq, ← represents.counted]
  simp only [blockLimit, UInt64.size] at *
  omega

theorem Roomy.pushes {result : Except ReleaseError Unit} (roomy : stack.Roomy)
    (pushes : stack.Pushes frame result after) : after.Roomy := by
  cases result with
  | error refusal =>
      rw [pushes.eq_of_error]
      exact roomy
  | ok done =>
      have total : after.total = stack.total := congrArg TableBounds.total pushes.bounds
      rw [Roomy, total, pushes.freeEntries, pushes.freeCount]
      unfold Roomy at roomy
      omega

/-- Past its own storage, a table takes frames or rejects them, if its counter has room. -/
theorem Roomy.push_answers (roomy : stack.Roomy)
    (past : stack.first.number + stack.reserved ≤ frame.number) :
    ∃ result after, stack.push frame = .ok (result, after) := by
  cases pushed : stack.push frame with
  | ok answered => exact ⟨_, _, rfl⟩
  | error panic =>
      obtain ⟨-, full, index, -, tag⟩ := overfull_of_push past pushed
      have some := freeEntries_lt tag
      unfold Roomy at roomy
      omega

end FreeStack

end PagedMemory
