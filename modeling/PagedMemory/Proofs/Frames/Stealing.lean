import PagedMemory.Proofs.Frames.Boot

/-!
# Stealing all of boot memory

A new bump range is the largest one with frame boundaries for bounds that lies between
two addresses.  Whatever is stolen from it, and in whatever order, is split off its
front: the runs that were stolen, one after the other, and the frames that are left are
the frames of the range.  So the runs follow each other without a gap and have no frame
in common.

A steal is refused only if there are not enough frames left, however large the count.
-/

namespace PagedMemory.BumpRange

variable {first last : PhysAddr} {range other : BumpRange}

/-! ## The frames between two addresses -/

/-- The range has frame boundaries for bounds and lies between two addresses. -/
structure Within (first last : PhysAddr) (range : BumpRange) : Prop where
  aligned : range.Aligned
  above : first.toNat ≤ range.first.toNat
  below : range.last.toNat ≤ last.toNat

/-- The range contains every other one, and is empty if there is none. -/
structure Largest (first last : PhysAddr) (range : BumpRange) : Prop where
  aligned : range.Aligned
  within : range.first ≠ range.last → Within first last range
  greatest : ∀ other, Within first last other → other.first ≠ other.last →
    range.first.toNat ≤ other.first.toNat ∧ other.last.toNat ≤ range.last.toNat

theorem largest_of_between (made : between first last = .ok range) : Largest first last range := by
  have aligned := aligned_of_between made
  obtain ⟨range', made', high, low⟩ := between_bounds first last
  cases made.symm.trans made'
  refine ⟨aligned, ?_, ?_⟩
  · intro nonempty
    have apart : range.first.toNat ≠ range.last.toNat := fun same =>
      nonempty (Address.toNat_inj.mp same)
    refine ⟨aligned, ?_, ?_⟩
    · simp only [pageSize] at *
      omega
    · simp only [pageSize] at *
      omega
  · intro other within nonempty
    obtain ⟨start, starts⟩ := Address.isAligned_iff.mp within.aligned.first
    obtain ⟨stop, stops⟩ := Address.isAligned_iff.mp within.aligned.last
    have ordered := within.aligned.ordered
    have above := within.above
    have below := within.below
    simp only [pageSize] at *
    constructor
    · omega
    · omega

/-- The frames of a new range are those that lie completely between the two addresses. -/
theorem mem_remaining_of_between (made : between first last = .ok range) {frame : Frame} :
    frame ∈ range.remaining ↔
      first.toNat ≤ frame.base.toNat ∧ frame.base.toNat + pageSize ≤ last.toNat := by
  rw [(aligned_of_between made).mem_remaining, Block.toNat_base]
  obtain ⟨range', made', high, low⟩ := between_bounds first last
  cases made.symm.trans made'
  simp only [Address.number_block, low, high, pageSize]
  omega

/-! ## Sequences of steals -/

/-- The range that is left when all runs of a sequence have been asked for. -/
def leftAfter (range : BumpRange) (counts : List Nat) : BumpRange :=
  (range.stealAll counts).foldl (fun _ outcome => outcome.2) range

/-- The runs of frames that a sequence of steals returns, the first one first. -/
def stolenRuns (range : BumpRange) (counts : List Nat) : List (List Frame) :=
  (counts.zip (range.stealAll counts)).filterMap fun (count, found, _) =>
    found.map (Block.run · count)

theorem leftAfter_cons (range : BumpRange) (count : Nat) (rest : List Nat) :
    range.leftAfter (count :: rest) = (range.steal count).2.leftAfter rest :=
  rfl

theorem stealAll_append (range : BumpRange) (earlier later : List Nat) :
    range.stealAll (earlier ++ later) =
      range.stealAll earlier ++ (range.leftAfter earlier).stealAll later := by
  induction earlier generalizing range with
  | nil => rfl
  | cons count rest induction =>
      simp only [List.cons_append, stealAll, leftAfter_cons, induction]

/-- A range between frame boundaries keeps its high end and its low end stays below. -/
theorem Aligned.leftAfter (aligned : range.Aligned) (counts : List Nat) :
    (range.leftAfter counts).Aligned ∧ (range.leftAfter counts).last = range.last := by
  induction counts generalizing range with
  | nil => exact ⟨aligned, rfl⟩
  | cons count rest induction =>
      rw [leftAfter_cons]
      cases stolen : range.steal count with
      | mk found left =>
          cases found with
          | none =>
              rw [eq_of_steal_none stolen]
              exact induction aligned
          | some frame =>
              have steals := steals_of_steal stolen
              obtain ⟨aligned', last⟩ := induction (steals.aligned aligned)
              exact ⟨aligned', last.trans steals.last⟩

/-- The runs that were stolen and the frames that are left are the frames of the range. -/
theorem flatten_stolenRuns (range : BumpRange) (counts : List Nat) :
    (range.stolenRuns counts).flatten ++ (range.leftAfter counts).remaining =
      range.remaining := by
  induction counts generalizing range with
  | nil => rfl
  | cons count rest induction =>
      rw [leftAfter_cons]
      cases stolen : range.steal count with
      | mk found left =>
          cases found with
          | none =>
              have same := eq_of_steal_none stolen
              subst same
              have skipped : left.stolenRuns (count :: rest) = left.stolenRuns rest := by
                simp only [stolenRuns, stealAll, stolen, List.zip_cons_cons, List.filterMap_cons,
                  Option.map_none]
              rw [skipped]
              exact induction left
          | some frame =>
              have taken : range.stolenRuns (count :: rest) =
                  frame.run count :: left.stolenRuns rest := by
                simp only [stolenRuns, stealAll, stolen, List.zip_cons_cons, List.filterMap_cons,
                  Option.map_some]
              rw [taken, List.flatten_cons, List.append_assoc, induction left,
                (steals_of_steal stolen).remaining]

/-- A run that fits is stolen at the low end, which moves up by as many frames. -/
theorem Aligned.steal_moves (aligned : range.Aligned) {count : Nat}
    (enough : count ≤ range.remaining.length) :
    ∃ frame after, range.steal count = (some frame, after) ∧ frame.base = range.first ∧
      (frame.run count).length = count ∧
      after.first.toNat = range.first.toNat + count * pageSize ∧ after.last = range.last := by
  obtain ⟨after, stolen, steals⟩ := aligned.steal_of_le enough
  refine ⟨_, after, stolen, ?_, Block.length_run steals.fits, ?_, steals.last⟩
  · rw [← Address.toNat_inj, Block.toNat_base, toNat_of_isAligned aligned.first]
  · rw [toNat_of_isAligned steals.boundary, steals.advanced, Nat.add_mul,
      toNat_of_isAligned aligned.first]

theorem Aligned.size_remaining (aligned : range.Aligned) :
    range.remaining.length * pageSize = range.last.toNat - range.first.toNat := by
  rw [aligned.length_remaining, Nat.sub_mul, toNat_of_isAligned aligned.last,
    toNat_of_isAligned aligned.first]

/--
A new range holds all frames between two addresses and no others.  Any sequence of
steals leaves frame boundaries for bounds, in the right order.  A count that is not too
large is then served at the low end, which moves up by that many frames, and a larger
one changes nothing.  The runs that were stolen are
consecutive from the first frame of the range on and have no frame in common, and
with the frames that are left they make up the range.
-/
theorem steals_divide_range (first last : PhysAddr) :
    ∃ range, between first last = .ok range ∧ Largest first last range ∧
      (∀ frame, frame ∈ range.remaining ↔
        first.toNat ≤ frame.base.toNat ∧ frame.base.toNat + pageSize ≤ last.toNat) ∧
      ∀ counts,
        let left := range.leftAfter counts
        let runs := range.stolenRuns counts
        left.Aligned ∧ left.last = range.last ∧
        left.remaining.length * pageSize = left.last.toNat - left.first.toNat ∧
        (∀ count later, range.stealAll (counts ++ count :: later) =
          range.stealAll counts ++ left.steal count :: (left.steal count).2.stealAll later) ∧
        (∀ count, left.remaining.length < count → left.steal count = (none, left)) ∧
        (∀ count, count ≤ left.remaining.length → ∃ frame after,
          left.steal count = (some frame, after) ∧ frame.base = left.first ∧
          (frame.run count).length = count ∧
          after.first.toNat = left.first.toNat + count * pageSize ∧ after.last = left.last) ∧
        runs.flatten ++ left.remaining = range.remaining ∧
        runs.flatten.map Block.number =
          List.range' range.first.block.number runs.flatten.length ∧
        runs.Pairwise List.Disjoint ∧
        runs.flatten.length + left.remaining.length = range.remaining.length := by
  obtain ⟨range, made, -⟩ := between_bounds first last
  have aligned := aligned_of_between made
  refine ⟨range, made, largest_of_between made, fun _ => mem_remaining_of_between made, ?_⟩
  intro counts left runs
  obtain ⟨aligned', ends⟩ := aligned.leftAfter counts
  have whole : runs.flatten ++ left.remaining = range.remaining := flatten_stolenRuns range counts
  have counted : runs.flatten.length + left.remaining.length = range.remaining.length := by
    rw [← whole, List.length_append]
  have distinct : runs.flatten.Nodup := by
    have nodup := Block.nodup_run aligned.remaining_fits
    rw [← remaining, ← whole] at nodup
    exact nodup.of_append_left
  have consecutive : runs.flatten.map Block.number =
      List.range' range.first.block.number runs.flatten.length := by
    have within : runs.flatten.length ≤ range.last.block.number - range.first.block.number := by
      rw [← aligned.length_remaining, ← counted]
      exact Nat.le_add_right _ _
    calc
      runs.flatten.map Block.number
        = (range.remaining.take runs.flatten.length).map Block.number := by
          rw [← whole, List.take_left]
      _ = (range.remaining.map Block.number).take runs.flatten.length :=
          List.map_take
      _ = List.range' range.first.block.number runs.flatten.length := by
          rw [remaining, Block.map_number_run aligned.remaining_fits,
            List.take_range'_of_length_ge within]
  refine ⟨aligned', ends, aligned'.size_remaining, ?_, fun _ => aligned'.steal_of_lt,
    fun _ => aligned'.steal_moves, whole, consecutive, (List.nodup_flatten.mp distinct).2, counted⟩
  intro count later
  exact stealAll_append range counts (count :: later)

/-- Four frames lie between the two addresses, and a run of five is refused. -/
example :
    (between ⟨0x1800⟩ ⟨0x6FFF⟩).map (fun range => range.stolenRuns [1, 5, 2]) =
      .ok [[⟨2, by decide⟩], [⟨3, by decide⟩, ⟨4, by decide⟩]] := by
  decide +kernel

end PagedMemory.BumpRange
