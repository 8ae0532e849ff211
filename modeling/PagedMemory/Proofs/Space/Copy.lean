import PagedMemory.Space.Fork
import PagedMemory.Proofs.Space.Pages

/-!
# Copying a tree slot by slot

The two nested loops of a fork take a frame for every slot that names one, and
write only the frames they took and the copy.  So the source, whose frames are
owned, can be read as it was at the start, and what the loops have copied stays
a copy while they go on.

A loop that is granted all its frames has copied every slot it went through.
One that is not stops with a tree of exactly the frames taken so far.
-/

namespace PagedMemory

/-! ## Copies -/

namespace Ram

/-- A frame has the bytes that another one had before. -/
def SameBytes (before after : Ram) (original copy : Frame) : Prop :=
  after.contentsOf copy = before.contentsOf original

/-- A table backs the pages that another one backed before, with the same bytes. -/
def SameTable (before after : Ram) (original copy : Frame) : Prop :=
  ∀ slot, Option.Rel (SameBytes before after)
    (before.slot original slot) (after.slot copy slot)

/-- A directory names a copy of each table that another one named before. -/
def SameDirectory (before after : Ram) (original copy : Frame) : Prop :=
  ∀ slot, Option.Rel (SameTable before after)
    (before.slot original slot) (after.slot copy slot)

variable {before before' after after' : Ram} {original copy : Frame}

/-- Slots that are related in one way are related in another. -/
theorem rel_of_imp {first second : Frame → Frame → Prop} {left right : Option Frame}
    (rel : Option.Rel first left right)
    (implies : ∀ original copy, left = some original → right = some copy →
      first original copy → second original copy) : Option.Rel second left right := by
  cases rel with
  | none => exact .none
  | some related => exact .some (implies _ _ rfl rfl related)

/-- Two tables stay copies while the frames of both keep their contents. -/
theorem SameTable.transport (same : SameTable before after original copy)
    (keptLeft : ∀ frame ∈ before.branch original,
      before'.contentsOf frame = before.contentsOf frame)
    (keptRight : ∀ frame ∈ after.branch copy,
      after'.contentsOf frame = after.contentsOf frame) :
    SameTable before' after' original copy := by
  intro slot
  rw [slot_congr (keptLeft original (List.mem_append_right _ List.mem_cons_self)),
    slot_congr (keptRight copy (List.mem_append_right _ List.mem_cons_self))]
  apply rel_of_imp (same slot)
  intro data data' named named' bytes
  have left := keptLeft data (List.mem_append_left _ (mem_dataFrames.mpr ⟨slot, named⟩))
  have right := keptRight data' (List.mem_append_left _ (mem_dataFrames.mpr ⟨slot, named'⟩))
  exact right.trans (bytes.trans left.symm)

theorem SameDirectory.transport (same : SameDirectory before after original copy)
    (kept : ∀ frame ∈ before.reach original,
      before'.contentsOf frame = before.contentsOf frame) :
    SameDirectory before' after original copy := by
  intro slot
  rw [slot_congr (kept original (root_mem_reach _ _))]
  apply rel_of_imp (same slot)
  intro table _ named _ sameTable
  apply sameTable.transport _ fun _ _ => rfl
  exact fun frame member => kept frame (branch_subset_reach named member)

/-- The pages behind two such directories hold the same bytes. -/
theorem SameDirectory.behind (same : SameDirectory before after original copy)
    (page : Page) :
    Option.Rel (SameBytes before after)
      (before.behind original page) (after.behind copy page) := by
  have tables := same page.directoryIndex
  unfold Ram.behind
  cases named : before.slot original page.directoryIndex with
  | none =>
      cases named' : after.slot copy page.directoryIndex with
      | none => exact .none
      | some table =>
          rw [named, named'] at tables
          cases tables
  | some table =>
      cases named' : after.slot copy page.directoryIndex with
      | none =>
          rw [named, named'] at tables
          cases tables
      | some table' =>
          rw [named, named'] at tables
          cases tables with
          | some sameTable => exact sameTable page.tableIndex

end Ram

namespace AddressSpace

open Memory

variable {memory : Memory} {source target : Frame} {rest : List Frame}

/-! ## Pages -/

/-- How far the copy of a table has come. -/
structure CopiesPages (before : Memory) (target : Frame) (slots : List Nat)
    (taken : List Frame) (after : Memory) : Prop where
  extension : Extends before [target] taken after
  data : (after.ram.dataFrames target).Perm (taken ++ before.ram.dataFrames target)
  clean : (after.ram.contentsOf target).Clean
  others : ∀ slot, slot ∉ slots → after.ram.slot target slot = before.ram.slot target slot

/-- How a loop that takes frames ends: with all of them, or because too few are granted. -/
inductive Completes (before : Memory) (cost : Nat) (taken : List Frame) (copied : Prop) :
    Except TakeError Nat → Prop where
  | finished {count : Nat} (enough : taken.length = cost) (done : copied) :
      Completes before cost taken copied (.ok count)
  | stopped (short : before.grants < cost) :
      Completes before cost taken copied (.error .exhausted)

/-- A slot that names nothing costs nothing, and its copy is as empty. -/
theorem Completes.skip {before : Memory} {taken : List Frame} {slot : Nat} {slots : List Nat}
    {original copy : Nat → Option Frame} {related : Frame → Frame → Prop}
    {result : Except TakeError Nat} (cost : List Frame → Nat)
    (completes : Completes before (cost (slots.filterMap original)) taken
      (∀ other ∈ slots, Option.Rel related (original other) (copy other)) result)
    (named : original slot = none) (empty : copy slot = none) :
    Completes before (cost ((slot :: slots).filterMap original)) taken
      (∀ other ∈ slot :: slots, Option.Rel related (original other) (copy other)) result := by
  rw [List.filterMap_cons_none named]
  cases completes with
  | stopped short => exact .stopped short
  | finished enough same =>
      apply Completes.finished enough
      intro other member
      rcases List.mem_cons.mp member with rfl | later
      · rw [named, empty]
        exact .none
      · exact same other later

namespace CopiesPages

variable {before between after : Memory} {slot : Nat} {slots : List Nat}
  {taken more : List Frame}

theorem refl {memory : Memory} (sound : memory.pool.Sound)
    (clean : (memory.ram.contentsOf target).Clean) : CopiesPages memory target [] [] memory :=
  ⟨.refl sound [target], List.Perm.refl _, clean, fun _ _ => rfl⟩

/-- The copy of a table stops where a frame is refused. -/
theorem of_refused (sound : before.pool.Sound) (clean : (before.ram.contentsOf target).Clean)
    {contents : FrameContents} {refusal : TakeError}
    (obtains : Obtains before contents (.error refusal) after) (slots : List Nat) :
    CopiesPages before target slots [] after := by
  have extension := Extends.of_refused sound obtains [target]
  have same := obtains.ram_of_refused
  refine ⟨extension, ?_, ?_, ?_⟩
  · rw [same]
    exact List.Perm.refl _
  · rw [same]
    exact clean
  · intro slot _
    rw [same]

/-- A slot that is skipped. -/
theorem skip (copies : CopiesPages before target slots taken after) :
    CopiesPages before target (slot :: slots) taken after :=
  { copies with
    others := fun other outside =>
      copies.others other fun member => outside (List.mem_cons_of_mem slot member) }

theorem trans (first : CopiesPages before target [slot] taken between)
    (second : CopiesPages between target slots more after) :
    CopiesPages before target (slot :: slots) (more ++ taken) after where
  extension := first.extension.trans second.extension
  data := by
    rw [List.append_assoc]
    exact second.data.trans (first.data.append_left more)
  clean := second.clean
  others := by
    intro other outside
    rw [second.others other fun member => outside (List.mem_cons_of_mem slot member)]
    apply first.others
    intro member
    rw [List.mem_singleton.mp member] at outside
    exact outside List.mem_cons_self

end CopiesPages

/-- A data frame has been copied into an empty slot. -/
theorem copiesPages_of_obtains {between later : Memory} {data frame : Frame} {slot : Nat}
    (owns : memory.Owns (target :: rest)) (clean : (memory.ram.contentsOf target).Clean)
    (bounded : slot < slotsPerTable) (empty : memory.ram.slot target slot = none)
    (obtains : Obtains memory (memory.ram.contentsOf data) (.ok frame) between)
    (writes : Writes between target ((between.ram.contentsOf target).put slot
      (PageSlot.backed frame).encode.bits bounded) later) :
    CopiesPages memory target [slot] [frame] later ∧
      later.ram.slot target slot = some frame ∧
      Ram.SameBytes memory.ram later.ram data frame := by
  rcases obtains.extends owns writes with ⟨extension, bytes, sameTarget⟩
  have replaced : Ram.Replaced between.ram target ((between.ram.contentsOf target).put slot
      (TableWord.ofFrame frame).bits bounded) later.ram := writes.replaced
  have slots (other : Nat) : later.ram.slot target other =
      if other = slot then some frame else memory.ram.slot target other := by
    rw [slot_of_writes writes, Ram.slot_congr sameTarget]
  refine ⟨⟨extension, ?_, ?_, ?_⟩, ?_, bytes⟩
  · have empty' : between.ram.slot target slot = none := by
      rw [Ram.slot_congr sameTarget, empty]
    have data := Ram.dataFrames_of_replaced bounded empty' replaced
    rw [Ram.dataFrames_congr sameTarget, ← List.singleton_append] at data
    exact data
  · rw [writes.replaced.target, sameTarget]
    exact clean.put bounded (.backed frame)
  · intro other outside
    rw [slots, if_neg (fun same => outside (List.mem_singleton.mpr same))]
  · rw [slots, if_pos rfl]

/-- The slots that a loop goes through, and what it reports about them. -/
def PagesForked (before : Memory) (source target : Frame) (slots : List Nat)
    (taken : List Frame) (after : Memory) : Except TakeError Nat → Prop :=
  Completes before (slots.filterMap (before.ram.slot source)).length taken
    (∀ slot ∈ slots, Option.Rel (Ram.SameBytes before.ram after.ram)
      (before.ram.slot source slot) (after.ram.slot target slot))

/-- A slot without a data frame is left empty. -/
theorem pagesForked_skip {after : Memory} {slot : Nat} {slots : List Nat}
    {taken : List Frame} {result : Except TakeError Nat}
    (named : memory.ram.slot source slot = none)
    (empty : memory.ram.slot target slot = none) (fresh : slot ∉ slots)
    (copies : CopiesPages memory target slots taken after)
    (forked : PagesForked memory source target slots taken after result) :
    PagesForked memory source target (slot :: slots) taken after result :=
  Completes.skip List.length forked named ((copies.others slot fresh).trans empty)

/-- The rest of the loop reads the source as it was before the first copy. -/
theorem pagesForked_step {later after : Memory} {data frame : Frame} {slot : Nat}
    {slots : List Nat} {taken : List Frame} {result : Except TakeError Nat}
    (owns : memory.Owns (target :: rest))
    (readable : ∀ frame ∈ memory.ram.branch source, frame ∈ rest)
    (named : memory.ram.slot source slot = some data) (fresh : slot ∉ slots)
    (step : CopiesPages memory target [slot] [frame] later)
    (written : later.ram.slot target slot = some frame)
    (bytes : Ram.SameBytes memory.ram later.ram data frame)
    (copies : CopiesPages later target slots taken after)
    (forked : PagesForked later source target slots taken after result) :
    PagesForked memory source target (slot :: slots) (taken ++ [frame]) after result := by
  have sameSlots : later.ram.slot source = memory.ram.slot source :=
    funext (Ram.slot_congr (step.extension.kept owns
      (readable source (List.mem_append_right _ List.mem_cons_self))))
  unfold PagesForked at *
  rw [sameSlots] at forked
  rw [List.filterMap_cons_some named]
  cases forked with
  | stopped short =>
      apply Completes.stopped
      rw [step.extension.grants]
      exact Nat.add_lt_add_right short 1
  | finished enough same =>
      refine Completes.finished (by rw [List.length_append, enough]; rfl) ?_
      intro other member
      rcases List.mem_cons.mp member with rfl | among
      · rw [named, copies.others other fresh, written]
        apply Option.Rel.some
        exact (copies.extension.kept (step.extension.owns owns) List.mem_cons_self).trans bytes
      · apply Ram.rel_of_imp (same other among)
        intro original _ found _ bytes
        apply bytes.trans
        apply step.extension.kept owns
        apply readable
        exact List.mem_append_left _ (Ram.mem_dataFrames.mpr ⟨other, found⟩)

/-- The slots that a loop has not come to are still empty. -/
theorem still_empty {before after : Nat → Option Frame} {slot : Nat} {slots : List Nat}
    (others : ∀ other, other ∉ [slot] → after other = before other) (fresh : slot ∉ slots)
    (empty : ∀ other ∈ slots, before other = none) : ∀ other ∈ slots, after other = none := by
  intro other member
  rw [others other]
  · exact empty other member
  · intro same
    rw [List.mem_singleton.mp same] at member
    exact fresh member

/-- The source is only read, so it is read as it was before the loop. -/
theorem forkPages_ensures (owns : memory.Owns (target :: rest))
    (readable : ∀ frame ∈ memory.ram.branch source, frame ∈ rest)
    (clean : (memory.ram.contentsOf target).Clean) {slots : List Nat}
    (bounded : ∀ slot ∈ slots, slot < slotsPerTable) (distinct : slots.Nodup)
    (empty : ∀ slot ∈ slots, memory.ram.slot target slot = none) (copied : Nat) :
    Ensures (forkPages source target slots copied) memory fun result after =>
      ∃ taken, CopiesPages memory target slots taken after ∧
        PagesForked memory source target slots taken after result := by
  induction slots generalizing memory rest copied with
  | nil =>
      refine Ensures.pure ⟨[], .refl owns.sound clean, .finished rfl ?_⟩
      intro slot member
      cases member
  | cons slot slots induction =>
      have sourceOwned : source ∈ rest :=
        readable source (List.mem_append_right _ List.mem_cons_self)
      have heldSource := owns.held_of_mem (List.mem_cons_of_mem target sourceOwned)
      rcases List.forall_mem_cons.mp bounded with ⟨inside, boundedRest⟩
      rcases List.forall_mem_cons.mp empty with ⟨unused, emptyRest⟩
      rcases List.nodup_cons.mp distinct with ⟨fresh, distinctRest⟩
      refine (slotFrame?_ensures heldSource inside).bind ?_
      rintro found memory ⟨rfl, rfl⟩
      cases named : memory.ram.slot source slot with
      | none =>
          refine (induction owns readable clean boundedRest distinctRest emptyRest
            copied).imp ?_
          rintro result after ⟨taken, copies, forked⟩
          exact ⟨taken, copies.skip, pagesForked_skip named unused fresh copies forked⟩
      | some data =>
          have dataOwned : data ∈ rest :=
            readable data (List.mem_append_left _ (Ram.mem_dataFrames.mpr ⟨slot, named⟩))
          refine (takeCopy_ensures owns (List.mem_cons_of_mem target dataOwned)).bind ?_
          intro result between obtains
          cases obtains with
          | refused pool ram log none spent =>
              have obtains : Obtains memory (memory.ram.contentsOf data)
                  (.error .exhausted) between := .refused pool ram log none spent
              refine Ensures.pure
                ⟨[], .of_refused owns.sound clean obtains _, .stopped ?_⟩
              · rw [none, List.filterMap_cons_some named]
                exact Nat.succ_pos _
          | @granted frame _ pool replaced log grants =>
              have heldTarget : between.ram.holds target = true := by
                rw [replaced.extent]
                exact owns.held_of_mem List.mem_cons_self
              refine (setPageSlot_ensures heldTarget inside (.backed frame)).bind ?_
              intro _ later writes
              rcases copiesPages_of_obtains owns clean inside unused
                (.granted pool replaced log grants) writes with ⟨step, written, bytes⟩
              have owns' : later.Owns (target :: (frame :: rest)) := step.extension.owns owns
              have readable' : ∀ other ∈ later.ram.branch source, other ∈ frame :: rest := by
                rw [Ram.branch_congr (step.extension.kept owns sourceOwned)]
                exact fun other member => List.mem_cons_of_mem frame (readable other member)
              refine (induction owns' readable' step.clean boundedRest distinctRest
                (still_empty step.others fresh emptyRest) (copied + 1)).imp ?_
              rintro result after ⟨taken, copies, forked⟩
              exact ⟨taken ++ [frame], step.trans copies,
                pagesForked_step owns readable named fresh step written bytes copies forked⟩

/-! ## Tables -/

/-- How far the copy of a directory has come. -/
structure CopiesTables (before : Memory) (target : Frame) (slots : List Nat)
    (taken : List Frame) (after : Memory) : Prop where
  extension : Extends before [target] taken after
  tree : after.ram.Tree target
  reach : (after.ram.reach target).Perm (taken ++ before.ram.reach target)
  others : ∀ slot, slot ∉ slots → after.ram.slot target slot = before.ram.slot target slot

namespace CopiesTables

variable {before between after : Memory} {slot : Nat} {slots : List Nat}
  {taken more : List Frame}

theorem refl {memory : Memory} (sound : memory.pool.Sound)
    (tree : memory.ram.Tree target) (slots : List Nat) :
    CopiesTables memory target slots [] memory :=
  ⟨.refl sound [target], tree, List.Perm.refl _, fun _ _ => rfl⟩

/-- The copy of a directory stops where a frame is refused. -/
theorem of_refused (sound : before.pool.Sound) (tree : before.ram.Tree target)
    {contents : FrameContents} {refusal : TakeError}
    (obtains : Obtains before contents (.error refusal) after) (slots : List Nat) :
    CopiesTables before target slots [] after := by
  have extension := Extends.of_refused sound obtains [target]
  have same := obtains.ram_of_refused
  refine ⟨extension, ?_, ?_, ?_⟩
  · rw [same]
    exact tree
  · rw [same]
    exact List.Perm.refl _
  · intro slot _
    rw [same]

theorem skip (copies : CopiesTables before target slots taken after) :
    CopiesTables before target (slot :: slots) taken after :=
  { copies with
    others := fun other outside =>
      copies.others other fun member => outside (List.mem_cons_of_mem slot member) }

theorem trans (first : CopiesTables before target [slot] taken between)
    (second : CopiesTables between target slots more after) :
    CopiesTables before target (slot :: slots) (more ++ taken) after where
  extension := first.extension.trans second.extension
  tree := second.tree
  reach := by
    rw [List.append_assoc]
    exact second.reach.trans (first.reach.append_left more)
  others := by
    intro other outside
    rw [second.others other fun member => outside (List.mem_cons_of_mem slot member)]
    apply first.others
    intro member
    rw [List.mem_singleton.mp member] at outside
    exact outside List.mem_cons_self

/-- The frames of the copy and of other owners, with the root of the copy in front. -/
theorem owns_root (owns : memory.Owns (memory.ram.reach target ++ rest)) :
    memory.Owns ([target] ++ ((memory.ram.reach target).erase target ++ rest)) :=
  owns.of_perm ((memory.ram.reach_perm_root target).append_right rest)

theorem owns (copies : CopiesTables before target slots taken after)
    (owns : before.Owns (before.ram.reach target ++ rest)) :
    after.Owns (after.ram.reach target ++ rest) := by
  have left := (copies.extension.exchange.beside _).owns (owns_root owns)
  apply left.of_perm
  have old := (before.ram.reach_perm_root target).symm.append_left taken
  rw [List.append_assoc, List.singleton_append, ← List.cons_append, ← List.append_assoc]
  exact (old.trans copies.reach.symm).append_right rest

/-- Frames of other owners keep their contents. -/
theorem kept (copies : CopiesTables before target slots taken after)
    (owns : before.Owns (before.ram.reach target ++ rest)) {frame : Frame}
    (member : frame ∈ rest) : after.ram.contentsOf frame = before.ram.contentsOf frame :=
  copies.extension.kept (owns_root owns) (List.mem_append_right _ member)

end CopiesTables

/-- The slots that the outer loop goes through, and what it reports about them. -/
def TablesForked (before : Memory) (source target : Frame) (slots : List Nat)
    (taken : List Frame) (after : Memory) : Except TakeError Nat → Prop :=
  Completes before
    ((slots.filterMap (before.ram.slot source)).flatMap before.ram.branch).length taken
    (∀ slot ∈ slots, Option.Rel (Ram.SameTable before.ram after.ram)
      (before.ram.slot source slot) (after.ram.slot target slot))

/-- A table has been copied into an empty slot, as far as the inner loop got. -/
theorem copiesTables_of_pages {between after : Memory} {table : Frame} {slot : Nat}
    {slots : List Nat} {taken : List Frame}
    (owns : memory.Owns (memory.ram.reach target ++ rest))
    (adds : AddsTable memory target slot table between)
    (copies : CopiesPages between table slots taken after) :
    CopiesTables memory target [slot] (taken ++ [table]) after := by
  have owned := adds.owns owns
  have ownedAfter : after.Owns (table :: (taken ++ (memory.ram.reach target ++ rest))) :=
    copies.extension.owns owned
  have kept (other : Frame) (member : other ∈ between.ram.reach target)
      (apart : other ≠ table) :
      after.ram.contentsOf other = between.ram.contentsOf other := by
    rcases List.mem_cons.mp (adds.reach.mem_iff.mp member) with same | old
    · exact absurd same apart
    · exact copies.extension.kept owned (List.mem_append_left rest old)
  have distinct : (taken ++ between.ram.reach target).Nodup := by
    have moved : (taken ++ between.ram.reach target).Perm
        (table :: (taken ++ memory.ram.reach target)) :=
      (adds.reach.append_left taken).trans List.perm_middle
    have nodup := ownedAfter.nodup
    rw [← List.append_assoc, ← List.cons_append] at nodup
    exact moved.nodup_iff.mpr (List.nodup_append.mp nodup).1
  have held (other : Frame) (member : other ∈ taken) : between.ram.holds other = true := by
    rw [← copies.extension.exchange.extent]
    apply ownedAfter.held_of_mem
    exact List.mem_cons_of_mem table (List.mem_append_left _ member)
  have grown := adds.tree.growBranch adds.named copies.extension.exchange.extent kept
    copies.clean copies.data distinct held
  refine ⟨adds.extension.nest copies.extension, grown.1, ?_, ?_⟩
  · rw [List.append_assoc]
    exact grown.2.trans (adds.reach.append_left taken)
  · intro other outside
    rw [Ram.slot_congr (kept target (Ram.root_mem_reach _ _)
      (adds.tree.root_ne_table adds.named)), adds.slots, if_neg]
    intro same
    exact outside (List.mem_singleton.mpr same)

theorem tablesForked_skip {after : Memory} {slot : Nat} {slots : List Nat}
    {taken : List Frame} {result : Except TakeError Nat}
    (named : memory.ram.slot source slot = none)
    (empty : memory.ram.slot target slot = none) (fresh : slot ∉ slots)
    (copies : CopiesTables memory target slots taken after)
    (forked : TablesForked memory source target slots taken after result) :
    TablesForked memory source target (slot :: slots) taken after result :=
  Completes.skip (fun tables => (tables.flatMap memory.ram.branch).length) forked named
    ((copies.others slot fresh).trans empty)

/-- A table that was copied to the end is a copy. -/
theorem sameTable_of_pagesForked {after : Memory} {table copy : Frame} {taken : List Frame}
    {count : Nat} (forked : PagesForked memory table copy (List.range slotsPerTable) taken
      after (.ok count)) :
    taken.length = (memory.ram.dataFrames table).length ∧
      Ram.SameTable memory.ram after.ram table copy := by
  cases forked with
  | finished enough same =>
      rw [← Ram.dataFrames_eq] at enough
      refine ⟨enough, ?_⟩
      intro slot
      by_cases bounded : slot < slotsPerTable
      · exact same slot (List.mem_range.mpr bounded)
      · rw [Ram.slot_of_le (Nat.le_of_not_lt bounded), Ram.slot_of_le (Nat.le_of_not_lt bounded)]
        exact .none

/-- The rest of the loop reads the source as it was before the first copy. -/
theorem tablesForked_step {between after : Memory} {table copy : Frame} {slot : Nat}
    {slots : List Nat} {first taken : List Frame} {result : Except TakeError Nat}
    (owns : memory.Owns (memory.ram.reach target ++ rest))
    (readable : ∀ frame ∈ memory.ram.reach source, frame ∈ rest)
    (named : memory.ram.slot source slot = some table) (fresh : slot ∉ slots)
    (step : CopiesTables memory target [slot] first between)
    (cost : first.length = (memory.ram.branch table).length)
    (written : between.ram.slot target slot = some copy)
    (same : Ram.SameTable memory.ram between.ram table copy)
    (copies : CopiesTables between target slots taken after)
    (forked : TablesForked between source target slots taken after result) :
    TablesForked memory source target (slot :: slots) (taken ++ first) after result := by
  have kept (other : Frame) (member : other ∈ memory.ram.reach source) :
      between.ram.contentsOf other = memory.ram.contentsOf other :=
    step.kept owns (readable other member)
  have sameSlots : between.ram.slot source = memory.ram.slot source :=
    funext (Ram.slot_congr (kept source (Ram.root_mem_reach _ _)))
  have sameBranch (index : Nat) (other : Frame)
      (found : memory.ram.slot source index = some other) :
      between.ram.branch other = memory.ram.branch other :=
    Ram.branch_congr (kept other (Ram.table_mem_reach found))
  have sameBranches : (slots.filterMap (memory.ram.slot source)).flatMap between.ram.branch =
      (slots.filterMap (memory.ram.slot source)).flatMap memory.ram.branch := by
    apply List.flatMap_congr
    intro other member
    rcases List.mem_filterMap.mp member with ⟨index, -, found⟩
    exact sameBranch index other found
  unfold TablesForked at *
  rw [sameSlots, sameBranches] at forked
  rw [List.filterMap_cons_some named, List.flatMap_cons, List.length_append]
  cases forked with
  | stopped short =>
      apply Completes.stopped
      rw [step.extension.grants, cost, Nat.add_comm]
      exact Nat.add_lt_add_left short _
  | finished enough sameRest =>
      refine Completes.finished ?_ ?_
      · rw [List.length_append, enough, cost, Nat.add_comm]
      · intro other member
        rcases List.mem_cons.mp member with rfl | among
        · rw [named, copies.others other fresh, written]
          apply Option.Rel.some
          apply same.transport (fun _ _ => rfl)
          intro frame inside
          have reached := Ram.branch_subset_reach written inside
          have apart : frame ≠ target := by
            rintro rfl
            exact step.tree.root_not_mem_branch written inside
          exact copies.extension.kept (CopiesTables.owns_root (step.owns owns))
            (List.mem_append_left _ ((List.mem_erase_of_ne apart).mpr reached))
        · apply Ram.rel_of_imp (sameRest other among)
          intro original _ found _ sameTable
          apply sameTable.transport _ fun _ _ => rfl
          intro frame inside
          rw [sameBranch other original found] at inside
          exact (kept frame (Ram.branch_subset_reach found inside)).symm

/-- The inner loop may stop the outer one. -/
theorem tablesForked_stop {between after : Memory} {table copy : Frame} {slot : Nat}
    {slots : List Nat} {taken : List Frame} {refusal : TakeError}
    (owns : memory.Owns (memory.ram.reach target ++ rest))
    (readable : ∀ frame ∈ memory.ram.reach source, frame ∈ rest)
    (named : memory.ram.slot source slot = some table)
    (adds : AddsTable memory target slot copy between)
    (forked : PagesForked between table copy (List.range slotsPerTable) taken after
      (.error refusal)) :
    TablesForked memory source target (slot :: slots) (taken ++ [copy]) after
      (.error refusal) := by
  cases forked with
  | stopped short =>
      have same : between.ram.contentsOf table = memory.ram.contentsOf table := by
        apply adds.extension.kept (CopiesTables.owns_root owns)
        exact List.mem_append_right _ (readable table (Ram.table_mem_reach named))
      rw [← Ram.dataFrames_eq, Ram.dataFrames_congr same] at short
      apply Completes.stopped
      rw [adds.extension.grants, List.filterMap_cons_some named, List.flatMap_cons,
        Ram.branch, List.length_append, List.length_append]
      exact Nat.lt_add_right _ (Nat.add_lt_add_right short 1)

/-- A new table is filled from the table behind a slot of the source. -/
theorem forkTable_ensures {between : Memory} {table copy : Frame} {slot : Nat}
    (owns : memory.Owns (memory.ram.reach target ++ rest))
    (readable : ∀ frame ∈ memory.ram.reach source, frame ∈ rest)
    (named : memory.ram.slot source slot = some table)
    (adds : AddsTable memory target slot copy between) (copied : Nat) :
    Ensures (forkPages table copy (List.range slotsPerTable) copied) between
      fun result after => ∃ pages,
        CopiesTables memory target [slot] (pages ++ [copy]) after ∧
        (∀ refusal, result = .error refusal → ∀ slots,
          TablesForked memory source target (slot :: slots) (pages ++ [copy]) after
            (.error refusal)) ∧
        (∀ count, result = .ok count →
          (pages ++ [copy]).length = (memory.ram.branch table).length ∧
            after.ram.slot target slot = some copy ∧
            Ram.SameTable memory.ram after.ram table copy) := by
  have owned := adds.owns owns
  have tableOwned (frame : Frame) (member : frame ∈ memory.ram.branch table) :
      frame ∈ rest := readable frame (Ram.branch_subset_reach named member)
  have kept (frame : Frame) (member : frame ∈ memory.ram.branch table) :
      between.ram.contentsOf frame = memory.ram.contentsOf frame :=
    adds.extension.kept (CopiesTables.owns_root owns)
      (List.mem_append_right _ (tableOwned frame member))
  have sameBranch : between.ram.branch table = memory.ram.branch table :=
    Ram.branch_congr (kept table (List.mem_append_right _ List.mem_cons_self))
  have readableTable : ∀ frame ∈ between.ram.branch table,
      frame ∈ memory.ram.reach target ++ rest := by
    rw [sameBranch]
    exact fun frame member => List.mem_append_right _ (tableOwned frame member)
  have clean : (between.ram.contentsOf copy).Clean := by
    rw [adds.zeroed]
    exact FrameContents.clean_zero
  have empty (index : Nat) (_ : index ∈ List.range slotsPerTable) :
      between.ram.slot copy index = none := by
    rw [Ram.slot, adds.zeroed, FrameContents.slot_zero]
  refine (forkPages_ensures owned readableTable clean
    (fun index member => List.mem_range.mp member) List.nodup_range empty copied).imp ?_
  rintro result after ⟨pages, copies, forked⟩
  refine ⟨pages, copiesTables_of_pages owns adds copies, ?_, ?_⟩
  · rintro refusal rfl slots
    exact tablesForked_stop owns readable named adds forked
  · rintro count rfl
    rcases sameTable_of_pagesForked forked with ⟨length, same⟩
    refine ⟨?_, ?_, ?_⟩
    · rw [← sameBranch, Ram.branch, List.length_append, List.length_append, length]
      rfl
    · rw [← adds.named]
      apply Ram.slot_congr
      apply copies.extension.kept owned
      exact List.mem_append_left _ (Ram.root_mem_reach _ _)
    · apply same.transport _ fun _ _ => rfl
      rw [sameBranch]
      exact fun frame member => (kept frame member).symm

theorem forkTables_ensures (owns : memory.Owns (memory.ram.reach target ++ rest))
    (tree : memory.ram.Tree target)
    (readable : ∀ frame ∈ memory.ram.reach source, frame ∈ rest) {slots : List Nat}
    (bounded : ∀ slot ∈ slots, slot < slotsPerTable) (distinct : slots.Nodup)
    (empty : ∀ slot ∈ slots, memory.ram.slot target slot = none) (copied : Nat) :
    Ensures (forkTables source target slots copied) memory fun result after =>
      ∃ taken, CopiesTables memory target slots taken after ∧
        TablesForked memory source target slots taken after result := by
  induction slots generalizing memory copied with
  | nil =>
      refine Ensures.pure ⟨[], .refl owns.sound tree [], .finished rfl ?_⟩
      intro slot member
      cases member
  | cons slot slots induction =>
      have heldSource : memory.ram.holds source = true :=
        owns.held_of_mem (List.mem_append_right _ (readable source (Ram.root_mem_reach _ _)))
      rcases List.forall_mem_cons.mp bounded with ⟨inside, boundedRest⟩
      rcases List.forall_mem_cons.mp empty with ⟨unused, emptyRest⟩
      rcases List.nodup_cons.mp distinct with ⟨fresh, distinctRest⟩
      refine (slotFrame?_ensures heldSource inside).bind ?_
      rintro found memory ⟨rfl, rfl⟩
      cases named : memory.ram.slot source slot with
      | none =>
          refine (induction owns tree readable boundedRest distinctRest emptyRest copied).imp ?_
          rintro result after ⟨taken, copies, forked⟩
          exact ⟨taken, copies.skip, tablesForked_skip named unused fresh copies forked⟩
      | some table =>
          refine (takeZeroed_ensures owns).bind ?_
          intro result taken obtains
          cases result with
          | error refusal =>
              refine Ensures.pure ⟨[], .of_refused owns.sound tree obtains _, ?_⟩
              cases obtains with
              | refused pool ram log none spent =>
                  apply Completes.stopped
                  rw [none, List.filterMap_cons_some named, List.flatMap_cons, Ram.branch,
                    List.length_append, List.length_append]
                  exact Nat.add_pos_left (Nat.succ_pos _) _
          | ok copy =>
              have stillTree := obtains.exchange.tree owns tree
                fun frame member => List.mem_append_left rest member
              refine (setDirectorySlot_ensures stillTree.1.held_root inside (.table copy)).bind ?_
              intro _ added writes
              have adds := addsTable_of_obtains owns tree inside unused obtains writes
              refine (forkTable_ensures owns readable named adds copied).bind ?_
              rintro result between ⟨pages, step, stopped, finished⟩
              cases result with
              | error refusal =>
                  exact Ensures.pure ⟨pages ++ [copy],
                    step.trans (.refl step.extension.exchange.sound step.tree slots),
                    stopped refusal rfl slots⟩
              | ok count =>
                  rcases finished count rfl with ⟨cost, written, same⟩
                  have readable' : ∀ frame ∈ between.ram.reach source, frame ∈ rest := by
                    rw [Ram.reach_of_same fun frame member =>
                      step.kept owns (readable frame member)]
                    exact readable
                  refine (induction (step.owns owns) step.tree readable' boundedRest distinctRest
                    (still_empty step.others fresh emptyRest) count).imp ?_
                  rintro result after ⟨more, copies, forked⟩
                  exact ⟨more ++ (pages ++ [copy]), step.trans copies,
                    tablesForked_step owns readable named fresh step cost written same
                      copies forked⟩

/-- A directory that was copied to the end is a copy. -/
theorem sameDirectory_of_tablesForked {after : Memory} {taken : List Frame} {count : Nat}
    (forked : TablesForked memory source target (List.range slotsPerTable) taken after
      (.ok count)) :
    taken.length + 1 = (memory.ram.reach source).length ∧
      Ram.SameDirectory memory.ram after.ram source target := by
  cases forked with
  | finished enough same =>
      refine ⟨?_, ?_⟩
      · rw [Ram.reach_eq_slots, List.length_append, enough]
        rfl
      · intro slot
        by_cases bounded : slot < slotsPerTable
        · exact same slot (List.mem_range.mpr bounded)
        · rw [Ram.slot_of_le (Nat.le_of_not_lt bounded),
            Ram.slot_of_le (Nat.le_of_not_lt bounded)]
          exact .none

/-- A copy that stopped would have needed more frames than are granted. -/
theorem grants_of_tablesForked {after : Memory} {taken : List Frame} {refusal : TakeError}
    (forked : TablesForked memory source target (List.range slotsPerTable) taken after
      (.error refusal)) :
    refusal = .exhausted ∧ memory.grants + 1 < (memory.ram.reach source).length := by
  cases forked with
  | stopped short =>
      refine ⟨rfl, ?_⟩
      rw [Ram.reach_eq_slots, List.length_append]
      exact Nat.add_lt_add_right short 1

end AddressSpace

end PagedMemory
