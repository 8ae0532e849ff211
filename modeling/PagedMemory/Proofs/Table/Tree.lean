import PagedMemory.Ram
import PagedMemory.Proofs.Table.Slot
import Mathlib.Data.List.Flatten

/-!
# The tree behind a root frame

The frames that an address space occupies are found by following valid words
from its root: the tables that the root names, the data frames that the tables
name, and the root itself.  `reach` lists them in the order in which they are
given back.

In a *tree* no frame is reached twice, every frame is in RAM and every table is
clean.  Three writes change a tree: an empty directory slot is given a zeroed
table, an unmapped page is given a data frame, and a backed page loses its data
frame.  Each changes the list of reached frames by exactly one frame and leaves
a tree.
-/

namespace PagedMemory.Ram

/-! ## What a frame holds -/

/-- The contents of a frame; frames outside RAM count as frames of zeros. -/
def contentsOf (ram : Ram) (frame : Frame) : FrameContents :=
  match ram.read frame with
  | .ok contents => contents
  | .error _ => .zero

theorem read_eq (ram : Ram) (frame : Frame) :
    ram.read frame =
      if ram.holds frame then .ok (ram.contentsOf frame) else .error .unreachableFrame := by
  unfold contentsOf read
  by_cases held : ram.holds frame = true <;> simp [held]

theorem read_of_holds {ram : Ram} {frame : Frame} (held : ram.holds frame = true) :
    ram.read frame = .ok (ram.contentsOf frame) := by
  rw [read_eq, if_pos held]

/-- One frame has been given other contents. -/
structure Replaced (before : Ram) (frame : Frame) (contents : FrameContents)
    (after : Ram) : Prop where
  extent : ∀ other, after.holds other = before.holds other
  target : after.contentsOf frame = contents
  others : ∀ other, other ≠ frame → after.contentsOf other = before.contentsOf other

theorem replaced_of_modify {ram after : Ram} {frame : Frame}
    {change : FrameContents → FrameContents} (held : ram.holds frame = true)
    (modified : ram.modify frame change = .ok after) :
    Replaced ram frame (change (ram.contentsOf frame)) after := by
  have reads := read_modify modified
  refine ⟨holds_modify modified, ?_, ?_⟩
  · have target := reads frame
    rw [if_pos rfl, read_of_holds held] at target
    simp only [contentsOf, target, Except.map]
  · intro other apart
    have same := reads other
    rw [if_neg apart] at same
    simp only [contentsOf, same]

theorem write_of_holds {ram : Ram} {frame : Frame} (held : ram.holds frame = true)
    (contents : FrameContents) :
    ∃ after, ram.write frame contents = .ok after ∧
      Replaced ram frame contents after := by
  have written : ∃ after, ram.modify frame (fun _ => contents) = .ok after :=
    modify_eq_ok held
  rcases written with ⟨after, modified⟩
  exact ⟨after, modified, replaced_of_modify held modified⟩

theorem writeWord_of_holds {ram : Ram} {frame : Frame} {index : Nat}
    (held : ram.holds frame = true) (bounded : index < slotsPerTable) (word : UInt32) :
    ∃ after, ram.writeWord frame index word = .ok after ∧
      Replaced ram frame ((ram.contentsOf frame).put index word bounded) after := by
  have written : ∃ after, ram.modify frame
      (fun contents => contents.put index word bounded) = .ok after :=
    modify_eq_ok held
  rcases written with ⟨after, modified⟩
  refine ⟨after, ?_, replaced_of_modify held modified⟩
  rw [writeWord, dif_pos bounded, modified]

theorem copy_of_holds {ram : Ram} {source target : Frame} (apart : source ≠ target)
    (readable : ram.holds source = true) (held : ram.holds target = true) :
    ∃ after, ram.copy source target = .ok after ∧
      Replaced ram target (ram.contentsOf source) after := by
  rcases write_of_holds held (ram.contentsOf source) with ⟨after, written, replaced⟩
  refine ⟨after, ?_, replaced⟩
  simp only [copy, Checked.require_of apart, read_of_holds readable, bind, Except.bind,
    written]

/-- A copy that is made is one of a frame in RAM to another one. -/
theorem holds_of_copy {ram after : Ram} {source target : Frame}
    (copied : ram.copy source target = .ok after) :
    source ≠ target ∧ ram.holds source = true ∧ ram.holds target = true := by
  rcases Checked.bind_eq_ok.mp copied with ⟨_, distinct, copied⟩
  rcases Checked.bind_eq_ok.mp copied with ⟨contents, read, written⟩
  refine ⟨Checked.require_eq_ok.mp distinct, ?_, ?_⟩
  · rw [read_eq] at read
    by_contra outside
    rw [if_neg outside] at read
    cases read
  · rw [write, modify] at written
    by_contra outside
    rw [if_neg outside] at written
    cases written

theorem readWord_of_holds {ram : Ram} {frame : Frame} {index : Nat}
    (held : ram.holds frame = true) (bounded : index < slotsPerTable) :
    ∃ word, ram.readWord frame index = .ok word ∧
      (ram.contentsOf frame).get index = .ok word := by
  refine ⟨_, ?_, FrameContents.get_of_lt _ bounded⟩
  simp only [readWord, read_of_holds held, bind, Except.bind,
    FrameContents.get_of_lt _ bounded]

/-! ## Reached frames -/

/-- The frame that a slot of a frame names. -/
def slot (ram : Ram) (frame : Frame) (index : Nat) : Option Frame :=
  (ram.contentsOf frame).slot index

theorem slot_congr {ram after : Ram} {frame : Frame}
    (same : after.contentsOf frame = ram.contentsOf frame) (index : Nat) :
    after.slot frame index = ram.slot frame index :=
  congrArg (·.slot index) same

/-- The data frames that a table names, in ascending order of slot. -/
def dataFrames (ram : Ram) (table : Frame) : List Frame :=
  (ram.contentsOf table).frames.map Prod.snd

/-- A table behind the data frames that it names. -/
def branch (ram : Ram) (table : Frame) : List Frame :=
  ram.dataFrames table ++ [table]

/-- All frames that can be reached from a root, in the order of a teardown. -/
def reach (ram : Ram) (root : Frame) : List Frame :=
  (ram.contentsOf root).frames.flatMap (fun entry => ram.branch entry.2) ++ [root]

theorem reach_eq (ram : Ram) (root : Frame) :
    ram.reach root =
      (ram.contentsOf root).frames.flatMap (fun entry => ram.branch entry.2) ++ [root] :=
  rfl

theorem dataFrames_congr {ram after : Ram} {table : Frame}
    (same : after.contentsOf table = ram.contentsOf table) :
    after.dataFrames table = ram.dataFrames table := by
  rw [dataFrames, dataFrames, same]

theorem slot_of_le {ram : Ram} {frame : Frame} {index : Nat}
    (past : slotsPerTable ≤ index) : ram.slot frame index = none := by
  cases named : ram.slot frame index with
  | none => rfl
  | some target =>
      exact absurd (FrameContents.get_of_slot named).1 (Nat.not_lt.mpr past)

theorem dataFrames_eq (ram : Ram) (table : Frame) :
    ram.dataFrames table = (List.range slotsPerTable).filterMap (ram.slot table) := by
  rw [dataFrames, FrameContents.frames_eq, List.map_filterMap]
  apply List.filterMap_congr
  intro index _
  rw [slot]
  cases (ram.contentsOf table).slot index <;> rfl

/-- A table backs one page more. -/
theorem dataFrames_of_replaced {ram after : Ram} {table frame : Frame} {place : Nat}
    (bounded : place < slotsPerTable) (unmapped : ram.slot table place = none)
    (replaced : Replaced ram table
      ((ram.contentsOf table).put place (TableWord.ofFrame frame).bits bounded) after) :
    (after.dataFrames table).Perm (frame :: ram.dataFrames table) := by
  have entries := (FrameContents.frames_put_of_empty bounded unmapped frame).map Prod.snd
  rw [List.map_cons, ← replaced.target] at entries
  exact entries

/-- A table backs one page less. -/
theorem dataFrames_of_cleared {ram after : Ram} {table frame : Frame} {place : Nat}
    (bounded : place < slotsPerTable) (backed : ram.slot table place = some frame)
    (replaced : Replaced ram table
      ((ram.contentsOf table).put place TableWord.empty.bits bounded) after) :
    (ram.dataFrames table).Perm (frame :: after.dataFrames table) := by
  have entries := (FrameContents.frames_of_put_empty bounded backed).map Prod.snd
  rw [List.map_cons, ← replaced.target] at entries
  exact entries

theorem mem_dataFrames {ram : Ram} {table frame : Frame} :
    frame ∈ ram.dataFrames table ↔ ∃ index, ram.slot table index = some frame := by
  simp [dataFrames, slot, FrameContents.mem_frames_iff]

theorem mem_reach {ram : Ram} {root frame : Frame} :
    frame ∈ ram.reach root ↔
      frame = root ∨ ∃ index table, ram.slot root index = some table ∧
        (frame = table ∨ frame ∈ ram.dataFrames table) := by
  rw [reach_eq, List.mem_append, List.mem_singleton, List.mem_flatMap, or_comm]
  apply or_congr Iff.rfl
  constructor
  · rintro ⟨⟨index, table⟩, entry, member⟩
    refine ⟨index, table, FrameContents.mem_frames_iff.mp entry, ?_⟩
    rcases List.mem_append.mp member with backed | itself
    · exact Or.inr backed
    · exact Or.inl (List.mem_singleton.mp itself)
  · rintro ⟨index, table, named, member⟩
    refine ⟨(index, table), FrameContents.mem_frames_iff.mpr named, ?_⟩
    rcases member with rfl | backed
    · exact List.mem_append_right _ List.mem_cons_self
    · exact List.mem_append_left _ backed

theorem root_mem_reach (ram : Ram) (root : Frame) : root ∈ ram.reach root :=
  mem_reach.mpr (Or.inl rfl)

theorem table_mem_reach {ram : Ram} {root table : Frame} {index : Nat}
    (named : ram.slot root index = some table) : table ∈ ram.reach root :=
  mem_reach.mpr (Or.inr ⟨index, table, named, Or.inl rfl⟩)

theorem data_mem_reach {ram : Ram} {root table frame : Frame} {index place : Nat}
    (named : ram.slot root index = some table)
    (backed : ram.slot table place = some frame) : frame ∈ ram.reach root :=
  mem_reach.mpr
    (Or.inr ⟨index, table, named, Or.inr (mem_dataFrames.mpr ⟨place, backed⟩)⟩)

/-- The root can be put in front of the other reached frames. -/
theorem reach_perm_root (ram : Ram) (root : Frame) :
    (ram.reach root).Perm (root :: (ram.reach root).erase root) :=
  List.perm_cons_erase (ram.root_mem_reach root)

theorem branch_congr {ram after : Ram} {table : Frame}
    (same : after.contentsOf table = ram.contentsOf table) :
    after.branch table = ram.branch table := by
  rw [branch, branch, dataFrames_congr same]

/-- Only the contents of the root and of its tables decide what is reached. -/
theorem reach_congr {ram after : Ram} {root : Frame}
    (sameRoot : after.contentsOf root = ram.contentsOf root)
    (sameTables : ∀ index table, ram.slot root index = some table →
      after.contentsOf table = ram.contentsOf table) :
    after.reach root = ram.reach root := by
  have branches : (ram.contentsOf root).frames.flatMap
        (fun entry => after.branch entry.2) =
      (ram.contentsOf root).frames.flatMap (fun entry => ram.branch entry.2) := by
    apply List.flatMap_congr
    rintro ⟨index, table⟩ member
    exact branch_congr
      (sameTables index table (FrameContents.mem_frames_iff.mp member))
  rw [reach_eq, reach_eq, sameRoot, branches]

/-- Nothing else is reached if no reached frame has changed. -/
theorem reach_of_same {ram after : Ram} {root : Frame}
    (same : ∀ frame ∈ ram.reach root, after.contentsOf frame = ram.contentsOf frame) :
    after.reach root = ram.reach root :=
  reach_congr (same root (ram.root_mem_reach root))
    fun _ table named => same table (table_mem_reach named)

/-- The tables in ascending order of slot, each behind its data frames, and the root. -/
theorem reach_eq_slots (ram : Ram) (root : Frame) :
    ram.reach root =
      ((List.range slotsPerTable).filterMap (ram.slot root)).flatMap ram.branch ++
        [root] := by
  rw [reach_eq, ← dataFrames_eq, dataFrames, List.flatMap_map]

/-- A table can be put in front of the other reached frames with its data frames. -/
theorem reach_perm {ram : Ram} {root table : Frame} {index : Nat}
    (named : ram.slot root index = some table) :
    (ram.reach root).Perm
      (ram.branch table ++
        (((ram.contentsOf root).framesExcept index).flatMap
          (fun entry => ram.branch entry.2) ++ [root])) := by
  have entries := (ram.contentsOf root).frames_perm index
  rw [show (ram.contentsOf root).slot index = some table from named, Option.map_some,
    Option.toList_some, List.singleton_append] at entries
  have branches := entries.flatMap_right fun entry => ram.branch entry.2
  rw [List.flatMap_cons] at branches
  rw [reach_eq, ← List.append_assoc]
  exact branches.append_right [root]

theorem branch_subset_reach {ram : Ram} {root table : Frame} {index : Nat}
    (named : ram.slot root index = some table) {frame : Frame}
    (member : frame ∈ ram.branch table) : frame ∈ ram.reach root :=
  (reach_perm named).mem_iff.mpr (List.mem_append_left _ member)

-- Comparing two such lists by unfolding would walk all slots of a frame.
attribute [irreducible] dataFrames reach

/-! ## Trees -/

/-- No frame is reached twice, all are in RAM, and all tables are clean. -/
structure Tree (ram : Ram) (root : Frame) : Prop where
  distinct : (ram.reach root).Nodup
  held : ∀ frame ∈ ram.reach root, ram.holds frame = true
  clean : ∀ index table, ram.slot root index = some table →
    (ram.contentsOf table).Clean

namespace Tree

variable {ram after : Ram} {root table frame : Frame} {index place : Nat}

theorem held_root (tree : ram.Tree root) : ram.holds root = true :=
  tree.held root (ram.root_mem_reach root)

theorem held_table (tree : ram.Tree root) (named : ram.slot root index = some table) :
    ram.holds table = true :=
  tree.held table (table_mem_reach named)

/-- A tree stays one, with the same frames, if none of them is written. -/
theorem congr (tree : ram.Tree root)
    (extent : ∀ other, after.holds other = ram.holds other)
    (same : ∀ other ∈ ram.reach root, after.contentsOf other = ram.contentsOf other) :
    after.Tree root ∧ after.reach root = ram.reach root := by
  have sameRoot := same root (ram.root_mem_reach root)
  have sameReach : after.reach root = ram.reach root :=
    reach_congr sameRoot fun index table named => same table (table_mem_reach named)
  refine ⟨⟨?_, ?_, ?_⟩, sameReach⟩
  · rw [sameReach]
    exact tree.distinct
  · rw [sameReach]
    intro other member
    rw [extent]
    exact tree.held other member
  · intro index table named
    have old : ram.slot root index = some table := by
      simpa only [slot, sameRoot] using named
    rw [same table (table_mem_reach old)]
    exact tree.clean index table old

/-- The frames outside one branch, which no frame of the branch repeats. -/
theorem apart_of_branch (tree : ram.Tree root)
    (named : ram.slot root index = some table) {other : Frame}
    (member : other ∈ ((ram.contentsOf root).framesExcept index).flatMap
      (fun entry => ram.branch entry.2) ++ [root]) :
    other ∉ ram.branch table := by
  have distinct := (reach_perm named).nodup_iff.mp tree.distinct
  intro repeated
  exact (List.disjoint_of_nodup_append distinct) repeated member

theorem root_not_mem_branch (tree : ram.Tree root)
    (named : ram.slot root index = some table) : root ∉ ram.branch table :=
  tree.apart_of_branch named (List.mem_append_right _ List.mem_cons_self)

theorem root_ne_table (tree : ram.Tree root)
    (named : ram.slot root index = some table) : root ≠ table := by
  rintro rfl
  exact tree.root_not_mem_branch named (List.mem_append_right _ List.mem_cons_self)

/-- Two directory slots never name the same table. -/
theorem slot_injective (tree : ram.Tree root) {other : Nat}
    (named : ram.slot root index = some table)
    (again : ram.slot root other = some table) : other = index := by
  by_contra apart
  have entry : (other, table) ∈ (ram.contentsOf root).framesExcept index := by
    simpa [FrameContents.framesExcept, apart] using
      FrameContents.mem_frames_iff.mpr again
  have elsewhere : table ∈ ((ram.contentsOf root).framesExcept index).flatMap
      (fun entry => ram.branch entry.2) :=
    List.mem_flatMap.mpr
      ⟨(other, table), entry, List.mem_append_right _ List.mem_cons_self⟩
  exact tree.apart_of_branch named (List.mem_append_left _ elsewhere)
    (List.mem_append_right _ List.mem_cons_self)

/-- Working on one table changes nothing but its own branch. -/
theorem reach_perm_of_same (tree : ram.Tree root)
    (named : ram.slot root index = some table)
    (same : ∀ other ∈ ram.reach root, other ≠ table →
      after.contentsOf other = ram.contentsOf other) :
    (after.reach root).Perm
      (after.branch table ++
        (((ram.contentsOf root).framesExcept index).flatMap
          (fun entry => ram.branch entry.2) ++ [root])) := by
  have sameRoot := same root (ram.root_mem_reach root) (tree.root_ne_table named)
  have named' : after.slot root index = some table := by
    rw [slot_congr sameRoot, named]
  have perm := reach_perm named'
  have others : ((ram.contentsOf root).framesExcept index).flatMap
        (fun entry => after.branch entry.2) =
      ((ram.contentsOf root).framesExcept index).flatMap
        (fun entry => ram.branch entry.2) := by
    apply List.flatMap_congr
    rintro ⟨other, otherTable⟩ member
    have entry := List.mem_filter.mp member
    have again : ram.slot root other = some otherTable :=
      FrameContents.mem_frames_iff.mp entry.1
    apply branch_congr
    apply same otherTable (table_mem_reach again)
    rintro rfl
    exact of_decide_eq_true entry.2 (tree.slot_injective named again)
  rw [sameRoot, others] at perm
  exact perm

/-- The other tables stay clean when one is worked on. -/
theorem clean_of_same (tree : ram.Tree root)
    (named : ram.slot root index = some table)
    (same : ∀ other ∈ ram.reach root, other ≠ table →
      after.contentsOf other = ram.contentsOf other)
    (clean : (after.contentsOf table).Clean) :
    ∀ other otherTable, after.slot root other = some otherTable →
      (after.contentsOf otherTable).Clean := by
  intro other otherTable found
  have sameRoot := same root (ram.root_mem_reach root) (tree.root_ne_table named)
  rw [slot_congr sameRoot] at found
  by_cases itself : otherTable = table
  · rw [itself]
    exact clean
  · rw [same otherTable (table_mem_reach found) itself]
    exact tree.clean other otherTable found

/-! ## The three writes -/

/-- A zeroed table in an empty directory slot adds itself. -/
theorem addTable (tree : ram.Tree root) (bounded : index < slotsPerTable)
    (absent : ram.slot root index = none) (fresh : table ∉ ram.reach root)
    (held : ram.holds table = true) (zeroed : ram.contentsOf table = .zero)
    (replaced : Replaced ram root
      ((ram.contentsOf root).put index (TableWord.ofFrame table).bits bounded) after) :
    after.Tree root ∧ (after.reach root).Perm (table :: ram.reach root) := by
  have apart : table ≠ root := by
    rintro rfl
    exact fresh (ram.root_mem_reach table)
  have slots (other : Nat) : after.slot root other =
      if other = index then some table else ram.slot root other := by
    rw [slot, replaced.target, FrameContents.slot_put, TableWord.frame?_ofFrame]
    rfl
  have sameTables : ∀ other named, ram.slot root other = some named →
      after.contentsOf named = ram.contentsOf named := by
    intro other named old
    exact replaced.others named (tree.root_ne_table old).symm
  have perm : (after.reach root).Perm (table :: ram.reach root) := by
    have entries := FrameContents.frames_put_of_empty bounded absent table
    have branches := entries.flatMap_right fun entry => after.branch entry.2
    have single : after.branch table = [table] := by
      rw [branch, dataFrames, replaced.others table apart, zeroed,
        FrameContents.frames_zero]
      rfl
    have others : (ram.contentsOf root).frames.flatMap
          (fun entry => after.branch entry.2) =
        (ram.contentsOf root).frames.flatMap (fun entry => ram.branch entry.2) := by
      apply List.flatMap_congr
      rintro ⟨other, named⟩ member
      exact branch_congr
        (sameTables other named (FrameContents.mem_frames_iff.mp member))
    rw [List.flatMap_cons, single, others, List.singleton_append] at branches
    rw [reach_eq, reach_eq, replaced.target, ← List.cons_append]
    exact branches.append_right [root]
  refine ⟨⟨?_, ?_, ?_⟩, perm⟩
  · exact perm.nodup_iff.mpr (List.nodup_cons.mpr ⟨fresh, tree.distinct⟩)
  · intro frame member
    rw [replaced.extent]
    rcases List.mem_cons.mp (perm.mem_iff.mp member) with rfl | old
    · exact held
    · exact tree.held frame old
  · intro other named found
    rw [slots] at found
    split at found
    · cases found
      rw [replaced.others table apart, zeroed]
      exact FrameContents.clean_zero
    · rw [sameTables other named found]
      exact tree.clean other named found

/-- A data frame behind an unmapped page adds itself. -/
theorem backPage (tree : ram.Tree root) (named : ram.slot root index = some table)
    (bounded : place < slotsPerTable) (unmapped : ram.slot table place = none)
    (fresh : frame ∉ ram.reach root) (held : ram.holds frame = true)
    (replaced : Replaced ram table
      ((ram.contentsOf table).put place (TableWord.ofFrame frame).bits bounded) after) :
    after.Tree root ∧ (after.reach root).Perm (frame :: ram.reach root) := by
  have perm : (after.reach root).Perm (frame :: ram.reach root) := by
    have before := reach_perm named
    have written := tree.reach_perm_of_same named fun other _ => replaced.others other
    have entries := dataFrames_of_replaced bounded unmapped replaced
    refine written.trans ?_
    refine List.Perm.trans ?_ (before.symm.cons frame)
    exact (entries.append_right [table]).append_right _
  refine ⟨⟨?_, ?_, ?_⟩, perm⟩
  · exact perm.nodup_iff.mpr (List.nodup_cons.mpr ⟨fresh, tree.distinct⟩)
  · intro other member
    rw [replaced.extent]
    rcases List.mem_cons.mp (perm.mem_iff.mp member) with rfl | old
    · exact held
    · exact tree.held other old
  · apply tree.clean_of_same named fun other _ => replaced.others other
    rw [replaced.target]
    exact (tree.clean index table named).put bounded (.backed frame)

/-- Unmapping a backed page takes its data frame out of the tree. -/
theorem clearPage (tree : ram.Tree root) (named : ram.slot root index = some table)
    (bounded : place < slotsPerTable) (backed : ram.slot table place = some frame)
    (replaced : Replaced ram table
      ((ram.contentsOf table).put place TableWord.empty.bits bounded) after) :
    after.Tree root ∧ (ram.reach root).Perm (frame :: after.reach root) := by
  have perm : (ram.reach root).Perm (frame :: after.reach root) := by
    have before := reach_perm named
    have written := tree.reach_perm_of_same named fun other _ => replaced.others other
    have entries := dataFrames_of_cleared bounded backed replaced
    refine before.trans ?_
    refine List.Perm.trans ?_ (written.symm.cons frame)
    exact (entries.append_right [table]).append_right _
  refine ⟨⟨?_, ?_, ?_⟩, perm⟩
  · exact (List.nodup_cons.mp (perm.nodup_iff.mp tree.distinct)).2
  · intro other member
    rw [replaced.extent]
    exact tree.held other (perm.mem_iff.mpr (List.mem_cons_of_mem _ member))
  · apply tree.clean_of_same named fun other _ => replaced.others other
    rw [replaced.target]
    exact (tree.clean index table named).put bounded .unmapped

/-- A branch that grows by some data frames makes the tree grow by them. -/
theorem growBranch (tree : ram.Tree root) (named : ram.slot root index = some table)
    (extent : ∀ other, after.holds other = ram.holds other)
    (same : ∀ other ∈ ram.reach root, other ≠ table →
      after.contentsOf other = ram.contentsOf other)
    (clean : (after.contentsOf table).Clean) {grown : List Frame}
    (data : (after.dataFrames table).Perm (grown ++ ram.dataFrames table))
    (distinct : (grown ++ ram.reach root).Nodup)
    (held : ∀ other ∈ grown, ram.holds other = true) :
    after.Tree root ∧ (after.reach root).Perm (grown ++ ram.reach root) := by
  have perm : (after.reach root).Perm (grown ++ ram.reach root) := by
    have before := reach_perm named
    have written := tree.reach_perm_of_same named same
    have branches : (after.branch table).Perm (grown ++ ram.branch table) := by
      rw [branch, branch, ← List.append_assoc]
      exact data.append_right [table]
    have whole := written.trans (branches.append_right _)
    rw [List.append_assoc] at whole
    exact whole.trans (before.symm.append_left grown)
  refine ⟨⟨perm.nodup_iff.mpr distinct, ?_, tree.clean_of_same named same clean⟩, perm⟩
  intro other member
  rw [extent]
  rcases List.mem_append.mp (perm.mem_iff.mp member) with new | old
  · exact held other new
  · exact tree.held other old

/-! ## Writing behind a page -/

theorem data_ne_root (tree : ram.Tree root) (named : ram.slot root index = some table)
    (backed : ram.slot table place = some frame) : frame ≠ root := by
  rintro rfl
  apply tree.root_not_mem_branch named
  exact List.mem_append_left _ (mem_dataFrames.mpr ⟨place, backed⟩)

/-- No data frame is a table of the same tree. -/
theorem data_ne_table (tree : ram.Tree root) (named : ram.slot root index = some table)
    (backed : ram.slot table place = some frame) {other : Nat} {otherTable : Frame}
    (again : ram.slot root other = some otherTable) : frame ≠ otherTable := by
  have member : frame ∈ ram.dataFrames table := mem_dataFrames.mpr ⟨place, backed⟩
  have distinct := (reach_perm named).nodup_iff.mp tree.distinct
  rintro rfl
  by_cases same : other = index
  · rw [same, named] at again
    cases again
    have branch := (List.nodup_append.mp distinct).1
    exact List.disjoint_of_nodup_append branch member List.mem_cons_self
  · have entry : (other, frame) ∈ (ram.contentsOf root).framesExcept index := by
      simpa [FrameContents.framesExcept, same] using FrameContents.mem_frames_iff.mpr again
    apply tree.apart_of_branch named
    · apply List.mem_append_left
      exact List.mem_flatMap.mpr
        ⟨(other, frame), entry, List.mem_append_right _ List.mem_cons_self⟩
    · exact List.mem_append_left _ member

/-- What a data frame holds does not matter to the tree. -/
theorem writeData (tree : ram.Tree root) (named : ram.slot root index = some table)
    (backed : ram.slot table place = some frame) {contents : FrameContents}
    (replaced : Replaced ram frame contents after) :
    after.Tree root ∧ after.reach root = ram.reach root := by
  have sameRoot := replaced.others root (tree.data_ne_root named backed).symm
  have sameTables : ∀ other otherTable, ram.slot root other = some otherTable →
      after.contentsOf otherTable = ram.contentsOf otherTable := by
    intro other otherTable again
    exact replaced.others otherTable (tree.data_ne_table named backed again).symm
  have sameReach := reach_congr sameRoot sameTables
  refine ⟨⟨?_, ?_, ?_⟩, sameReach⟩
  · rw [sameReach]
    exact tree.distinct
  · rw [sameReach]
    intro other member
    rw [replaced.extent]
    exact tree.held other member
  · intro other otherTable found
    rw [slot_congr sameRoot] at found
    rw [sameTables other otherTable found]
    exact tree.clean other otherTable found

end Tree

/-! ## Skeletons -/

/--
What a walk relies on, whatever stands behind the pages: the directory and the
tables are in RAM, and no table is unclean or the directory itself.
-/
structure Skeleton (ram : Ram) (root : Frame) : Prop where
  heldRoot : ram.holds root = true
  held : ∀ index table, ram.slot root index = some table → ram.holds table = true
  apart : ∀ index table, ram.slot root index = some table → table ≠ root
  clean : ∀ index table, ram.slot root index = some table → (ram.contentsOf table).Clean

theorem Tree.skeleton {ram : Ram} {root : Frame} (tree : ram.Tree root) : ram.Skeleton root :=
  ⟨tree.held_root, fun _ _ => tree.held_table, fun _ _ named => (tree.root_ne_table named).symm,
    tree.clean⟩

/-- Any frame may be named behind a page, even one that is not in RAM. -/
theorem Skeleton.put {ram after : Ram} {root table : Frame} {index place : Nat}
    (skeleton : ram.Skeleton root) (named : ram.slot root index = some table)
    (bounded : place < slotsPerTable) {slot : PageSlot}
    (replaced : Replaced ram table ((ram.contentsOf table).put place slot.encode.bits bounded)
      after) : after.Skeleton root := by
  have sameRoot := replaced.others root (skeleton.apart index table named).symm
  have old {other : Nat} {found : Frame} (again : after.slot root other = some found) :
      ram.slot root other = some found := by
    rw [← slot_congr sameRoot]
    exact again
  refine ⟨?_, ?_, ?_, ?_⟩
  · rw [replaced.extent]
    exact skeleton.heldRoot
  · intro other found again
    rw [replaced.extent]
    exact skeleton.held other found (old again)
  · intro other found again
    exact skeleton.apart other found (old again)
  · intro other found again
    by_cases itself : found = table
    · rw [itself, replaced.target]
      exact (skeleton.clean index table named).put bounded slot
    · rw [replaced.others found itself]
      exact skeleton.clean other found (old again)

end PagedMemory.Ram
