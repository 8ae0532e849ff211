import PagedMemory.Proofs.Space.Pages
import Mathlib.Data.List.Pairwise
import Mathlib.Data.List.Perm.Basic

/-!
# What a tree consists of

A tree consists of its root, of one table for every directory slot that is
present, and of one data frame for every page that is backed.
-/

namespace PagedMemory

/-- All pages in ascending order. -/
def Page.all : List Page :=
  (⟨0, by decide⟩ : Page).run blockLimit

theorem Page.map_number_all : Page.all.map Block.number = List.range blockLimit := by
  rw [all, Block.map_number_run (Nat.le_of_eq (Nat.zero_add blockLimit)), List.range_eq_range']

theorem Page.mem_all (page : Page) : page ∈ Page.all :=
  Block.mem_run.mpr
    ⟨Nat.zero_le _, by simpa using page.number_lt⟩

namespace Ram

/-- The tables that a directory names, in ascending order of slot. -/
def tables (ram : Ram) (root : Frame) : List Frame :=
  (List.range slotsPerTable).filterMap (ram.slot root)

/-- The data frames behind all pages, in ascending order of page. -/
def backing (ram : Ram) (root : Frame) : List Frame :=
  Page.all.filterMap (ram.behind root)

/-- Consecutive numbers in groups of one size. -/
theorem range_mul (outer inner : Nat) :
    List.range (outer * inner) =
      (List.range outer).flatMap fun slot => (List.range inner).map (slot * inner + ·) := by
  induction outer with
  | zero => simp
  | succ outer induction =>
      rw [Nat.succ_mul, List.range_add, induction, List.range_succ, List.flatMap_append,
        List.flatMap_singleton]

/-- The pages of one directory slot. -/
theorem filterMap_group (ram : Ram) (root : Frame) (slot : Nat) :
    ((List.range slotsPerTable).map (slot * slotsPerTable + ·)).filterMap (fun number =>
        (ram.slot root (number / slotsPerTable)).bind fun table =>
          ram.slot table (number % slotsPerTable)) =
      (ram.slot root slot).toList.flatMap ram.dataFrames := by
  rw [List.filterMap_map]
  have places (index : Nat) (member : index ∈ List.range slotsPerTable) :
      (slot * slotsPerTable + index) / slotsPerTable = slot ∧
        (slot * slotsPerTable + index) % slotsPerTable = index := by
    have bounded := List.mem_range.mp member
    simp only [slotsPerTable] at *
    omega
  have each (index : Nat) (member : index ∈ List.range slotsPerTable) :
      ((fun number => (ram.slot root (number / slotsPerTable)).bind fun table =>
          ram.slot table (number % slotsPerTable)) ∘ (slot * slotsPerTable + ·)) index =
        (ram.slot root slot).bind fun table => ram.slot table index := by
    rcases places index member with ⟨quotient, remainder⟩
    simp only [Function.comp_apply, quotient, remainder]
  rw [List.filterMap_congr each]
  cases ram.slot root slot with
  | none => simp
  | some table => simp [dataFrames_eq]

/-- The pages of a space are those of its tables. -/
theorem backing_eq (ram : Ram) (root : Frame) :
    ram.backing root = (ram.tables root).flatMap ram.dataFrames := by
  have numbers : ram.backing root = (List.range blockLimit).filterMap fun number =>
      (ram.slot root (number / slotsPerTable)).bind fun table =>
        ram.slot table (number % slotsPerTable) := by
    rw [← Page.map_number_all, List.filterMap_map]
    rfl
  have square : blockLimit = slotsPerTable * slotsPerTable := rfl
  rw [numbers, square, range_mul, List.filterMap_flatMap, tables,
    List.filterMap_eq_flatMap_toList, List.flatMap_assoc]
  exact List.flatMap_congr fun slot _ => filterMap_group ram root slot

/-- The reached frames are the root, the tables and the data frames. -/
theorem reach_perm_backing (ram : Ram) (root : Frame) :
    (ram.reach root).Perm (root :: (ram.tables root ++ ram.backing root)) := by
  rw [reach_eq_slots, backing_eq]
  have parts : ((ram.tables root).flatMap ram.branch).Perm
      (ram.tables root ++ (ram.tables root).flatMap ram.dataFrames) := by
    have split := List.flatMap_append_perm (ram.tables root) ram.dataFrames fun table => [table]
    rw [List.flatMap_singleton'] at split
    exact split.symm.trans List.perm_append_comm
  exact (parts.append_right [root]).trans (List.perm_append_singleton root _)

/-- No data frame is behind two pages. -/
theorem Tree.behind_injective {ram : Ram} {root frame : Frame} (tree : ram.Tree root)
    {page other : Page} (backed : ram.behind root page = some frame)
    (again : ram.behind root other = some frame) : other = page := by
  have distinct := (ram.reach_perm_backing root).nodup_iff.mp tree.distinct
  have backing : (ram.backing root).Nodup :=
    (List.nodup_append.mp (List.nodup_cons.mp distinct).2).2.1
  have symmetric : Std.Symm fun page other : Page => ∀ frame, ram.behind root page = some frame →
      ∀ frame', ram.behind root other = some frame' → frame ≠ frame' :=
    ⟨fun _ _ apart frame found frame' found' => (apart frame' found' frame found).symm⟩
  by_contra apart
  exact (List.pairwise_filterMap.mp backing).forall other.mem_all page.mem_all apart
    frame again frame backed rfl

/-- A data frame is neither the root nor a table. -/
theorem Tree.behind_apart {ram : Ram} {root frame : Frame} (tree : ram.Tree root) {page : Page}
    (backed : ram.behind root page = some frame) :
    frame ≠ root ∧ frame ∉ ram.tables root := by
  have distinct := (ram.reach_perm_backing root).nodup_iff.mp tree.distinct
  rcases List.nodup_cons.mp distinct with ⟨outside, others⟩
  have member : frame ∈ ram.backing root :=
    List.mem_filterMap.mpr ⟨page, page.mem_all, backed⟩
  constructor
  · rintro rfl
    exact outside (List.mem_append_right _ member)
  · intro table
    exact List.disjoint_of_nodup_append others table member

/-- What a directory names depends on nothing but the directory. -/
theorem tables_congr {ram after : Ram} {root : Frame}
    (same : after.contentsOf root = ram.contentsOf root) : after.tables root = ram.tables root :=
  List.filterMap_congr fun slot _ => slot_congr same slot

end Ram

namespace AddressSpace

/-- The frames of a space: its root, its tables and its data frames. -/
def frames (space : AddressSpace) (ram : Ram) : List Frame :=
  space.root :: (ram.tables space.root ++ ram.backing space.root)

theorem reach_perm_frames (space : AddressSpace) (ram : Ram) :
    (ram.reach space.root).Perm (space.frames ram) :=
  ram.reach_perm_backing space.root

theorem length_frames (space : AddressSpace) (ram : Ram) :
    (space.frames ram).length =
      1 + (ram.tables space.root).length + (ram.backing space.root).length := by
  rw [frames, List.length_cons, List.length_append]
  omega

/-- The frames of a space depend on nothing but what is in them. -/
theorem frames_congr {space : AddressSpace} {ram after : Ram}
    (kept : ∀ frame ∈ ram.reach space.root, after.contentsOf frame = ram.contentsOf frame) :
    space.frames after = space.frames ram := by
  have backing : after.backing space.root = ram.backing space.root :=
    congrArg Page.all.filterMap (Ram.behind_congr kept)
  rw [frames, frames, Ram.tables_congr (kept _ (ram.root_mem_reach _)), backing]

end AddressSpace

end PagedMemory
