import PagedMemory.Proofs.Table.Tree

/-!
# The page map of a tree

Seen from outside, the two levels of tables behind a root are one partial map
from pages to data frames.  `Ram.behind` reads this map off the slots.

A new table of zeros leaves the map as it is, and writing one slot of one table
changes it at exactly one page: the two indices of a page determine the page,
and no two directory slots of a tree name the same table.  So declaring pages
clears the map at these pages and nowhere else.
-/

namespace PagedMemory

/-- A partial map from virtual pages to data frames. -/
abbrev PageMap := Page → Option Frame

namespace PageMap

/-- No page has a data frame. -/
def empty : PageMap := fun _ => none

/-- Some pages lose their data frames. -/
def clear (map : PageMap) (pages : List Page) : PageMap :=
  fun page => if page ∈ pages then none else map page

/-- A page is given another entry. -/
def put (map : PageMap) (page : Page) (entry : Option Frame) : PageMap :=
  fun other => if other = page then entry else map other

/-- A page may be given a data frame. -/
def extend (map : PageMap) : Option (Page × Frame) → PageMap
  | none => map
  | some (page, frame) => map.put page (some frame)

variable {map : PageMap} {page other : Page} {frame : Frame} {pages more : List Page}

@[simp]
theorem put_self (map : PageMap) (page : Page) (entry : Option Frame) :
    map.put page entry page = entry :=
  if_pos rfl

theorem put_of_ne (map : PageMap) (entry : Option Frame) (apart : other ≠ page) :
    map.put page entry other = map other :=
  if_neg apart

@[simp]
theorem put_same (map : PageMap) (page : Page) : map.put page (map page) = map := by
  funext other
  by_cases same : other = page
  · rw [same, put_self]
  · exact map.put_of_ne _ same

@[simp]
theorem clear_nil (map : PageMap) : map.clear [] = map := by
  funext page
  exact if_neg List.not_mem_nil

theorem clear_of_mem (map : PageMap) (member : page ∈ pages) : map.clear pages page = none :=
  if_pos member

theorem clear_of_not_mem (map : PageMap) (outside : page ∉ pages) :
    map.clear pages page = map page :=
  if_neg outside

theorem clear_eq_some : map.clear pages page = some frame ↔ page ∉ pages ∧ map page = some frame := by
  by_cases member : page ∈ pages
  · simp [map.clear_of_mem member, member]
  · simp [map.clear_of_not_mem member, member]

theorem clear_clear (map : PageMap) (pages more : List Page) :
    (map.clear pages).clear more = map.clear (pages ++ more) := by
  funext page
  by_cases early : page ∈ pages
  · have whole : page ∈ pages ++ more := List.mem_append_left more early
    rw [map.clear_of_mem whole, clear]
    split
    · rfl
    · exact map.clear_of_mem early
  · by_cases late : page ∈ more
    · rw [clear_of_mem _ late, map.clear_of_mem (List.mem_append_right pages late)]
    · have outside : page ∉ pages ++ more := by simp [early, late]
      rw [clear_of_not_mem _ late, map.clear_of_not_mem early, map.clear_of_not_mem outside]

/-- To clear one page is to leave nothing there. -/
theorem clear_singleton (map : PageMap) (page : Page) : map.clear [page] = map.put page none := by
  funext other
  by_cases same : other = page
  · subst same
    rw [map.clear_of_mem List.mem_cons_self, put_self]
  · have outside : other ∉ [page] := by simpa using same
    rw [map.clear_of_not_mem outside, map.put_of_ne none same]

/-- An entry for a page that had none leaves the others alone. -/
theorem extend_of_backed {added? : Option (Page × Frame)}
    (unbacked : ∀ entry ∈ added?, map entry.1 = none) (backed : map page = some frame) :
    map.extend added? page = some frame := by
  cases added? with
  | none => exact backed
  | some entry =>
      have apart : page ≠ entry.1 := by
        rintro rfl
        cases (unbacked entry rfl).symm.trans backed
      exact (map.put_of_ne (some entry.2) apart).trans backed

end PageMap

/-- A page is known by its two indices. -/
theorem Page.eq_of_indices {page other : Page}
    (directory : other.directoryIndex = page.directoryIndex)
    (table : other.tableIndex = page.tableIndex) : other = page := by
  apply Block.number_inj.mp
  rw [← other.indices_recombine, ← page.indices_recombine, directory, table]

namespace Ram

variable {ram after : Ram} {root frame table : Frame} {page : Page}

/-- The data frame behind a page, read off the slots of two frames. -/
def behind (ram : Ram) (root : Frame) (page : Page) : Option Frame :=
  (ram.slot root page.directoryIndex).bind fun table => ram.slot table page.tableIndex

/-- Whether a table covers a page. -/
def covers (ram : Ram) (root : Frame) (page : Page) : Bool :=
  (ram.slot root page.directoryIndex).isSome

theorem behind_of_named (named : ram.slot root page.directoryIndex = some table) :
    ram.behind root page = ram.slot table page.tableIndex := by
  rw [behind, named, Option.bind_some]

theorem behind_of_absent (absent : ram.slot root page.directoryIndex = none) :
    ram.behind root page = none := by
  rw [behind, absent, Option.bind_none]

theorem behind_mem_reach (found : ram.behind root page = some frame) :
    frame ∈ ram.reach root := by
  rcases Option.bind_eq_some_iff.mp found with ⟨table, named, backed⟩
  exact data_mem_reach named backed

/-- Lookups in a tree depend on nothing but its own frames. -/
theorem behind_congr
    (same : ∀ frame ∈ ram.reach root, after.contentsOf frame = ram.contentsOf frame) :
    after.behind root = ram.behind root := by
  have sameRoot := slot_congr (same root (ram.root_mem_reach root))
  funext page
  rw [behind, behind, sameRoot]
  cases named : ram.slot root page.directoryIndex with
  | none => rfl
  | some table => exact slot_congr (same table (table_mem_reach named)) page.tableIndex

/-- An empty directory backs nothing. -/
theorem behind_of_zero (zeroed : ram.contentsOf root = .zero) :
    ram.behind root = PageMap.empty := by
  funext page
  apply behind_of_absent
  rw [slot, zeroed, FrameContents.slot_zero]

namespace Tree

/-- Writing one slot of one table changes the map at one page. -/
theorem behind_of_put (tree : ram.Tree root)
    (named : ram.slot root page.directoryIndex = some table) {word : UInt32}
    (replaced : Replaced ram table
      ((ram.contentsOf table).put page.tableIndex word page.tableIndex_lt) after) :
    (∀ index, after.slot root index = ram.slot root index) ∧
      after.behind root = PageMap.put (ram.behind root) page (TableWord.mk word).frame? := by
  have directory : ∀ index, after.slot root index = ram.slot root index :=
    slot_congr (replaced.others root (tree.root_ne_table named))
  refine ⟨directory, ?_⟩
  funext other
  by_cases covered : other.directoryIndex = page.directoryIndex
  · have named' : ram.slot root other.directoryIndex = some table := by
      rw [covered, named]
    rw [behind_of_named ((directory _).trans named'), slot, replaced.target,
      FrameContents.slot_put]
    by_cases place : other.tableIndex = page.tableIndex
    · have same := Page.eq_of_indices covered place
      subst same
      rw [if_pos rfl, PageMap.put_self]
    · have apart : other ≠ page := by
        rintro rfl
        exact place rfl
      rw [if_neg place, PageMap.put_of_ne _ _ apart, behind_of_named named', slot]
  · have apart : other ≠ page := by
      rintro rfl
      exact covered rfl
    rw [PageMap.put_of_ne _ _ apart]
    cases elsewhere : ram.slot root other.directoryIndex with
    | none =>
        rw [behind_of_absent elsewhere, behind_of_absent ((directory _).trans elsewhere)]
    | some rival =>
        have different : rival ≠ table := by
          rintro rfl
          exact covered (tree.slot_injective named elsewhere)
        rw [behind_of_named elsewhere, behind_of_named ((directory _).trans elsewhere)]
        exact slot_congr (replaced.others rival different) _

/-- What a data frame holds does not matter to the map. -/
theorem behind_of_data {index place : Nat} (tree : ram.Tree root)
    (named : ram.slot root index = some table) (backed : ram.slot table place = some frame)
    {contents : FrameContents} (replaced : Replaced ram frame contents after) :
    after.behind root = ram.behind root := by
  have directory := slot_congr (replaced.others root (tree.data_ne_root named backed).symm)
  funext page
  cases covered : ram.slot root page.directoryIndex with
  | none => rw [behind_of_absent covered, behind_of_absent ((directory _).trans covered)]
  | some other =>
      have apart : other ≠ frame := (tree.data_ne_table named backed covered).symm
      rw [behind_of_named covered, behind_of_named ((directory _).trans covered)]
      exact slot_congr (replaced.others other apart) _

end Tree

/-! ## Declaring pages -/

/-- Some pages have been declared, and some data frames were lost by that. -/
structure Declares (before : Ram) (root : Frame) (pages : List Page) (lost : List Frame)
    (after : Ram) : Prop where
  behind : after.behind root = PageMap.clear (before.behind root) pages
  /-- No table is removed or replaced. -/
  tables : ∀ index table, before.slot root index = some table →
    after.slot root index = some table
  covered : ∀ page ∈ pages, after.covers root page = true
  lost : ∀ frame, frame ∈ lost ↔ ∃ page ∈ pages, before.behind root page = some frame

namespace Declares

variable {before between : Ram} {pages more : List Page} {lost later : List Frame}

theorem refl (ram : Ram) (root : Frame) : Declares ram root [] [] ram := by
  refine ⟨?_, fun _ _ named => named, ?_, ?_⟩
  · rw [PageMap.clear_nil]
  · intro page member
    cases member
  · simp

theorem covers (declares : Declares before root pages lost after)
    (covered : before.covers root page = true) : after.covers root page = true := by
  rcases Option.isSome_iff_exists.mp covered with ⟨table, named⟩
  exact Option.isSome_iff_exists.mpr ⟨table, declares.tables _ table named⟩

theorem trans (first : Declares before root pages lost between)
    (second : Declares between root more later after) :
    Declares before root (pages ++ more) (later ++ lost) after where
  behind := by
    rw [second.behind, first.behind, PageMap.clear_clear]
  tables := by
    intro index table named
    exact second.tables index table (first.tables index table named)
  covered := by
    intro page member
    rcases List.mem_append.mp member with early | late
    · exact second.covers (first.covered page early)
    · exact second.covered page late
  lost := by
    intro frame
    constructor
    · intro member
      rcases List.mem_append.mp member with late | early
      · rcases (second.lost frame).mp late with ⟨page, inside, backed⟩
        rw [first.behind] at backed
        exact ⟨page, List.mem_append_right _ inside, (PageMap.clear_eq_some.mp backed).2⟩
      · rcases (first.lost frame).mp early with ⟨page, inside, backed⟩
        exact ⟨page, List.mem_append_left _ inside, backed⟩
    · rintro ⟨page, inside, backed⟩
      -- A page that was declared twice lost its frame the first time.
      by_cases early : page ∈ pages
      · exact List.mem_append_right _ ((first.lost frame).mpr ⟨page, early, backed⟩)
      · have late : page ∈ more := (List.mem_append.mp inside).resolve_left early
        have still : between.behind root page = some frame := by
          rw [first.behind]
          exact PageMap.clear_eq_some.mpr ⟨early, backed⟩
        exact List.mem_append_left _ ((second.lost frame).mpr ⟨page, late, still⟩)

/-- A data frame stays behind its page, or it is lost. -/
theorem kept_or_lost (declares : Declares before root pages lost after)
    (backed : before.behind root page = some frame) :
    after.behind root page = some frame ∨ frame ∈ lost := by
  by_cases member : page ∈ pages
  · exact Or.inr ((declares.lost frame).mpr ⟨page, member, backed⟩)
  · apply Or.inl
    rw [declares.behind]
    exact PageMap.clear_eq_some.mpr ⟨member, backed⟩

/-- A table of zeros in an empty directory slot changes no entry. -/
theorem of_added {index : Nat} (absent : before.slot root index = none)
    (zeroed : after.contentsOf table = .zero)
    (slots : ∀ other, after.slot root other =
      if other = index then some table else before.slot root other)
    (kept : ∀ other rival, before.slot root other = some rival →
      after.contentsOf rival = before.contentsOf rival) :
    Declares before root [] [] after := by
  refine ⟨?_, ?_, ?_, ?_⟩
  · rw [PageMap.clear_nil]
    funext page
    by_cases added : page.directoryIndex = index
    · have named : after.slot root page.directoryIndex = some table := by
        rw [slots, if_pos added]
      rw [behind_of_named named, behind_of_absent (added ▸ absent), slot, zeroed,
        FrameContents.slot_zero]
    · have same : after.slot root page.directoryIndex = before.slot root page.directoryIndex := by
        rw [slots, if_neg added]
      cases named : before.slot root page.directoryIndex with
      | none => rw [behind_of_absent named, behind_of_absent (same.trans named)]
      | some rival =>
          rw [behind_of_named named, behind_of_named (same.trans named)]
          exact slot_congr (kept _ rival named) _
  · intro other rival named
    have apart : other ≠ index := by
      rintro rfl
      cases absent.symm.trans named
    rw [slots, if_neg apart, named]
  · intro page member
    cases member
  · simp

/-- One page has been declared by emptying its slot. -/
theorem of_put (tree : before.Tree root)
    (named : before.slot root page.directoryIndex = some table)
    (backed : before.slot table page.tableIndex = some frame)
    (replaced : Replaced before table ((before.contentsOf table).put page.tableIndex
      TableWord.empty.bits page.tableIndex_lt) after) :
    Declares before root [page] [frame] after := by
  rcases tree.behind_of_put named replaced with ⟨directory, behind⟩
  have found : before.behind root page = some frame := by
    rw [behind_of_named named, backed]
  refine ⟨?_, ?_, ?_, ?_⟩
  · rw [behind, PageMap.clear_singleton]
    exact congrArg _ TableWord.frame?_empty
  · intro index other slotted
    rw [directory, slotted]
  · intro other member
    rw [List.mem_singleton.mp member]
    exact Option.isSome_iff_exists.mpr ⟨table, (directory _).trans named⟩
  · intro other
    simp [found, eq_comm]

/-- One page has been declared that was not backed. -/
theorem of_unmapped (named : before.slot root page.directoryIndex = some table)
    (unmapped : before.slot table page.tableIndex = none) :
    Declares before root [page] [] before := by
  have found : before.behind root page = none := by
    rw [behind_of_named named, unmapped]
  refine ⟨?_, fun _ _ slotted => slotted, ?_, ?_⟩
  · rw [PageMap.clear_singleton, ← found, PageMap.put_same]
  · intro other member
    rw [List.mem_singleton.mp member]
    exact Option.isSome_iff_exists.mpr ⟨table, named⟩
  · intro other
    simp [found]

end Declares

end Ram

end PagedMemory
