import PagedMemory.Proofs.Space.Backing

/-!
# Growing a directory

A walk reads the directory of a space and one of its tables.  These frames are the
*bones* of the space, and whoever owns them can build tables and write page slots,
whatever frames are named behind the pages and whoever owns those.

`Builds` says what becomes of a directory meanwhile: no slot is emptied or made to
name another table, and only certain slots may have been filled.
-/

namespace PagedMemory

namespace Ram

variable {ram after : Ram} {root table : Frame} {index : Nat}

/-- What walks read: the directory and its tables. -/
def bones (ram : Ram) (root : Frame) : List Frame :=
  root :: ram.tables root

theorem tables_eq_dataFrames (ram : Ram) (root : Frame) : ram.tables root = ram.dataFrames root :=
  (ram.dataFrames_eq root).symm

theorem table_mem_tables (named : ram.slot root index = some table) : table ∈ ram.tables root := by
  rw [tables_eq_dataFrames]
  exact mem_dataFrames.mpr ⟨index, named⟩

theorem table_mem_bones (named : ram.slot root index = some table) : table ∈ ram.bones root :=
  List.mem_cons_of_mem root (table_mem_tables named)

theorem bones_congr (same : after.contentsOf root = ram.contentsOf root) :
    after.bones root = ram.bones root :=
  congrArg (root :: ·) (tables_congr same)

/-- An empty directory is all there is to walk. -/
theorem bones_of_zero (zeroed : ram.contentsOf root = .zero) : ram.bones root = [root] := by
  rw [bones, tables_eq_dataFrames, dataFrames, zeroed, FrameContents.frames_zero]
  rfl

/-- The bones of a tree can be put in front of its data frames. -/
theorem reach_perm_bones (ram : Ram) (root : Frame) :
    (ram.reach root).Perm (ram.bones root ++ ram.backing root) :=
  ram.reach_perm_backing root

theorem Skeleton.of_owns {memory : Memory} (owns : memory.Owns (memory.ram.bones root))
    (clean : ∀ index table, memory.ram.slot root index = some table →
      (memory.ram.contentsOf table).Clean) : memory.ram.Skeleton root where
  heldRoot := owns.held_of_mem List.mem_cons_self
  held _ _ named := owns.held_of_mem (table_mem_bones named)
  apart := by
    rintro index table named rfl
    exact (List.nodup_cons.mp owns.nodup).1 (table_mem_tables named)
  clean := clean

/-- Nothing but the bones decides how walks go. -/
theorem Skeleton.congr (skeleton : ram.Skeleton root)
    (extent : ∀ frame, after.holds frame = ram.holds frame)
    (same : ∀ frame ∈ ram.bones root, after.contentsOf frame = ram.contentsOf frame) :
    after.Skeleton root := by
  have old {index : Nat} {table : Frame} (named : after.slot root index = some table) :
      ram.slot root index = some table := by
    rw [← slot_congr (same root List.mem_cons_self)]
    exact named
  refine ⟨?_, ?_, ?_, ?_⟩
  · rw [extent]
    exact skeleton.heldRoot
  · intro index table named
    rw [extent]
    exact skeleton.held index table (old named)
  · exact fun index table named => skeleton.apart index table (old named)
  · intro index table named
    rw [same table (table_mem_bones (old named))]
    exact skeleton.clean index table (old named)

end Ram

namespace Memory

/-! ## Handing frames on -/

/--
Whoever owns the frames given owns the frames left afterwards, and nothing has happened
to the frames of others.  Others stand beside the step in the definition, so steps can be
made one after the other, and beside frames that have nothing to do with them.
-/
structure HandsOn (before : Memory) (given : List Frame) (after : Memory) (left : List Frame) :
    Prop where
  extent : ∀ frame, after.ram.holds frame = before.ram.holds frame
  passes : ∀ rest, before.Owns (given ++ rest) →
    after.Owns (left ++ rest) ∧
      ∀ frame ∈ rest, after.ram.contentsOf frame = before.ram.contentsOf frame

namespace HandsOn

variable {before between after : Memory} {given middle left rest : List Frame}

theorem of_exchange (exchange : Exchange before given after left) :
    HandsOn before given after left :=
  ⟨exchange.extent, fun rest owns => ⟨(exchange.beside rest).owns owns, fun frame member =>
    exchange.untouched frame (owns.disjoint member)⟩⟩

theorem refl (memory : Memory) (frames : List Frame) : HandsOn memory frames memory frames :=
  ⟨fun _ => rfl, fun _ owns => ⟨owns, fun _ _ => rfl⟩⟩

theorem of_perm_left (handsOn : HandsOn before given after left) (perm : left.Perm rest) :
    HandsOn before given after rest := by
  refine ⟨handsOn.extent, fun others owns => ?_⟩
  rcases handsOn.passes others owns with ⟨moved, kept⟩
  exact ⟨moved.of_perm (perm.append_right others), kept⟩

theorem of_perm_given (handsOn : HandsOn before given after left) (perm : given.Perm rest) :
    HandsOn before rest after left :=
  ⟨handsOn.extent, fun others owns =>
    handsOn.passes others (owns.of_perm (perm.symm.append_right others))⟩

theorem beside (handsOn : HandsOn before given after left) (rest : List Frame) :
    HandsOn before (given ++ rest) after (left ++ rest) := by
  refine ⟨handsOn.extent, fun others owns => ?_⟩
  rw [List.append_assoc] at owns ⊢
  rcases handsOn.passes (rest ++ others) owns with ⟨moved, kept⟩
  exact ⟨moved, fun frame member => kept frame (List.mem_append_right rest member)⟩

theorem trans (first : HandsOn before given between middle)
    (second : HandsOn between middle after left) : HandsOn before given after left := by
  refine ⟨fun frame => (second.extent frame).trans (first.extent frame), fun rest owns => ?_⟩
  rcases first.passes rest owns with ⟨moved, kept⟩
  rcases second.passes rest moved with ⟨moved', kept'⟩
  exact ⟨moved', fun frame member => (kept' frame member).trans (kept frame member)⟩

/-- Some of the frames left are somebody else's after all. -/
theorem drop (handsOn : HandsOn before given after (rest ++ left)) :
    HandsOn before given after left := by
  refine ⟨handsOn.extent, fun others owns => ?_⟩
  rcases handsOn.passes others owns with ⟨moved, kept⟩
  rw [List.append_assoc] at moved
  exact ⟨moved.right, kept⟩

theorem record (handsOn : HandsOn before given after left) (event : Event) :
    HandsOn before given { after with log := event :: after.log } left := by
  refine ⟨handsOn.extent, fun others owns => ?_⟩
  rcases handsOn.passes others owns with ⟨moved, kept⟩
  exact ⟨⟨moved.sound, moved.distinct, moved.held, moved.accepted⟩, kept⟩

theorem owns (handsOn : HandsOn before given after left) (owns : before.Owns given) :
    after.Owns left := by
  have moved := (handsOn.passes [] (by rwa [List.append_nil])).1
  rwa [List.append_nil] at moved

theorem of_settles (settles : Settles before given after left) :
    HandsOn before given after left := by
  rcases settles with ⟨gone, exchange, -⟩
  exact (of_exchange exchange).drop

/-- Frames of other owners keep their contents. -/
theorem kept (handsOn : HandsOn before given after left) (owns : before.Owns (given ++ rest))
    {frame : Frame} (member : frame ∈ rest) :
    after.ram.contentsOf frame = before.ram.contentsOf frame :=
  (handsOn.passes rest owns).2 frame member

end HandsOn

/-! ## Building tables -/

/-- Some slots of a directory may have been filled, with the help of available frames. -/
structure Builds (before : Memory) (root : Frame) (indices : List Nat) (after : Memory) :
    Prop where
  handsOn : HandsOn before (before.ram.bones root) after (after.ram.bones root)
  skeleton : after.ram.Skeleton root
  /-- No table is removed or replaced. -/
  kept : ∀ index table, before.ram.slot root index = some table →
    after.ram.slot root index = some table
  added : ∀ index table, after.ram.slot root index = some table →
    before.ram.slot root index = some table ∨ index ∈ indices

namespace Builds

variable {before between after : Memory} {root table : Frame} {index : Nat}
  {indices more : List Nat} {rest : List Frame}

theorem refl {memory : Memory} (skeleton : memory.ram.Skeleton root) :
    Builds memory root [] memory :=
  ⟨.refl memory _, skeleton, fun _ _ named => named, fun _ _ named => Or.inl named⟩

theorem of_subset (builds : Builds before root indices after) (subset : indices ⊆ more) :
    Builds before root more after :=
  { builds with
    added := fun index table named => (builds.added index table named).imp_right (@subset index) }

theorem trans (first : Builds before root indices between)
    (second : Builds between root more after) : Builds before root (indices ++ more) after where
  handsOn := first.handsOn.trans second.handsOn
  skeleton := second.skeleton
  kept index table named := second.kept index table (first.kept index table named)
  added := by
    intro index table named
    rcases second.added index table named with between | late
    · exact (first.added index table between).imp_right (List.mem_append_left more)
    · exact Or.inr (List.mem_append_right indices late)

theorem record (builds : Builds before root indices after) (event : Event) :
    Builds before root indices { after with log := event :: after.log } :=
  { builds with handsOn := builds.handsOn.record event }

theorem owns (builds : Builds before root indices after)
    (owns : before.Owns (before.ram.bones root ++ rest)) :
    after.Owns (after.ram.bones root ++ rest) :=
  (builds.handsOn.beside rest).owns owns

/-- A slot that was filled still is. -/
theorem filled (builds : Builds before root indices after)
    (filled : (before.ram.slot root index).isSome = true) :
    (after.ram.slot root index).isSome = true := by
  rcases Option.isSome_iff_exists.mp filled with ⟨table, named⟩
  exact Option.isSome_iff_exists.mpr ⟨table, builds.kept index table named⟩

theorem covers (builds : Builds before root indices after) {page : Page}
    (covered : before.ram.covers root page = true) : after.ram.covers root page = true :=
  builds.filled covered

/-- A slot that may not have been filled is as it was. -/
theorem slot_of_not_mem (builds : Builds before root indices after) (outside : index ∉ indices) :
    after.ram.slot root index = before.ram.slot root index := by
  cases named : after.ram.slot root index with
  | some table => exact ((builds.added index table named).resolve_right outside).symm
  | none =>
      cases old : before.ram.slot root index with
      | none => rfl
      | some table => exact named.symm.trans (builds.kept index table old)

/-- A request that was refused builds nothing. -/
theorem of_refused (sound : before.pool.Sound) (skeleton : before.ram.Skeleton root)
    {contents : FrameContents} {refusal : TakeError}
    (obtains : Obtains before contents (.error refusal) after) : Builds before root [] after := by
  have exchange := (Extends.of_refused sound obtains (before.ram.bones root)).exchange
  have same := obtains.ram_of_refused
  refine ⟨.of_exchange ?_, ?_, ?_, ?_⟩
  · rw [same]
    exact exchange
  · rw [same]
    exact skeleton
  · rw [same]
    exact fun _ _ named => named
  · rw [same]
    exact fun _ _ named => Or.inl named

/-- What a table names does not matter to the directory. -/
theorem of_table (owns : before.Owns (before.ram.bones root))
    (skeleton : before.ram.Skeleton root) (named : before.ram.slot root index = some table)
    (handsOn : HandsOn before [table] after [table]) (clean : (after.ram.contentsOf table).Clean) :
    Builds before root [] after := by
  have perm : (before.ram.bones root).Perm ([table] ++ (before.ram.bones root).erase table) :=
    List.perm_cons_erase (Ram.table_mem_bones named)
  have kept {frame : Frame} (member : frame ∈ before.ram.bones root) (apart : frame ≠ table) :
      after.ram.contentsOf frame = before.ram.contentsOf frame :=
    handsOn.kept (owns.of_perm perm) ((List.mem_erase_of_ne apart).mpr member)
  have sameRoot := kept List.mem_cons_self (skeleton.apart index table named).symm
  have same := Ram.slot_congr sameRoot
  have whole : HandsOn before (before.ram.bones root) after (after.ram.bones root) := by
    rw [Ram.bones_congr sameRoot]
    exact ((handsOn.beside _).of_perm_given perm.symm).of_perm_left perm.symm
  refine ⟨whole, .of_owns (whole.owns owns) ?_, ?_, ?_⟩
  · intro other found again
    rw [same] at again
    by_cases itself : found = table
    · rw [itself]
      exact clean
    · rw [kept (Ram.table_mem_bones again) itself]
      exact skeleton.clean other found again
  · intro other found again
    rw [same, again]
  · intro other found again
    rw [same] at again
    exact Or.inl again

/-- Nor does what is written into one of its slots. -/
theorem of_pageSlot (owns : before.Owns (before.ram.bones root))
    (skeleton : before.ram.Skeleton root) (named : before.ram.slot root index = some table)
    {place : Nat} (bounded : place < slotsPerTable) {slot : PageSlot}
    (writes : Writes before table
      ((before.ram.contentsOf table).put place slot.encode.bits bounded) after) :
    Builds before root [] after := by
  have written : table ∈ before.pool.available ++ [table] :=
    List.mem_append_right _ (List.mem_singleton_self table)
  refine of_table owns skeleton named (.of_exchange (.of_writes owns.sound writes written)) ?_
  rw [writes.replaced.target]
  exact (skeleton.clean index table named).put bounded slot

/-- A table of zeros fills an empty slot. -/
theorem of_obtains (owns : before.Owns (before.ram.bones root))
    (skeleton : before.ram.Skeleton root) (bounded : index < slotsPerTable)
    (absent : before.ram.slot root index = none)
    (obtains : Obtains before .zero (.ok table) between)
    (writes : Writes between root ((between.ram.contentsOf root).put index
      (DirectorySlot.table table).encode.bits bounded) after) :
    Builds before root [index] after ∧ after.ram.slot root index = some table := by
  have holder : before.Owns (root :: before.ram.tables root) := owns
  have split : before.Owns ([root] ++ before.ram.tables root) := by
    rw [List.singleton_append]
    exact holder
  rcases obtains.extends holder writes with ⟨extension, zeroed, sameRoot⟩
  have slots (other : Nat) : after.ram.slot root other =
      if other = index then some table else before.ram.slot root other := by
    rw [slot_of_writes writes, Ram.slot_congr sameRoot]
  have tables : (after.ram.tables root).Perm (table :: before.ram.tables root) := by
    have absent' : between.ram.slot root index = none := by
      rw [Ram.slot_congr sameRoot, absent]
    have replaced : Ram.Replaced between.ram root ((between.ram.contentsOf root).put index
        (TableWord.ofFrame table).bits bounded) after.ram := writes.replaced
    have grown := Ram.dataFrames_of_replaced bounded absent' replaced
    rw [Ram.dataFrames_congr sameRoot] at grown
    rw [Ram.tables_eq_dataFrames, Ram.tables_eq_dataFrames]
    exact grown
  have exchange : Exchange before (before.ram.bones root) after (after.ram.bones root) := by
    have beside := extension.exchange.beside (before.ram.tables root)
    simp only [List.cons_append, List.nil_append] at beside
    rw [Ram.bones, Ram.bones]
    exact beside.of_perm_left ((List.Perm.swap root table _).trans (tables.symm.cons root))
  have old {other : Nat} {found : Frame} (again : after.ram.slot root other = some found)
      (apart : other ≠ index) : before.ram.slot root other = some found := by
    rw [slots, if_neg apart] at again
    exact again
  refine ⟨⟨.of_exchange exchange, .of_owns (exchange.owns owns) ?_, ?_, ?_⟩, ?_⟩
  · intro other found again
    by_cases same : other = index
    · rw [slots, if_pos same] at again
      cases again
      rw [zeroed]
      exact FrameContents.clean_zero
    · rw [extension.kept split (Ram.table_mem_tables (old again same))]
      exact skeleton.clean other found (old again same)
  · intro other found named
    have apart : other ≠ index := by
      rintro rfl
      cases absent.symm.trans named
    rw [slots, if_neg apart, named]
  · intro other found again
    by_cases same : other = index
    · exact Or.inr (List.mem_singleton.mpr same)
    · exact Or.inl (old again same)
  · rw [slots, if_pos rfl]

end Builds

end Memory

end PagedMemory
