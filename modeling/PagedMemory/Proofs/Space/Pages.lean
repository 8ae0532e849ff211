import PagedMemory.Space.Declare
import PagedMemory.Proofs.Memory.Ownership
import PagedMemory.Proofs.Table.PageMap

/-!
# Tables and pages of a space

What the operations on single pages do to the tree of a space.  Looking an
address up is a walk of two slots that changes nothing.  Creating a space makes
a tree of one frame; building a table, clearing a page and attaching a frame
change a tree by one frame each.

`Reshapes` says what declaring pages comes to: the tree stays a tree, the page
map is cleared at these pages, and the data frames that were behind them are the
lost frames that the log names.
-/

namespace PagedMemory

namespace Ram

variable {ram : Ram} {root : Frame}

/-- A zeroed frame is a tree on its own. -/
theorem tree_of_zero (held : ram.holds root = true) (zeroed : ram.contentsOf root = .zero) :
    ram.Tree root ∧ ram.reach root = [root] := by
  have single : ram.reach root = [root] := by
    rw [reach_eq, zeroed, FrameContents.frames_zero]
    rfl
  refine ⟨⟨?_, ?_, ?_⟩, single⟩
  · rw [single]
    exact List.nodup_singleton root
  · rw [single]
    intro frame member
    rw [List.mem_singleton.mp member]
    exact held
  · intro index table named
    rw [slot, zeroed, FrameContents.slot_zero] at named
    cases named

end Ram

namespace Memory

/--
Some pages of a tree have been declared with the help of available frames, and
some data frames were lost on the way.
-/
structure Reshapes (before : Memory) (root : Frame) (pages : List Page) (lost : List Frame)
    (after : Memory) : Prop where
  exchange :
    Exchange before (before.ram.reach root) after (lost ++ after.ram.reach root)
  tree : after.ram.Tree root
  declares : Ram.Declares before.ram root pages lost after.ram
  lostFrames : after.lostFrames = lost ++ before.lostFrames
  leakedFrees : after.pool.leakedFrees = before.pool.leakedFrees

namespace Reshapes

variable {before between after : Memory} {root : Frame} {pages more : List Page}
  {lost later rest : List Frame}

theorem refl {memory : Memory} (sound : memory.pool.Sound) (tree : memory.ram.Tree root) :
    Reshapes memory root [] [] memory :=
  ⟨.refl sound _, tree, .refl memory.ram root, rfl, rfl⟩

/-- Neither the pool nor RAM nor the log has changed. -/
theorem of_same (sound : before.pool.Sound) (tree : before.ram.Tree root)
    (pool : after.pool = before.pool) (ram : after.ram = before.ram)
    (log : after.log = before.log) : Reshapes before root [] [] after := by
  refine ⟨?_, ?_, ?_, ?_, ?_⟩
  · rw [ram]
    exact .of_same sound pool ram _
  · rw [ram]
    exact tree
  · rw [ram]
    exact .refl before.ram root
  · rw [Memory.lostFrames, log]
    rfl
  · rw [pool]

theorem trans (first : Reshapes before root pages lost between)
    (second : Reshapes between root more later after) :
    Reshapes before root (pages ++ more) (later ++ lost) after where
  exchange := by
    have moved := second.exchange.beside lost
    have ready := first.exchange.of_perm_left List.perm_append_comm
    apply (ready.trans moved).of_perm_left
    rw [List.append_assoc, List.append_assoc]
    exact List.perm_append_comm.append_left later
  tree := second.tree
  declares := first.declares.trans second.declares
  lostFrames := by
    rw [second.lostFrames, first.lostFrames, List.append_assoc]
  leakedFrees := second.leakedFrees.trans first.leakedFrees

/-- A record that names no lost frame changes nothing else. -/
theorem record (reshapes : Reshapes before root pages lost between) {event : Event}
    (quiet : event.lostFrame? = none) :
    Reshapes before root pages lost { between with log := event :: between.log } where
  exchange := reshapes.exchange.record event
  tree := reshapes.tree
  declares := reshapes.declares
  lostFrames := (lostFrames_record between quiet).trans reshapes.lostFrames
  leakedFrees := reshapes.leakedFrees

/-- The lost frames are no longer part of the tree, but still outstanding. -/
theorem owns (reshapes : Reshapes before root pages lost after)
    (owns : before.Owns (before.ram.reach root ++ rest)) :
    after.Owns (after.ram.reach root ++ (lost ++ rest)) := by
  have left := (reshapes.exchange.beside rest).owns owns
  apply left.of_perm
  rw [← List.append_assoc]
  exact List.perm_append_comm.append_right rest

end Reshapes

/-! ## Adding a table -/

/-- Writing the word of a frame fills one slot of a table. -/
theorem slot_of_writes {before after : Memory} {table named : Frame} {index : Nat}
    {bounded : index < slotsPerTable}
    (writes : Writes before table ((before.ram.contentsOf table).put index
      (TableWord.ofFrame named).bits bounded) after) (other : Nat) :
    after.ram.slot table other =
      if other = index then some named else before.ram.slot table other := by
  rw [Ram.slot, writes.replaced.target, FrameContents.slot_put]
  by_cases same : other = index
  · rw [if_pos same, if_pos same]
    exact TableWord.frame?_ofFrame named
  · rw [if_neg same, if_neg same, Ram.slot]

/-- A table of zeros has been added to a tree. -/
structure AddsTable (before : Memory) (root : Frame) (index : Nat) (table : Frame)
    (after : Memory) : Prop where
  extension : Extends before [root] [table] after
  tree : after.ram.Tree root
  reach : (after.ram.reach root).Perm (table :: before.ram.reach root)
  zeroed : after.ram.contentsOf table = .zero
  slots : ∀ other, after.ram.slot root other =
    if other = index then some table else before.ram.slot root other

theorem addsTable_of_obtains {before between after : Memory} {root table : Frame}
    {rest : List Frame} {index : Nat} (owns : before.Owns (before.ram.reach root ++ rest))
    (tree : before.ram.Tree root) (bounded : index < slotsPerTable)
    (absent : before.ram.slot root index = none)
    (obtains : Obtains before .zero (.ok table) between)
    (writes : Writes between root ((between.ram.contentsOf root).put index
      (DirectorySlot.table table).encode.bits bounded) after) :
    AddsTable before root index table after := by
  have taken := obtains.exchange
  have kept := taken.tree owns tree fun frame member => List.mem_append_left rest member
  have owned := (taken.beside (before.ram.reach root ++ rest)).owns owns
  have held : between.ram.holds table = true := owned.held_of_mem List.mem_cons_self
  have fresh : table ∉ before.ram.reach root := by
    intro member
    exact (List.nodup_cons.mp owned.nodup).1 (List.mem_append_left rest member)
  have zeroed := obtains.contents
  have holder : before.Owns (root :: ((before.ram.reach root).erase root ++ rest)) :=
    owns.of_perm ((before.ram.reach_perm_root root).append_right rest)
  rcases obtains.extends holder writes with ⟨extension, stillZero, sameRoot⟩
  have absent' : between.ram.slot root index = none := by
    rw [Ram.slot_congr sameRoot, absent]
  have fresh' : table ∉ between.ram.reach root := by
    rw [kept.2]
    exact fresh
  have grown := kept.1.addTable bounded absent' fresh' held zeroed writes.replaced
  rw [kept.2] at grown
  refine ⟨extension, grown.1, grown.2, stillZero, ?_⟩
  intro other
  rw [slot_of_writes writes, Ram.slot_congr sameRoot]

namespace AddsTable

variable {before after : Memory} {root table : Frame} {index : Nat}

/-- What is outstanding now, apart from what was before. -/
theorem exchange (adds : AddsTable before root index table after) :
    Exchange before (before.ram.reach root) after (after.ram.reach root) := by
  have beside := adds.extension.exchange.beside ((before.ram.reach root).erase root)
  have given := beside.of_perm_given (before.ram.reach_perm_root root).symm
  apply given.of_perm_left
  exact ((before.ram.reach_perm_root root).symm.cons table).trans adds.reach.symm

theorem named (adds : AddsTable before root index table after) :
    after.ram.slot root index = some table := by
  rw [adds.slots, if_pos rfl]

/-- Whoever owned the tree owns the new table beside what it was. -/
theorem owns {rest : List Frame} (adds : AddsTable before root index table after)
    (owns : before.Owns (before.ram.reach root ++ rest)) :
    after.Owns (table :: (before.ram.reach root ++ rest)) :=
  ((adds.exchange.beside rest).owns owns).of_perm (adds.reach.append_right rest)

/-- The new table backs nothing, and the others are as they were. -/
theorem declares {rest : List Frame} (adds : AddsTable before root index table after)
    (owns : before.Owns (before.ram.reach root ++ rest)) (tree : before.ram.Tree root)
    (absent : before.ram.slot root index = none) :
    Ram.Declares before.ram root [] [] after.ram := by
  have split : before.Owns ([root] ++ ((before.ram.reach root).erase root ++ rest)) :=
    owns.of_perm ((before.ram.reach_perm_root root).append_right rest)
  apply Ram.Declares.of_added absent adds.zeroed adds.slots
  intro other rival named
  apply adds.extension.kept split
  apply List.mem_append_left
  exact (List.mem_erase_of_ne (tree.root_ne_table named).symm).mpr (Ram.table_mem_reach named)

theorem reshapes {rest : List Frame} (adds : AddsTable before root index table after)
    (owns : before.Owns (before.ram.reach root ++ rest)) (tree : before.ram.Tree root)
    (absent : before.ram.slot root index = none) : Reshapes before root [] [] after :=
  ⟨adds.exchange, adds.tree, adds.declares owns tree absent, adds.extension.lostFrames,
    adds.extension.leakedFrees⟩

end AddsTable

end Memory

namespace AddressSpace

open Memory

variable {memory : Memory} {root : Frame} {rest : List Frame}

/-! ## Looking up -/

theorem frameBehind_ensures_of_skeleton {space : AddressSpace}
    (skeleton : memory.ram.Skeleton space.root) (address : VirtAddr) :
    Ensures (space.frameBehind address) memory fun found after =>
      after = memory ∧ found = memory.ram.behind space.root address.block := by
  let page : Page := address.block
  refine (directorySlot_ensures skeleton.heldRoot page.directoryIndex_lt).bind ?_
  rintro slot between ⟨rfl, rfl⟩
  cases named : between.ram.slot space.root page.directoryIndex with
  | none =>
      refine Ensures.pure ⟨rfl, ?_⟩
      exact (Ram.behind_of_absent named).symm
  | some table =>
      refine (pageSlot_ensures (skeleton.held _ table named) page.tableIndex_lt
        (skeleton.clean _ table named)).bind ?_
      rintro slot after ⟨rfl, rfl⟩
      have found : after.ram.behind space.root page =
          after.ram.slot table page.tableIndex := Ram.behind_of_named named
      cases backed : after.ram.slot table page.tableIndex with
      | none => exact Ensures.pure ⟨rfl, (found.trans backed).symm⟩
      | some frame => exact Ensures.pure ⟨rfl, (found.trans backed).symm⟩

theorem frameBehind_ensures {space : AddressSpace} (tree : memory.ram.Tree space.root)
    (address : VirtAddr) :
    Ensures (space.frameBehind address) memory fun found after =>
      after = memory ∧ found = memory.ram.behind space.root address.block :=
  frameBehind_ensures_of_skeleton tree.skeleton address

/-- A lookup answers what the slots of the tree say, and changes nothing. -/
theorem frameBehind_eq {space : AddressSpace} (tree : memory.ram.Tree space.root)
    (address : VirtAddr) :
    space.frameBehind address memory =
      .ok (memory.ram.behind space.root address.block, memory) := by
  rcases frameBehind_ensures tree address with ⟨found, after, returns, rfl, rfl⟩
  exact returns

theorem mapM_backed_ensures {entries : List (Nat × Frame)}
    (held : ∀ entry ∈ entries, memory.ram.holds entry.2 = true) :
    Ensures (entries.mapM fun entry => do
      return (⟨entry.1, entry.2, ← backed entry.2⟩ : TableLayout)) memory
      fun found after => after = memory ∧ found = entries.map fun entry =>
        ⟨entry.1, entry.2, (memory.ram.contentsOf entry.2).frames⟩ := by
  induction entries with
  | nil => exact Ensures.pure ⟨rfl, rfl⟩
  | cons entry entries induction =>
      rw [List.mapM_cons]
      have first : Ensures (do
          return (⟨entry.1, entry.2, ← backed entry.2⟩ : TableLayout)) memory
          fun found after => after = memory ∧
            found = ⟨entry.1, entry.2, (memory.ram.contentsOf entry.2).frames⟩ := by
        refine (backed_ensures (held entry List.mem_cons_self)).bind ?_
        rintro found after ⟨rfl, listed⟩
        rw [listed]
        exact Ensures.pure ⟨rfl, rfl⟩
      refine first.bind ?_
      rintro layout memory ⟨rfl, same⟩
      refine (induction fun other member => held other (List.mem_cons_of_mem entry member)).bind ?_
      rintro layouts memory ⟨rfl, others⟩
      rw [same, others]
      exact Ensures.pure ⟨rfl, rfl⟩

/-- The layout lists the tables and data frames that the slots of the tree name. -/
theorem layout_ensures {space : AddressSpace} (tree : memory.ram.Tree space.root) :
    Ensures space.layout memory fun found after => after = memory ∧
      found = (memory.ram.contentsOf space.root).frames.map fun entry =>
        ⟨entry.1, entry.2, (memory.ram.contentsOf entry.2).frames⟩ := by
  refine (tables_ensures tree.held_root).bind ?_
  rintro found memory ⟨rfl, listed⟩
  rw [listed]
  apply mapM_backed_ensures
  rintro ⟨index, table⟩ member
  exact tree.held_table (FrameContents.mem_frames_iff.mp member)

/-! ## A new space -/

/-- The outcome of creating a space. -/
inductive Creates (before : Memory) : Except SpaceError AddressSpace → Memory → Prop where
  | created {root : Frame} {after : Memory} (extension : Extends before [] [root] after)
      (tree : after.ram.Tree root) (zeroed : after.ram.contentsOf root = .zero) :
      Creates before (.ok ⟨root, .empty, false, 0, false⟩) after
  | refused {after : Memory} (extension : Extends before [] [] after)
      (none : before.grants = 0) : Creates before (.error .outOfFrames) after

theorem create_ensures (owns : memory.Owns rest) :
    Ensures create memory (Creates memory) := by
  refine (takeZeroed_ensures owns).bind ?_
  intro result between obtains
  cases result with
  | error refusal =>
      have extension := Extends.of_refused owns.sound obtains []
      cases obtains with
      | refused pool ram log none spent => exact Ensures.pure (.refused extension none)
  | ok root =>
      have owned := (obtains.exchange.beside rest).owns owns
      have extension : Extends memory [] [root] between := obtains.extension
      have zeroed := obtains.contents
      have tree := (Ram.tree_of_zero (owned.held_of_mem List.mem_cons_self) zeroed).1
      apply Ensures.record_then
      exact Ensures.pure (.created (extension.record rfl) tree zeroed)

/-! ## Attaching a frame -/

/-- Where the walk to the slot of a page ends, if a frame is to be put there. -/
inductive Attempts (before : Memory) (root frame : Frame) (address : VirtAddr) :
    Except SpaceError Unit → Memory → Prop where
  | written {table : Frame} {after : Memory}
      (named : before.ram.slot root (Page.directoryIndex address.block) = some table)
      (unmapped : before.ram.slot table (Page.tableIndex address.block) = none)
      (writes : Writes before table ((before.ram.contentsOf table).put
        (Page.tableIndex address.block) (PageSlot.backed frame).encode.bits
        (Page.tableIndex_lt address.block)) after) :
      Attempts before root frame address (.ok ()) after
  | undeclared
      (absent : before.ram.slot root (Page.directoryIndex address.block) = none) :
      Attempts before root frame address (.error (.undeclared address)) before
  | alreadyBacked {table other : Frame}
      (named : before.ram.slot root (Page.directoryIndex address.block) = some table)
      (backed : before.ram.slot table (Page.tableIndex address.block) = some other) :
      Attempts before root frame address (.error (.alreadyBacked address)) before

/-- Whose frame it is does not matter to the walk. -/
theorem attach_attempts_of_skeleton {space : AddressSpace}
    (skeleton : memory.ram.Skeleton space.root) (address : VirtAddr) (frame : Frame) :
    Ensures (space.attach address frame) memory
      (Attempts memory space.root frame address) := by
  let page : Page := address.block
  refine (directorySlot_ensures skeleton.heldRoot page.directoryIndex_lt).bind ?_
  rintro slot between ⟨rfl, rfl⟩
  cases named : between.ram.slot space.root page.directoryIndex with
  | none => exact Ensures.pure (.undeclared named)
  | some table =>
      have held := skeleton.held _ table named
      refine (pageSlot_ensures held page.tableIndex_lt (skeleton.clean _ table named)).bind ?_
      rintro slot memory ⟨rfl, rfl⟩
      cases backed : memory.ram.slot table page.tableIndex with
      | some other => exact Ensures.pure (.alreadyBacked named backed)
      | none =>
          refine (setPageSlot_ensures held page.tableIndex_lt (.backed frame)).bind ?_
          intro _ after writes
          exact Ensures.pure (.written named backed writes)

theorem attach_attempts {space : AddressSpace} (tree : memory.ram.Tree space.root)
    (address : VirtAddr) (frame : Frame) :
    Ensures (space.attach address frame) memory
      (Attempts memory space.root frame address) :=
  attach_attempts_of_skeleton tree.skeleton address frame

/-- The outcome of putting a frame behind an address. -/
inductive Attaches (before : Memory) (root frame : Frame) (address : VirtAddr) :
    Except SpaceError Unit → Memory → Prop where
  | attached {after : Memory}
      (exchange : Exchange before (frame :: before.ram.reach root) after
        (after.ram.reach root))
      (tree : after.ram.Tree root)
      (unbacked : before.ram.behind root address.block = none)
      (behind : after.ram.behind root =
        PageMap.put (before.ram.behind root) address.block (some frame))
      (pool : after.pool = before.pool) (log : after.log = before.log) :
      Attaches before root frame address (.ok ()) after
  | refused {refusal : SpaceError} : Attaches before root frame address (.error refusal) before

theorem attach_ensures {space : AddressSpace} {frame : Frame}
    (owns : memory.Owns (frame :: memory.ram.reach space.root))
    (tree : memory.ram.Tree space.root) (address : VirtAddr) :
    Ensures (space.attach address frame) memory
      (Attaches memory space.root frame address) := by
  let page : Page := address.block
  refine (attach_attempts tree address frame).imp ?_
  intro outcome after attempts
  cases attempts with
  | undeclared absent => exact .refused
  | alreadyBacked named backed => exact .refused
  | @written table _ named unmapped writes =>
      have fresh : frame ∉ memory.ram.reach space.root := (List.nodup_cons.mp owns.nodup).1
      have heldFrame := owns.held_of_mem List.mem_cons_self
      have grown := tree.backPage named page.tableIndex_lt unmapped fresh heldFrame
        writes.replaced
      have written : table ∈ memory.pool.available ++ (frame :: memory.ram.reach space.root) :=
        List.mem_append_right _ (List.mem_cons_of_mem _ (Ram.table_mem_reach named))
      have exchange := Exchange.of_writes owns.sound writes written
      have behind := (tree.behind_of_put named writes.replaced).2
      have entry : (PageSlot.backed frame).encode.frame? = some frame :=
        TableWord.frame?_ofFrame frame
      rw [entry] at behind
      exact .attached (exchange.of_perm_left grown.2.symm) grown.1
        ((Ram.behind_of_named named).trans unmapped) behind writes.pool writes.log

end AddressSpace

end PagedMemory
