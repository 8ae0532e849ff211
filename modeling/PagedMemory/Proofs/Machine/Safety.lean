import PagedMemory.Proofs.Frames.GivingBack
import PagedMemory.Proofs.Machine.Conservation
import PagedMemory.Proofs.Table.Packing

/-!
# Runs without panics

Every promise that this library relies on is checked where it is used.  In a run
that obeys frame ownership all of them are kept, wherever frames or the heap run
out and whenever the ready phase is entered: each command returns.

Behind that stand the invariants of such runs, each of which keeps some promises.
An available frame belongs to no space, so a fresh frame is never copied onto
itself; a second-level table consists of canonical words, at every moment at which
one of its slots is decoded; a closed window has no rights aside; what a pool counts
as free is what it can hand out.
-/

namespace PagedMemory

open Memory

namespace Ram

/-- Every word of every table that a directory names is canonical. -/
def CanonicalTables (ram : Ram) (root : Frame) : Prop :=
  ∀ slot table, ram.slot root slot = some table →
    ∀ index word, (ram.contentsOf table).get index = .ok word → (TableWord.mk word).Canonical

theorem Tree.canonicalTables {ram : Ram} {root : Frame} (tree : ram.Tree root) :
    ram.CanonicalTables root := by
  intro slot table named index word read
  rcases tree.clean slot table named index word read with ⟨entry, rfl⟩
  exact entry.canonical_encode

end Ram

namespace Ledger

/-- What keeps every promise that the library relies on. -/
structure Safe (ledger : Ledger) : Prop where
  /-- Every permitted command returns a value or a refusal. -/
  returns : ∀ command, ledger.Permits command →
    ∃ answer after, ledger.machine.execute command = .ok (answer, after)
  /-- A frame that can be taken belongs to no space, so nothing is copied onto itself. -/
  fresh : ∀ frame ∈ ledger.memory.pool.available,
    ∀ name space, ledger.machine.spaces.find? name = some space →
      frame ∉ space.frames ledger.memory.ram
  /-- Slots are decoded as they stand, or once a fault has taken its frame, -/
  words : ∀ name space, ledger.machine.spaces.find? name = some space →
    ledger.memory.ram.CanonicalTables space.root ∧
      Ensures takeZeroed ledger.memory fun _ between => between.ram.CanonicalTables space.root
  /-- or in the course of a declaration, once the table of the next page is there. -/
  declaring : ∀ name space, ledger.machine.spaces.find? name = some space →
    ∀ pages page leaked, Ensures (do
        let _ ← AddressSpace.declarePages space.root pages leaked
        AddressSpace.tableFor space.root page) ledger.memory
      fun _ between => between.ram.CanonicalTables space.root
  /-- A range that is declared has a page. -/
  regions : ∀ start size, ∃ range, AddressSpace.pageRange? start size = .ok range ∧
    ∀ base count, range = some (base, count) → 0 < count
  /-- A closed window has no rights aside. -/
  windows : ∀ name space, ledger.machine.spaces.find? name = some space →
    space.loading = false → ∀ region ∈ space.regions.entries, region.saved = none
  /-- Whatever frame is given back, none of the table's own is pushed. -/
  pushes : ∀ frame, ∃ reply, ledger.memory.pool.release frame = .ok reply
  /-- The frames of the table can be numbered. -/
  numbers : ∀ bounds, ledger.memory.pool.territory = .table bounds →
    bounds.first.number + bounds.total ≤ blockLimit
  /-- What counts as free is what can be handed out. -/
  counter : ledger.memory.pool.isBootstrapped = true →
    ledger.memory.pool.freeFrames = ledger.memory.pool.available.length
  /-- One more free frame can always be counted. -/
  countable : ledger.memory.pool.freeFrames + 1 < UInt64.size
  indices : ∀ page : Page, page.directoryIndex < slotsPerTable ∧ page.tableIndex < slotsPerTable

variable {ledger : Ledger}

/-- However far a declaration has come, the tables are in order. -/
theorem canonicalTables_declaring (balanced : ledger.Balanced) {name : Nat} {space : AddressSpace}
    (found : ledger.machine.spaces.find? name = some space) (pages : List Page) (page : Page)
    (leaked : Nat) :
    Ensures (do
        let _ ← AddressSpace.declarePages space.root pages leaked
        AddressSpace.tableFor space.root page) ledger.memory
      fun _ between => between.ram.CanonicalTables space.root := by
  have owns := (balanced.owns_of_found found).of_perm List.perm_append_comm
  have tree := (balanced.sound_of_found found).tree
  refine (AddressSpace.declarePages_ensures owns tree pages leaked).bind ?_
  rintro outcome between ⟨done, lost, declared, -, -⟩
  refine (AddressSpace.tableFor_ensures (declared.owns owns) declared.tree page).imp ?_
  rintro result after ⟨built, -⟩
  exact built.tree.canonicalTables

/-- Taking a frame writes to none of a space. -/
theorem canonicalTables_faulting (balanced : ledger.Balanced) {name : Nat} {space : AddressSpace}
    (found : ledger.machine.spaces.find? name = some space) :
    Ensures takeZeroed ledger.memory fun _ between =>
      between.ram.CanonicalTables space.root := by
  have owns := balanced.owns_of_found found
  have tree := (balanced.sound_of_found found).tree
  refine (takeZeroed_ensures owns).imp ?_
  intro result between obtains
  cases result with
  | error refusal =>
      rw [obtains.ram_of_refused]
      exact tree.canonicalTables
  | ok frame =>
      have beside : ledger.memory.Owns ([] ++ ledger.memory.ram.reach space.root) := owns.right
      exact (obtains.exchange.tree beside tree fun _ member => member).1.canonicalTables

theorem Balanced.safe (balanced : ledger.Balanced) : ledger.Safe where
  returns command permitted := by
    rcases balanced.answers permitted with ⟨answer, after, executed, -⟩
    exact ⟨answer, after, executed⟩
  fresh frame available name space found inside := by
    have reached := (space.reach_perm_frames ledger.memory.ram).mem_iff.mpr inside
    have outstanding := mem_outstanding (balanced.mem_of_found found) reached
    exact balanced.owns.not_available outstanding available
  words name space found :=
    ⟨(balanced.sound_of_found found).tree.canonicalTables, canonicalTables_faulting balanced found⟩
  declaring name space found pages page leaked :=
    canonicalTables_declaring balanced found pages page leaked
  regions := AddressSpace.pageRange?_total
  windows name space found closed := (balanced.sound_of_found found).settled closed
  pushes frame := by
    rcases balanced.owns.sound.bounded.release frame with ⟨result, after, events, released, -⟩
    exact ⟨_, released⟩
  numbers bounds table := balanced.owns.sound.fits_of_table table
  counter bootstrapped := balanced.owns.sound.freeFrames_eq bootstrapped
  countable := balanced.owns.sound.countable
  indices page := ⟨page.directoryIndex_lt, page.tableIndex_lt⟩

/--
In a run that obeys frame ownership nothing panics: every command returns, and the
invariants that each promise rests on hold between commands and at every moment at
which they are relied on.
-/
theorem permitted_runs_are_safe {machine : Machine} (fresh : machine.Fresh)
    (reached : ownership.Reaches (start machine) ledger) : ledger.Safe :=
  (fresh.balanced.of_reaches reached).1.safe

/-- A space is made before the ready phase is entered, and forked once no frame is left. -/
theorem permitted_runs_are_safe_across_bootstrap :
    let machine : Machine := .start (.filled 1 8 0xA5) (.bump ⟨⟨0x1000⟩, ⟨0x9000⟩⟩)
    let commands : List Command := [
      .create 0,
      .pool .bootstrap,
      .change 0 (.declare ⟨0x400000⟩ 0x2000 ⟨5⟩ .available),
      .access 0 (.fault ⟨0x401000⟩),
      .pool (.allow (some 0))]
    ∃ ledger answer after, ownership.follow (start machine) commands = some ledger ∧
      ledger.memory.pool.isBootstrapped = true ∧
      ledger.memory.pool.freeFrames = ledger.memory.pool.available.length ∧
      ledger.machine.execute (.fork 0 1 .available) = .ok (answer, after) := by
  intro machine commands
  have outcome : (ownership.follow (start machine) commands).map (fun ledger =>
      ledger.memory.pool.isBootstrapped) = some true := by
    decide +kernel
  rcases Option.map_eq_some_iff.mp outcome with ⟨ledger, followed, bootstrapped⟩
  have made : BumpRange.between ⟨0x1000⟩ ⟨0x9000⟩ = .ok ⟨⟨0x1000⟩, ⟨0x9000⟩⟩ := by
    decide +kernel
  have fresh : machine.Fresh := .booting made (by decide +kernel)
  have safe := permitted_runs_are_safe fresh (Regime.reaches_of_follow followed)
  rcases safe.returns (.fork 0 1 .available) trivial with ⟨answer, after, executed⟩
  exact ⟨ledger, answer, after, followed, bootstrapped, safe.counter bootstrapped, executed⟩

end Ledger

end PagedMemory
