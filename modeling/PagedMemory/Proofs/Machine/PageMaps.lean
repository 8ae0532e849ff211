import PagedMemory.Proofs.Machine.Isolation

/-!
# Spaces as page maps

What the two levels of tables of a space amount to can be kept track of without
looking at a table.  A new space has the empty page map; a frame that is put
behind a page makes an entry, and declaring pages clears their entries.  A copy of
a space with regions has entries for the same pages.  A *chart* keeps such a page
map for every space in the course of a run.

Whatever the run, lookups in a live space answer what its page map says, and the
map and the directory decide whether a frame can be put behind a page.
-/

namespace PagedMemory

open Memory

/-- The map of a copy: the pages of the source, with the frames that the copy has for them. -/
def PageMap.copied (source : PageMap) (ram : Ram) (root : Frame) : PageMap :=
  fun page => (source page).bind fun _ => ram.behind root page

namespace Ledger

/-- The pages of a space that a command has declared, by its answer. -/
def processed (ledger : Ledger) (name : Nat) (command : SpaceCommand) (answer : Answer)
    (after : Machine) : List Page :=
  match ledger.machine.spaces.find? name with
  | none => []
  | some space => command.processed answer (after.memory.ram.covers space.root)

/-- The map of the copy of a space; a space without regions has an empty copy. -/
def forkedMap (ledger : Ledger) (name : Nat) (root : Frame) (after : Machine)
    (source : PageMap) : PageMap :=
  match ledger.machine.spaces.find? name with
  | none => .empty
  | some space =>
      if space.regions.entries = [] then .empty else source.copied after.memory.ram root

/-- The page maps of all spaces once a command has been answered. -/
def remap (ledger : Ledger) (maps : Nat → PageMap) (command : Command) (answer : Answer)
    (after : Machine) : Nat → PageMap :=
  match command, answer with
  | .create name, .frame _ => Function.update maps name .empty
  | .fork name copy _, .frame root =>
      Function.update maps copy (ledger.forkedMap name root after (maps name))
  | .change name command, answer =>
      Function.update maps name
        ((maps name).clear (ledger.processed name command answer after))
  | .access name command, answer =>
      Function.update maps name ((maps name).extend (command.backs? answer))
  | _, _ => maps

/-- Runs that obey frame ownership, with the page maps that spaces come to have. -/
abbrev charting : Regime (Ledger × (Nat → PageMap)) :=
  ownership.recording remap

variable {ledger : Ledger} {maps : Nat → PageMap} {command : Command} {answer : Answer}
  {after : Machine} {name : Nat} {space : AddressSpace}

/-! ## What a step does to page maps -/

/-- Only the map of the space that a command has made or worked on is another one. -/
theorem remap_of_ne (apart : command.target? answer ≠ some name) :
    ledger.remap maps command answer after name = maps name := by
  unfold remap
  split
  · exact Function.update_of_ne (fun same => apart (congrArg some same.symm)) _ _
  · exact Function.update_of_ne (fun same => apart (congrArg some same.symm)) _ _
  · exact Function.update_of_ne (fun same => apart (congrArg some same.symm)) _ _
  · exact Function.update_of_ne (fun same => apart (congrArg some same.symm)) _ _
  · rfl

/-- Only the space that a command has made or worked on may have another record. -/
theorem Outcome.find?_of_ne (outcome : ledger.Outcome command answer after)
    (apart : command.target? answer ≠ some name) :
    after.spaces.find? name = ledger.machine.spaces.find? name := by
  have differs {other : Nat} (target : command.target? answer = some other) : name ≠ other := by
    rintro rfl
    exact apart target
  cases outcome with
  | missing about missing => rfl
  | settled target settles lostFrames => rfl
  | bootstrapped early bootstrapped changed => rfl
  | created vacant creates => rw [SpaceTable.find?_insert, if_neg (differs rfl)]
  | forked found vacant forked => rw [SpaceTable.find?_insert, if_neg (differs rfl)]
  | changed found changes => rw [SpaceTable.find?_insert, if_neg (differs rfl)]
  | accessed found serves => rfl
  | removed removes found returns =>
      have other := differs (by rcases removes with rfl | rfl <;> rfl)
      rw [SpaceTable.find?_erase, if_neg other]

/-- A page map says what is behind the pages of each live space. -/
def Charted (ledger : Ledger) (maps : Nat → PageMap) : Prop :=
  ∀ name space, ledger.machine.spaces.find? name = some space →
    ledger.memory.ram.behind space.root = maps name

/-- A fork makes entries for the pages that are backed in its source. -/
theorem behind_of_forked {source made : AddressSpace} {memory : Memory}
    (found : ledger.machine.spaces.find? name = some source)
    (forked : AddressSpace.Forked ledger.memory source made memory)
    (spaces : SpaceTable) :
    memory.ram.behind made.root = ledger.forkedMap name made.root ⟨memory, spaces⟩
      (ledger.memory.ram.behind source.root) := by
  simp only [forkedMap, found]
  by_cases regions : source.regions.entries = []
  · rw [if_pos regions]
    exact Ram.behind_of_zero (forked.fresh regions).2
  · rw [if_neg regions]
    funext page
    have rel := (forked.deep regions).2.behind page
    show memory.ram.behind made.root page =
      (ledger.memory.ram.behind source.root page).bind fun _ => memory.ram.behind made.root page
    generalize ledger.memory.ram.behind source.root page = original? at rel
    generalize memory.ram.behind made.root page = frame? at rel
    cases rel <;> rfl

/-- Page maps stay right through every outcome. -/
theorem Balanced.charted_of_outcome (balanced : ledger.Balanced)
    (outcome : ledger.Outcome command answer after) (charted : ledger.Charted maps) :
    (ledger.next command answer after).Charted (ledger.remap maps command answer after) := by
  intro name space found
  change after.spaces.find? name = some space at found
  change after.memory.ram.behind space.root = _
  by_cases target : command.target? answer = some name
  · cases outcome with
    | missing about missing =>
        cases about.symm.trans (Command.subject?_of_target? target)
        cases missing.symm.trans found
    | settled nowhere settles lostFrames => cases nowhere.symm.trans target
    | bootstrapped early bootstrapped changed => cases target
    | created vacant creates =>
        cases target
        rw [SpaceTable.find?_insert, if_pos rfl] at found
        cases found
        cases creates with
        | created extension tree zeroed =>
            rw [remap, Function.update_self]
            exact Ram.behind_of_zero zeroed
    | forked source vacant forked =>
        cases target
        rw [SpaceTable.find?_insert, if_pos rfl] at found
        cases found
        rw [remap, Function.update_self, ← charted _ _ source]
        exact behind_of_forked source forked _
    | changed about changes =>
        cases target
        rw [SpaceTable.find?_insert, if_pos rfl] at found
        cases found
        rw [remap, Function.update_self, processed, about, changes.root, ← charted _ _ about]
        exact changes.reshapes.declares.behind
    | accessed about serves =>
        cases target
        cases about.symm.trans found
        rw [remap, Function.update_self, ← charted _ _ about]
        exact serves.behind
    | removed removes about returns =>
        rw [SpaceTable.find?_erase] at found
        rcases removes with rfl | rfl
        · cases target
          rw [if_pos rfl] at found
          cases found
        · cases target
          rw [if_pos rfl] at found
          cases found
  · rw [outcome.find?_of_ne target] at found
    have works : command.worksOn? ≠ some name :=
      fun works => target (Command.target?_of_worksOn? works answer)
    rw [remap_of_ne target, ← charted name space found]
    exact Ram.behind_congr (balanced.keeps outcome found works).2

/-- Page maps are right in every run. -/
theorem charted_of_reaches {machine : Machine} {state : Ledger × (Nat → PageMap)}
    (fresh : machine.Fresh) (charts : charting.Reaches (start machine, fun _ => .empty) state) :
    state.1.Charted state.2 := by
  induction charts with
  | refl =>
      intro name space found
      change machine.spaces.find? name = some space at found
      rw [fresh.spaces] at found
      cases found
  | step charts permitted executed induction =>
      have balanced := (fresh.balanced.of_reaches charts.forget).1
      exact balanced.charted_of_outcome (balanced.outcome permitted executed) induction

end Ledger

namespace AddressSpace

variable {memory : Memory} {space : AddressSpace}

theorem directorySlot_eq_absent_iff (tree : memory.ram.Tree space.root) (page : Page) :
    directorySlot space.root page.directoryIndex memory = .ok (.absent, memory) ↔
      memory.ram.slot space.root page.directoryIndex = none := by
  rcases directorySlot_ensures tree.held_root page.directoryIndex_lt with
    ⟨slot, after, returns, rfl, rfl⟩
  rw [returns]
  cases after.ram.slot space.root page.directoryIndex <;> simp [DirectorySlot.ofFrame?]

/--
Whether a frame can be put behind a page is decided by the directory and the page
map, whosever frame it is; if it cannot, nothing changes.
-/
theorem attach_decides (skeleton : memory.ram.Skeleton space.root) (address : VirtAddr)
    (frame : Frame) :
    let absent := memory.ram.slot space.root (Page.directoryIndex address.block) = none
    ∃ result after, space.attach address frame memory = .ok (result, after) ∧
      (result = .error (.undeclared address) ↔ absent) ∧
      (result = .error (.alreadyBacked address) ↔
        (memory.ram.behind space.root address.block).isSome = true) ∧
      (result = .ok () ↔ ¬ absent ∧ memory.ram.behind space.root address.block = none) ∧
      (result ≠ .ok () → after = memory) := by
  intro absent
  rcases attach_attempts_of_skeleton skeleton address frame with
    ⟨result, after, returns, attempts⟩
  refine ⟨result, after, returns, ?_⟩
  cases attempts with
  | undeclared missing =>
      have unbacked := Ram.behind_of_absent missing
      simp [absent, missing, unbacked]
  | alreadyBacked named backed =>
      have behind := (Ram.behind_of_named named).trans backed
      simp [absent, named, behind]
  | written named unmapped writes =>
      have behind := (Ram.behind_of_named named).trans unmapped
      simp [absent, named, behind]

end AddressSpace

namespace Ledger

variable {machine : Machine} {ledger : Ledger} {maps : Nat → PageMap} {name : Nat}
  {space : AddressSpace}

/-- A copy of a space with regions is backed where its source is, with available frames. -/
theorem copy_backed_like_source (fresh : machine.Fresh)
    (charts : charting.Reaches (start machine, fun _ => .empty) (ledger, maps))
    (found : ledger.machine.spaces.find? name = some space)
    (regions : space.regions.entries ≠ []) {copy : Nat} {heap : Heap} {root : Frame}
    {after : Machine}
    (executed : ledger.machine.execute (.fork name copy heap) = .ok (.frame root, after))
    (page : Page) :
    let map := ledger.remap maps (.fork name copy heap) (.frame root) after copy
    (map page).isSome = (maps name page).isSome ∧
      ∀ frame, map page = some frame → frame ∈ ledger.memory.pool.available := by
  intro map
  have balanced := (fresh.balanced.of_reaches charts.forget).1
  have charted : ledger.Charted maps := charted_of_reaches fresh charts
  rcases balanced.forked_of_execute found executed with ⟨made, located, forked⟩
  have permitted : charting.Allows (ledger, maps) (.fork name copy heap) (.frame root) := trivial
  have same : map = after.memory.ram.behind made.root :=
    (charted_of_reaches fresh (charts.step permitted executed) copy made located).symm
  rw [same, ← charted _ _ found]
  refine ⟨AddressSpace.isSome_of_rel ((forked.deep regions).2.behind page), ?_⟩
  intro frame backed
  have taken := forked.extension.exchange.balance
  rw [List.append_nil, List.append_nil] at taken
  exact taken.mem_iff.mp (List.mem_append_right _ (Ram.behind_mem_reach backed))

/--
In every run the tables of a live space amount to its page map: a lookup answers
what the map says about the page of the address, and no frame is behind two pages.
Putting a frame behind an address is refused exactly if the directory names no table
for the page, or the map already has an entry; a refusal changes nothing.  A copy of
a space with regions is backed exactly where its source is, with fresh frames.
-/
theorem lookups_answer_page_maps (fresh : machine.Fresh)
    (charts : charting.Reaches (start machine, fun _ => .empty) (ledger, maps))
    (found : ledger.machine.spaces.find? name = some space) :
    (∀ address, space.frameBehind address ledger.memory =
      .ok (maps name address.block, ledger.memory)) ∧
    (∀ page other frame, maps name page = some frame → maps name other = some frame →
      other = page) ∧
    (∀ address frame,
      let absent := directorySlot space.root (Page.directoryIndex address.block) ledger.memory =
        .ok (.absent, ledger.memory)
      ∃ result after, space.attach address frame ledger.memory = .ok (result, after) ∧
        (result = .error (.undeclared address) ↔ absent) ∧
        (result = .error (.alreadyBacked address) ↔
          (maps name address.block).isSome = true) ∧
        (result = .ok () ↔ ¬ absent ∧ maps name address.block = none) ∧
        (result ≠ .ok () → after = ledger.memory)) ∧
    (space.regions.entries ≠ [] → ∀ copy heap root after,
      ledger.machine.execute (.fork name copy heap) = .ok (.frame root, after) → ∀ page,
        let map := ledger.remap maps (.fork name copy heap) (.frame root) after copy
        (map page).isSome = (maps name page).isSome ∧
          ∀ frame, map page = some frame → frame ∈ ledger.memory.pool.available) := by
  have balanced := (fresh.balanced.of_reaches charts.forget).1
  have tree := (balanced.sound_of_found found).tree
  have charted : ledger.memory.ram.behind space.root = maps name :=
    charted_of_reaches fresh charts name space found
  refine ⟨?_, ?_, ?_, ?_⟩
  · intro address
    rw [AddressSpace.frameBehind_eq tree, charted]
  · intro page other frame backed again
    rw [← charted] at backed again
    exact tree.behind_injective backed again
  · intro address frame
    rw [AddressSpace.directorySlot_eq_absent_iff tree, ← charted]
    exact AddressSpace.attach_decides tree.skeleton address frame
  · intro regions copy heap root after executed page
    exact copy_backed_like_source fresh charts found regions executed page

/-- Of two pages, one is declared again and loses its entry; the other one keeps it. -/
theorem lookups_answer_page_maps_after_redeclaration :
    let commands : List Command := [
      .create 0,
      .change 0 (.declare ⟨0x400000⟩ 0x2000 ⟨7⟩ .available),
      .pool .take,
      .access 0 (.attach ⟨0x400000⟩ ⟨4, by decide⟩),
      .access 0 (.fault ⟨0x401000⟩),
      .change 0 (.declare ⟨0x400000⟩ 0x1000 ⟨5⟩ .available)]
    ∃ ledger maps space, ownership.follow (start Machine.eightFrames) commands = some ledger ∧
      charting.Reaches (start Machine.eightFrames, fun _ => .empty) (ledger, maps) ∧
      ledger.machine.spaces.find? 0 = some space ∧
      maps 0 (Address.block ⟨0x400000⟩) = none ∧
      maps 0 (Address.block ⟨0x401000⟩) = some ⟨5, by decide⟩ ∧
      ∃ after, space.attach ⟨0x401FFF⟩ ⟨6, by decide⟩ ledger.memory =
        .ok (.error (.alreadyBacked ⟨0x401FFF⟩), after) ∧ after = ledger.memory := by
  intro commands
  have outcome : (ownership.follow (start Machine.eightFrames) commands).bind (fun ledger =>
      (ledger.machine.spaces.find? 0).map fun space =>
        (ledger.memory.ram.behind space.root (Address.block ⟨0x400000⟩),
          ledger.memory.ram.behind space.root (Address.block ⟨0x401000⟩))) =
      some (none, some ⟨5, by decide⟩) := by
    decide +kernel
  rcases Option.bind_eq_some_iff.mp outcome with ⟨ledger, followed, outcome⟩
  rcases Option.map_eq_some_iff.mp outcome with ⟨space, found, observed⟩
  rcases Prod.mk.inj observed with ⟨cleared, backed⟩
  have reached := Regime.reaches_of_follow followed
  rcases reached.recorded remap fun _ => .empty with ⟨maps, charts⟩
  have fresh : Machine.eightFrames.Fresh := .bootstrapped Machine.starts_eightFrames
  have charted : ledger.memory.ram.behind space.root = maps 0 :=
    charted_of_reaches fresh charts 0 space found
  rw [charted] at cleared backed
  rcases lookups_answer_page_maps fresh charts found with ⟨-, -, attachments, -⟩
  rcases attachments ⟨0x401FFF⟩ ⟨6, by decide⟩ with
    ⟨result, after, returns, -, already, -, unchanged⟩
  have same : (Address.block ⟨0x401FFF⟩ : Page) = Address.block ⟨0x401000⟩ := by decide
  have refused : result = .error (.alreadyBacked ⟨0x401FFF⟩) := by
    apply already.mpr
    rw [same, backed]
    rfl
  subst refused
  exact ⟨ledger, maps, space, followed, charts, found, cleared, backed, after, returns,
    unchanged nofun⟩

end Ledger

end PagedMemory
