import PagedMemory.Proofs.Machine.Coverage

/-!
# Backed pages are legal

A frame may be put behind any covered page, legal or not.  If clients do so only where
an access is legal at the moment, as a page fault does, then no illegal page is ever
backed: a space never forgets a region, so a page that was legal stays legal, and a copy
has the regions of its source wherever it has data frames.
-/

namespace PagedMemory

open Memory

/-- Only legal accesses are served. -/
theorem AddressSpace.serveFault_yields (space : AddressSpace) (address : VirtAddr) :
    Yields (space.serveFault address) fun result =>
      ∀ frame, result = .ok frame → space.Legal address.block := by
  unfold AddressSpace.serveFault
  cases rights : space.rightsAt? address with
  | none => exact Yields.pure nofun
  | some granted =>
      have legal : space.Legal address.block := by
        rw [← AddressSpace.isSome_rightsAt?_iff, rights]
        rfl
      exact fun _ _ _ _ _ _ => legal

/-- An access puts a frame behind a legal page, unless the frame is a given one. -/
theorem SpaceAccess.run_backs (space : AddressSpace) (command : SpaceAccess) :
    Yields (command.run space) fun answer => ∀ entry ∈ command.backs? answer,
      (∃ address frame, command = .attach address frame ∧ entry.1 = address.block) ∨
        space.Legal entry.1 := by
  intro before answer after returns entry made
  unfold SpaceAccess.backs? at made
  split at made
  next address frame =>
    cases made
    exact Or.inl ⟨address, frame, rfl, rfl⟩
  next address frame =>
    cases made
    rcases bind_eq_ok.mp returns with ⟨result, between, served, answered⟩
    rcases pure_eq_ok.mp answered with ⟨same, -⟩
    cases result with
    | error refusal => cases same
    | ok frame => exact Or.inr (space.serveFault_yields address _ _ _ served frame rfl)
  · cases made

namespace Ledger

/-- A client puts a frame behind a page only if an access to it is legal at the moment. -/
def AttachesLegally (ledger : Ledger) : Command → Prop
  | .access name (.attach address _) => ∀ space ∈ ledger.machine.spaces.find? name,
      (space.rightsAt? address).isSome = true
  | _ => True

instance (ledger : Ledger) (command : Command) : Decidable (ledger.AttachesLegally command) := by
  unfold AttachesLegally
  split <;> infer_instance

/-- Runs that obey frame ownership, in which clients attach frames to legal pages only. -/
abbrev legality : Regime Ledger :=
  ownership.restrict fun ledger command _ => ledger.AttachesLegally command

variable {ledger : Ledger} {command : Command} {answer : Answer} {after : Machine} {name : Nat}
  {space : AddressSpace}

/-- No illegal page of a live space is backed. -/
def Lawful (ledger : Ledger) : Prop :=
  ∀ name space, ledger.machine.spaces.find? name = some space →
    ∀ page frame, ledger.memory.ram.behind space.root page = some frame → space.Legal page

/-- A copy is backed where its source is, and has the same regions. -/
theorem Lawful.of_forked {source made : AddressSpace} {memory : Memory} (lawful : ledger.Lawful)
    (about : ledger.machine.spaces.find? name = some source)
    (forked : AddressSpace.Forked ledger.memory source made memory) {page : Page} {frame : Frame}
    (backed : memory.ram.behind made.root page = some frame) : made.Legal page := by
  by_cases regions : source.regions.entries = []
  · rw [Ram.behind_of_zero (forked.fresh regions).2] at backed
    cases backed
  · have like := AddressSpace.isSome_of_rel ((forked.deep regions).2.behind page)
    rw [backed] at like
    rcases Option.isSome_iff_exists.mp like.symm with ⟨original, found⟩
    apply (lawful name source about page original found).mono
    rw [AddressSpace.recorded, AddressSpace.recorded, forked.entries]
    exact List.Subset.refl _

/-- Whoever puts frames behind legal pages only, the entries that a command makes are legal. -/
theorem legal_of_backs {command : SpaceAccess}
    (legally : ledger.AttachesLegally (.access name command))
    (about : ledger.machine.spaces.find? name = some space)
    (executed : ledger.machine.execute (.access name command) = .ok (answer, after)) :
    ∀ entry ∈ command.backs? answer, space.Legal entry.1 := by
  rcases ledger with ⟨machine, held, past⟩
  rw [Machine.execute, Machine.withSpace_of_found about] at executed
  rcases Checked.bind_eq_ok.mp executed with ⟨⟨reply, between⟩, returns, answered⟩
  cases answered
  intro entry made
  rcases SpaceAccess.run_backs space command _ _ _ returns entry made with
    ⟨address, frame, rfl, place⟩ | legal
  · rw [place, ← AddressSpace.isSome_rightsAt?_iff]
    exact legally space about
  · exact legal

/-- Pages stay lawful through every command that attaches legally. -/
theorem Balanced.lawful_next (balanced : ledger.Balanced) (permitted : ledger.Permits command)
    (legally : ledger.AttachesLegally command)
    (executed : ledger.machine.execute command = .ok (answer, after))
    (lawful : ledger.Lawful) : (ledger.next command answer after).Lawful := by
  intro name space found page frame backed
  change after.spaces.find? name = some space at found
  change after.memory.ram.behind space.root page = some frame at backed
  have rewires := balanced.rewires permitted executed
  have outcome := balanced.outcome permitted executed
  by_cases target : command.target? answer = some name
  · cases outcome with
    | missing about missing =>
        cases about.symm.trans (Command.subject?_of_target? target)
        cases missing.symm.trans found
    | settled nowhere settles lostFrames => cases nowhere.symm.trans target
    | bootstrapped early bootstrapped changed => cases target
    | created vacant creates =>
        cases target
        rw [SpaceTable.find?_insert_self] at found
        cases found
        cases creates with
        | created extension tree zeroed =>
            rw [Ram.behind_of_zero zeroed] at backed
            cases backed
    | forked about vacant forked =>
        cases target
        rw [SpaceTable.find?_insert_self] at found
        cases found
        exact lawful.of_forked about forked backed
    | changed about changes =>
        cases target
        rcases rewires.stays about ⟨nofun, nofun⟩ with ⟨current, found', -, grown, -⟩
        cases found'.symm.trans found
        rw [SpaceTable.find?_insert_self] at found
        cases found
        rw [changes.root, changes.reshapes.declares.behind] at backed
        exact (lawful _ _ about page frame (PageMap.clear_eq_some.mp backed).2).mono grown
    | @accessed _ command _ _ memory about serves =>
        cases target
        cases about.symm.trans found
        rw [serves.behind] at backed
        have before := lawful _ _ about page frame
        cases added : command.backs? answer with
        | none =>
            rw [added] at backed
            exact before backed
        | some entry =>
            rw [added] at backed
            by_cases itself : page = entry.1
            · rw [itself]
              exact legal_of_backs legally about executed entry added
            · exact before ((PageMap.put_of_ne _ (some entry.2) itself).symm.trans backed)
    | removed removes about returns =>
        cases (Command.target?_of_removes removes _).symm.trans target
        rw [SpaceTable.find?_erase, if_pos rfl] at found
        cases found
  · rw [rewires.records name target] at found
    have works : command.worksOn? ≠ some name :=
      fun works => target (Command.target?_of_worksOn? works answer)
    rw [Ram.behind_congr (balanced.keeps outcome found works).2] at backed
    exact lawful name space found page frame backed

theorem lawful_of_reaches {machine : Machine} (fresh : machine.Fresh)
    (reached : legality.Reaches (start machine) ledger) : ledger.Lawful := by
  induction reached with
  | refl =>
      intro name space found
      change machine.spaces.find? name = some space at found
      rw [fresh.spaces] at found
      cases found
  | step earlier allowed executed induction =>
      have balanced := (fresh.balanced.of_reaches earlier.widen).1
      exact balanced.lawful_next allowed.1 allowed.2 executed induction

/--
If frames are attached to legal pages only, then in every reached state a page of a live
space that is backed is legal: an access to any of its addresses is, and as a whole the
page lies inside a region or inside the user stack.
-/
theorem backed_pages_are_legal {machine : Machine} (fresh : machine.Fresh)
    (reached : legality.Reaches (start machine) ledger)
    (found : ledger.machine.spaces.find? name = some space) {address : VirtAddr} {frame : Frame}
    {memory : Memory}
    (backed : space.frameBehind address ledger.memory = .ok (some frame, memory)) :
    (space.rightsAt? address).isSome = true ∧
      ((∃ region ∈ space.regions.entries, ∀ other : VirtAddr,
          (other.block : Page) = address.block → region.contains other = true) ∨
        ∀ other : VirtAddr, (other.block : Page) = address.block →
          AddressSpace.inStack other = true) := by
  have balanced := (fresh.balanced.of_reaches reached.widen).1
  have behind : ledger.memory.ram.behind space.root address.block = some frame := by
    rw [AddressSpace.frameBehind_eq (balanced.sound_of_found found).tree] at backed
    exact congrArg Prod.fst (Except.ok.inj backed)
  have legal := lawful_of_reaches fresh reached name space found _ frame behind
  refine ⟨AddressSpace.isSome_rightsAt?_iff.mpr legal, ?_⟩
  rcases legal with recorded | stack
  · rcases AddressSpace.mem_recorded.mp recorded with ⟨region, member, inside⟩
    refine Or.inl ⟨region, member, fun other same => ?_⟩
    rw [Region.contains_iff, same]
    exact inside
  · refine Or.inr fun other same => ?_
    rw [AddressSpace.inStack_iff, same]
    exact stack

/-- A page of a region is backed by an attachment and one of the stack by a fault. -/
theorem backed_pages_are_legal_by_attachment_and_fault :
    let commands : List Command := [
      .create 0,
      .change 0 (.declare ⟨0x400000⟩ 0x1000 ⟨5⟩ .available),
      .change 0 .declareStack,
      .pool .take,
      .access 0 (.attach ⟨0x400FFF⟩ ⟨5, by decide⟩),
      .access 0 (.fault ⟨0x7FFFFFFF⟩)]
    ∃ ledger space, legality.follow (start Machine.eightFrames) commands = some ledger ∧
      ledger.machine.spaces.find? 0 = some space ∧
      space.frameBehind ⟨0x400000⟩ ledger.memory = .ok (some ⟨5, by decide⟩, ledger.memory) ∧
      (∃ region ∈ space.regions.entries, ∀ other : VirtAddr,
        (other.block : Page) = Address.block ⟨0x400000⟩ → region.contains other = true) ∧
      space.frameBehind ⟨0x7FFFF000⟩ ledger.memory = .ok (some ⟨6, by decide⟩, ledger.memory) ∧
      (space.rightsAt? ⟨0x7FFFF000⟩).isSome = true := by
  intro commands
  have outcome : (legality.follow (start Machine.eightFrames) commands).bind (fun ledger =>
      (ledger.machine.spaces.find? 0).map fun space =>
        (ledger.memory.ram.behind space.root (Address.block ⟨0x400000⟩),
          ledger.memory.ram.behind space.root (Address.block ⟨0x7FFFF000⟩))) =
      some (some ⟨5, by decide⟩, some ⟨6, by decide⟩) := by
    decide +kernel
  rcases Option.bind_eq_some_iff.mp outcome with ⟨ledger, followed, outcome⟩
  rcases Option.map_eq_some_iff.mp outcome with ⟨space, found, observed⟩
  rcases Prod.mk.inj observed with ⟨attached, faulted⟩
  have fresh : Machine.eightFrames.Fresh := .bootstrapped Machine.starts_eightFrames
  have reached := Regime.reaches_of_follow followed
  have tree := ((fresh.balanced.of_reaches reached.widen).1.sound_of_found found).tree
  have first := AddressSpace.frameBehind_eq tree ⟨0x400000⟩
  have second := AddressSpace.frameBehind_eq tree ⟨0x7FFFF000⟩
  rw [attached] at first
  rw [faulted] at second
  have region := (backed_pages_are_legal fresh reached found first).2.resolve_right
    fun stack => absurd (stack ⟨0x400000⟩ rfl) (by decide)
  exact ⟨ledger, space, followed, found, first, region, second,
    (backed_pages_are_legal fresh reached found second).1⟩

end Ledger

end PagedMemory
