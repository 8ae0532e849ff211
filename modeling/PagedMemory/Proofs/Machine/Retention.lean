import PagedMemory.Proofs.Machine.Isolation

/-!
# Mapped frames are retained

The lookaside cache of a processor may keep a translation that the tables have
forgotten.  That is harmless as long as the frame has not become somebody else's.
It never does while the space is alive: a data frame stays behind its page, or it
is lost when the page is declared again, and a lost frame stays lost.  In neither
place can it be handed out, be found free, or be reached from anywhere else.
-/

namespace PagedMemory

open Memory

namespace Ledger

/-- The frames that an answer hands out to clients. -/
def handedOut : Command → Answer → List Frame
  | .pool (.allocate count), .frame first => first.run count
  | .pool (.allocateKernel count), .address pointer =>
      (kernelFrame? pointer).elim [] fun first => first.run count
  | .pool .take, .frame frame => [frame]
  | _, _ => []

/-- What is handed out is held from then on. -/
theorem handedOut_subset_heldAfter (held : List Frame) (command : Command) (answer : Answer) :
    handedOut command answer ⊆ heldAfter held command answer := by
  intro frame member
  unfold handedOut at member
  split at member
  · exact List.mem_append_left held member
  · exact List.mem_append_left held member
  · rw [List.mem_singleton.mp member]
    exact List.mem_cons_self
  · cases member

/-- A frame was behind a page of a live space, and it still is or it has been lost. -/
structure Retains (ledger : Ledger) (name : Nat) (root : Frame) (page : Page)
    (frame : Frame) : Prop where
  live : ∃ space, ledger.machine.spaces.find? name = some space ∧ space.root = root
  kept : ledger.memory.ram.behind root page = some frame ∨ frame ∈ ledger.memory.lostFrames

variable {ledger : Ledger} {command : Command} {answer : Answer} {after : Machine} {name : Nat}
  {root frame : Frame} {page : Page}

/--
Unless a command ends a space, the space stays where it is, and what is behind its
pages stays there or is lost.
-/
theorem Balanced.stays (balanced : ledger.Balanced) {space : AddressSpace}
    (outcome : ledger.Outcome command answer after)
    (found : ledger.machine.spaces.find? name = some space)
    (stays : command ≠ .destroy name ∧ command ≠ .discard name) :
    ∃ current, after.spaces.find? name = some current ∧ current.root = space.root ∧
      ∀ page frame, ledger.memory.ram.behind space.root page = some frame →
        after.memory.ram.behind space.root page = some frame ∨
          frame ∈ after.memory.lostFrames := by
  by_cases works : command.worksOn? = some name
  · cases outcome with
    | missing about missing => exact ⟨space, found, rfl, fun _ _ => Or.inl⟩
    | settled target settles lostFrames =>
        cases target.symm.trans (Command.target?_of_worksOn? works _)
    | bootstrapped early bootstrapped changed => cases works
    | created vacant creates => cases works
    | forked source vacant forked => cases works
    | @changed _ _ _ _ current lost memory about changes =>
        cases works
        cases about.symm.trans found
        refine ⟨current, ?_, changes.root, fun page frame backed => ?_⟩
        · rw [SpaceTable.find?_insert, if_pos rfl]
        · rcases changes.reshapes.declares.kept_or_lost backed with still | gone
          · exact Or.inl still
          · apply Or.inr
            show frame ∈ memory.lostFrames
            rw [changes.reshapes.lostFrames]
            exact List.mem_append_left _ gone
    | @accessed _ _ _ _ memory about serves =>
        cases works
        cases about.symm.trans found
        refine ⟨space, found, rfl, fun page frame backed => Or.inl ?_⟩
        show memory.ram.behind space.root page = some frame
        rw [serves.behind]
        exact PageMap.extend_of_backed serves.unbacked backed
    | removed removes about returns =>
        rcases removes with rfl | rfl
        · cases works
          exact absurd rfl stays.1
        · cases works
          exact absurd rfl stays.2
  · rcases balanced.keeps outcome found works with ⟨still, kept⟩
    refine ⟨space, still, rfl, fun page frame backed => Or.inl ?_⟩
    rw [Ram.behind_congr kept]
    exact backed

/-- A frame is retained by every command that does not end its space. -/
theorem Balanced.retains_of_outcome (balanced : ledger.Balanced)
    (outcome : ledger.Outcome command answer after)
    (stays : command ≠ .destroy name ∧ command ≠ .discard name)
    (retains : ledger.Retains name root page frame) :
    (ledger.next command answer after).Retains name root page frame := by
  rcases retains with ⟨⟨space, found, rfl⟩, kept⟩
  rcases balanced.stays outcome found stays with ⟨current, found', same, backed⟩
  refine ⟨⟨current, found', same⟩, ?_⟩
  rcases kept with behind | lost
  · exact backed page frame behind
  · exact Or.inr ((balanced.advances outcome).2.lostFrames.subset lost)

/-- A frame is retained by every run that does not end its space. -/
theorem Balanced.retains_of_reaches (balanced : ledger.Balanced) {later : Ledger}
    (retains : ledger.Retains name root page frame)
    (since : (ownership.among fun command =>
      command ≠ .destroy name ∧ command ≠ .discard name).Reaches ledger later) :
    later.Retains name root page frame := by
  induction since with
  | refl => exact retains
  | step earlier allowed executed induction =>
      rcases allowed with ⟨permitted, stays⟩
      have before := (balanced.of_reaches earlier.widen).1
      exact before.retains_of_outcome (before.outcome permitted executed) stays induction

namespace Retains

variable {space : AddressSpace}

/-- A retained frame is in one place: beside what clients and other spaces have. -/
theorem outstanding (retains : ledger.Retains name space.root page frame)
    (balanced : ledger.Balanced) (found : ledger.machine.spaces.find? name = some space) :
    frame ∉ ledger.memory.pool.available ∧ frame ∉ ledger.held ∧
      frame ∉ ledger.memory.ram.reached (ledger.machine.spaces.erase name).entries := by
  let others := ledger.memory.ram.reached (ledger.machine.spaces.erase name).entries
  let retained := ledger.memory.ram.reach space.root ++ ledger.memory.lostFrames
  have regrouped : ledger.outstanding.Perm ((ledger.held ++ others) ++ retained) := by
    apply (balanced.outstanding_of_found found).trans
    rw [List.append_assoc, List.append_assoc, ← List.append_assoc _ _ others]
    exact List.perm_append_comm.append_left ledger.held
  have member : frame ∈ retained := by
    rcases retains.kept with behind | lost
    · exact List.mem_append_left _ (Ram.behind_mem_reach behind)
    · exact List.mem_append_right _ lost
  have apart := (balanced.owns.of_perm regrouped).disjoint member
  refine ⟨?_, ?_, ?_⟩
  · exact fun available => apart (List.mem_append_left _ available)
  · exact fun held => apart (List.mem_append_right _ (List.mem_append_left others held))
  · exact fun other => apart (List.mem_append_right _ (List.mem_append_right ledger.held other))

/-- Inside its space, a retained frame is behind its own page, if anywhere. -/
theorem only_behind (retains : ledger.Retains name space.root page frame)
    (balanced : ledger.Balanced) (found : ledger.machine.spaces.find? name = some space) :
    frame ≠ space.root ∧ frame ∉ ledger.memory.ram.tables space.root ∧
      ∀ other, ledger.memory.ram.behind space.root other = some frame → other = page := by
  have tree := (balanced.sound_of_found found).tree
  rcases retains.kept with behind | lost
  · rcases tree.behind_apart behind with ⟨root, tables⟩
    exact ⟨root, tables, fun other again => tree.behind_injective behind again⟩
  · have owns := balanced.owns.of_perm (balanced.outstanding_of_found found)
    have outside : frame ∉ ledger.memory.ram.reach space.root := by
      intro member
      exact owns.disjoint (List.mem_append_left _ lost)
        (List.mem_append_right _ (List.mem_append_right _ member))
    have nowhere : frame ∉ space.frames ledger.memory.ram := by
      intro member
      exact outside ((space.reach_perm_frames _).mem_iff.mpr member)
    refine ⟨?_, ?_, ?_⟩
    · rintro rfl
      exact nowhere List.mem_cons_self
    · intro table
      exact nowhere (List.mem_cons_of_mem _ (List.mem_append_left _ table))
    · intro other again
      exact absurd (Ram.behind_mem_reach again) outside

end Retains

/--
Once an address of a space has been translated to a frame, the frame is not handed
out, found free, held by a client or reached from another space for as long as the
space lives, and in the space itself it is nothing but the data frame of that page.
-/
theorem translated_frames_are_retained {machine : Machine} {earlier later : Ledger}
    {space : AddressSpace} {address : VirtAddr} (fresh : machine.Fresh)
    (reached : ownership.Reaches (start machine) earlier)
    (found : earlier.machine.spaces.find? name = some space)
    (translated : space.frameBehind address earlier.memory = .ok (some frame, earlier.memory))
    (since : (ownership.among fun command =>
      command ≠ .destroy name ∧ command ≠ .discard name).Reaches earlier later) :
    ∃ current, later.machine.spaces.find? name = some current ∧ current.root = space.root ∧
      frame ∉ later.memory.pool.available ∧ frame ∉ later.held ∧
      (∀ command answer after, later.Permits command →
        later.machine.execute command = .ok (answer, after) → frame ∉ handedOut command answer) ∧
      (∀ other rival, later.machine.spaces.find? other = some rival → other ≠ name →
        frame ∉ rival.frames later.memory.ram) ∧
      frame ≠ current.root ∧ frame ∉ later.memory.ram.tables current.root ∧
      ∀ other, current.frameBehind other later.memory = .ok (some frame, later.memory) →
        other.block = address.block := by
  have before := (fresh.balanced.of_reaches reached).1
  have balanced := (before.of_reaches since.widen).1
  have behind : earlier.memory.ram.behind space.root address.block = some frame := by
    rw [AddressSpace.frameBehind_eq (before.sound_of_found found).tree] at translated
    exact congrArg Prod.fst (Except.ok.inj translated)
  have retained : later.Retains name space.root address.block frame :=
    before.retains_of_reaches ⟨⟨space, found, rfl⟩, Or.inl behind⟩ since
  rcases retained.live with ⟨current, found', same⟩
  rw [← same] at retained
  rcases retained.outstanding balanced found' with ⟨unavailable, unheld, elsewhere⟩
  rcases retained.only_behind balanced found' with ⟨root, tables, pages⟩
  refine ⟨current, found', same, unavailable, unheld, ?_, ?_, root, tables, ?_⟩
  · intro command answer after permitted executed handed
    have outcome := balanced.outcome permitted executed
    have advanced := (balanced.advances outcome).1
    by_cases stays : command ≠ .destroy name ∧ command ≠ .discard name
    · have still := balanced.retains_of_outcome outcome stays retained
      rcases still.live with ⟨next, found'', same'⟩
      rw [← same'] at still
      exact (still.outstanding advanced found'').2.1
        (handedOut_subset_heldAfter later.held command answer handed)
    · -- The end of a space hands nothing out.
      rcases not_and_or.mp stays with ended | ended
      · rw [not_not.mp ended] at handed
        cases handed
      · rw [not_not.mp ended] at handed
        cases handed
  · intro other rival found'' apart inside
    exact elsewhere (balanced.mem_beside found'' apart.symm
      ((rival.reach_perm_frames _).mem_iff.mpr inside))
  · intro other again
    rw [AddressSpace.frameBehind_eq (balanced.sound_of_found found').tree] at again
    exact pages other.block (congrArg Prod.fst (Except.ok.inj again))

/-- A page is declared again and given another frame; its first frame is nowhere to be found. -/
theorem translated_frames_are_retained_after_redeclaration :
    let first : List Command := [
      .create 0,
      .change 0 (.declare ⟨0x400000⟩ 0x1000 ⟨7⟩ .available),
      .access 0 (.fault ⟨0x400000⟩)]
    let rest : List Command := [
      .change 0 (.declare ⟨0x400000⟩ 0x1000 ⟨5⟩ .available),
      .access 0 (.fault ⟨0x400000⟩),
      .create 1,
      .change 1 (.declare ⟨0x400000⟩ 0x1000 ⟨7⟩ .available),
      .pool .take]
    let frame : Frame := ⟨4, by decide⟩
    ∃ earlier later space other, ownership.follow (start Machine.eightFrames) first = some earlier ∧
      earlier.machine.spaces.find? 0 = some space ∧
      space.frameBehind ⟨0x400000⟩ earlier.memory = .ok (some frame, earlier.memory) ∧
      ownership.follow earlier rest = some later ∧ later.held = [⟨8, by decide⟩] ∧
      later.machine.spaces.find? 1 = some other ∧ frame ∉ later.memory.pool.available ∧
      frame ∉ later.held ∧ frame ∉ other.frames later.memory.ram := by
  intro first rest frame
  have outcome : (ownership.follow (start Machine.eightFrames) first).bind (fun earlier =>
      (earlier.machine.spaces.find? 0).bind fun space =>
        (ownership.follow earlier rest).bind fun later =>
          (later.machine.spaces.find? 1).map fun _ =>
            (earlier.memory.ram.behind space.root (Address.block ⟨0x400000⟩), later.held)) =
      some (some frame, [⟨8, by decide⟩]) := by
    decide +kernel
  rcases Option.bind_eq_some_iff.mp outcome with ⟨earlier, followed, outcome⟩
  rcases Option.bind_eq_some_iff.mp outcome with ⟨space, found, outcome⟩
  rcases Option.bind_eq_some_iff.mp outcome with ⟨later, followed', outcome⟩
  rcases Option.map_eq_some_iff.mp outcome with ⟨other, found', observed⟩
  rcases Prod.mk.inj observed with ⟨behind, held⟩
  have reached := Regime.reaches_of_follow followed
  have fresh : Machine.eightFrames.Fresh := .bootstrapped Machine.starts_eightFrames
  have tree := ((fresh.balanced.of_reaches reached).1.sound_of_found found).tree
  have translated : space.frameBehind ⟨0x400000⟩ earlier.memory =
      .ok (some frame, earlier.memory) := by
    rw [AddressSpace.frameBehind_eq tree, behind]
  rcases translated_frames_are_retained fresh reached found translated
    (Regime.reaches_among_of_follow (by decide) followed') with
    ⟨-, -, -, unavailable, unheld, -, elsewhere, -⟩
  exact ⟨earlier, later, space, other, followed, found, translated, followed', held, found',
    unavailable, unheld, elsewhere 1 other found' (by decide)⟩

end Ledger

end PagedMemory
