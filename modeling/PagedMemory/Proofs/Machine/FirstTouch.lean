import PagedMemory.Proofs.Machine.Growth

/-!
# The first touch of a page

Whether an access is legal is told from regions and from the bounds of the user stack;
whether a frame can be put behind a page is told from the directory.  Where everything
succeeds the two agree on the pages of regions.  They differ on the user stack alone,
which is always legal but has a table only if it was asked for, or if some region
happens to have a page in the same slot of the directory.
-/

namespace PagedMemory

open Memory

namespace Machine

/-! ## Runs in which spaces only grow -/

variable {start machine : Machine} {lineage : Nat → Lineage}

/--
Runs in which spaces are only added to and every command about a space is carried out,
with the lineages that spaces come to have.
-/
abbrev growing : Regime (Machine × (Nat → Lineage)) :=
  (Regime.unrestricted.restrict fun _ command answer =>
    command.adds = true ∧ command.CarriedOut answer).recording
      fun machine lineage command answer _ => machine.traced lineage command answer

/-- Lineages tell of no refusal if none is added to them. -/
theorem accepted_of_traced {command : Command} {answer : Answer}
    (clean : ∀ name, ∀ entry ∈ lineage name, entry.2.accepted = true)
    (carriedOut : command.CarriedOut answer) (name : Nat) :
    ∀ entry ∈ machine.traced lineage command answer name, entry.2.accepted = true := by
  have old := clean name
  unfold traced
  split
  next made root =>
    rw [Function.update_apply]
    split
    · exact List.forall_mem_nil _
    · exact old
  next source copy heap root =>
    rw [Function.update_apply]
    split
    · unfold inherited
      split
      · exact List.forall_mem_nil _
      · split
        · exact List.forall_mem_nil _
        · exact clean source
    · exact old
  next changed command =>
    rw [Function.update_apply]
    split
    · intro entry member
      rcases List.mem_append.mp member with earlier | last
      · exact clean changed entry earlier
      · rw [List.mem_singleton.mp last]
        exact carriedOut rfl
    · exact old
  · exact old

/-- Directories stand as lineages say, and lineages tell of no refusal. -/
theorem tabled_of_growing {state : Machine × (Nat → Lineage)} (fresh : start.Fresh)
    (grown : growing.Reaches (start, fun _ => []) state) :
    state.1.Framed ∧ state.1.Tabled state.2 ∧
      ∀ name, ∀ entry ∈ state.2 name, entry.2.accepted = true := by
  induction grown with
  | refl =>
      refine ⟨fresh.framed, ?_, fun _ => List.forall_mem_nil _⟩
      intro name space found
      rw [fresh.spaces] at found
      cases found
  | step grown allowed executed induction =>
      rcases allowed with ⟨-, adds, carriedOut⟩
      rcases induction with ⟨framed, tabled, clean⟩
      rcases framed.step adds executed carriedOut with ⟨framed', rewires⟩
      exact ⟨framed', tabled.rewires rewires, accepted_of_traced clean carriedOut⟩

end Machine

namespace AddressSpace

/-- Where everything succeeded, tables stand exactly where something was asked for. -/
theorem Tabled.isSome_slot_iff {space : AddressSpace} {ram : Ram} {lineage : Lineage}
    (tabled : space.Tabled ram lineage)
    (clean : ∀ entry ∈ lineage, entry.2.accepted = true) (index : Nat) :
    (ram.slot space.root index).isSome = true ↔
      (∃ page ∈ space.recorded, page.directoryIndex = index) ∨
        ∃ page ∈ stackRun, page.directoryIndex = index ∧
          ∃ answer, (SpaceCommand.declareStack, answer) ∈ lineage := by
  constructor
  · intro filled
    rcases Option.isSome_iff_exists.mp filled with ⟨table, named⟩
    rcases tabled.origin index table named with ⟨page, place, recorded | ⟨stack, asked⟩⟩
    · exact Or.inl ⟨page, recorded, place⟩
    · exact Or.inr ⟨page, stack, place, asked⟩
  · rintro (⟨page, recorded, rfl⟩ | ⟨page, stack, rfl, answer, asked⟩)
    · rcases tabled.asked page recorded with ⟨command, answer, asked, inside⟩
      exact tabled.covered command answer asked (clean _ asked) page inside
    · exact tabled.covered .declareStack answer asked (clean _ asked) page stack

end AddressSpace

namespace Machine

variable {start machine : Machine} {lineage : Nat → Lineage} {name : Nat} {space : AddressSpace}

/--
In a run in which every command about a space succeeds, a frame can be put behind every
unbacked page that it is legal to touch, with one exception: the page belongs to the user
stack, which was never asked for, and no region has a page in the same slot of the
directory.
-/
theorem first_touch_served_iff (fresh : start.Fresh)
    (grown : growing.Reaches (start, fun _ => []) (machine, lineage))
    (found : machine.spaces.find? name = some space) {address : VirtAddr}
    (legal : (space.rightsAt? address).isSome = true) (frame : Frame) :
    ∃ behind result after,
      space.frameBehind address machine.memory = .ok (behind, machine.memory) ∧
      space.attach address frame machine.memory = .ok (result, after) ∧
      (result = .error (.undeclared address) ↔
        AddressSpace.inStack address = true ∧
        (∀ answer, (SpaceCommand.declareStack, answer) ∉ lineage name) ∧
        ∀ region ∈ space.regions.entries, ∀ page ∈ region.pages,
          page.directoryIndex ≠ Page.directoryIndex address.block) ∧
      (result = .ok () ↔ result ≠ .error (.undeclared address) ∧ behind = none) := by
  rcases tabled_of_growing fresh grown with ⟨framed, tabled, clean⟩
  have skeleton := framed.skeleton found
  have stands := (tabled name space found).isSome_slot_iff (clean name)
    (Page.directoryIndex address.block)
  rcases AddressSpace.frameBehind_ensures_of_skeleton skeleton address with
    ⟨_, _, looked, rfl, rfl⟩
  rcases AddressSpace.attach_decides skeleton address frame with
    ⟨result, after, returns, undeclared, -, served, -⟩
  refine ⟨_, result, after, looked, returns, ?_, ?_⟩
  · rw [undeclared, ← Option.not_isSome_iff_eq_none, stands, not_or]
    constructor
    · rintro ⟨elsewhere, unasked⟩
      -- A legal page that no region has is one of the stack.
      have stack : (address.block : Page) ∈ AddressSpace.stackRun := by
        refine (AddressSpace.isSome_rightsAt?_iff.mp legal).resolve_left fun recorded => ?_
        exact elsewhere ⟨_, recorded, rfl⟩
      refine ⟨AddressSpace.inStack_iff.mpr stack, fun answer asked => ?_,
        fun region member page inside place => ?_⟩
      · exact unasked ⟨_, stack, rfl, answer, asked⟩
      · exact elsewhere ⟨page, AddressSpace.mem_recorded.mpr ⟨region, member, inside⟩, place⟩
    · rintro ⟨-, unasked, elsewhere⟩
      refine ⟨?_, ?_⟩
      · rintro ⟨page, recorded, place⟩
        rcases AddressSpace.mem_recorded.mp recorded with ⟨region, member, inside⟩
        exact elsewhere region member page inside place
      · rintro ⟨_, _, _, answer, asked⟩
        exact unasked answer asked
  · rw [served, ← undeclared]

/-- The stack was asked for, but a copy without regions goes back to nothing. -/
theorem first_touch_served_iff_of_copied_stack :
    let commands : List Command := [
      .create 0, .change 0 .declareStack, .fork 0 1 .available, .pool .take]
    let touched : VirtAddr := ⟨0x7FFFF000⟩
    let frame : Frame := ⟨5, by decide⟩
    ∃ machine lineage space copy after,
      growing.follow (eightFrames, fun _ => []) commands = some (machine, lineage) ∧
      machine.spaces.find? 0 = some space ∧ machine.spaces.find? 1 = some copy ∧
      (space.rightsAt? touched).isSome = true ∧ (copy.rightsAt? touched).isSome = true ∧
      space.attach touched frame machine.memory = .ok (.ok (), after) ∧
      ∃ other, copy.attach touched frame machine.memory =
        .ok (.error (.undeclared touched), other) := by
  intro commands touched frame
  let stack : SpaceCommand × Answer := (.declareStack, .address ⟨0x80000000⟩)
  have outcome : (growing.follow (eightFrames, fun _ => []) commands).bind (fun reached =>
      (reached.1.spaces.find? 0).bind fun space => (reached.1.spaces.find? 1).map fun copy =>
        ((space.frameBehind touched reached.1.memory).toOption.map Prod.fst,
          [decide (stack ∈ reached.2 0), (space.rightsAt? touched).isSome,
            (reached.2 1).isEmpty, copy.regions.entries.isEmpty,
            (copy.rightsAt? touched).isSome])) =
      some (some none, [true, true, true, true, true]) := by
    decide +kernel
  rcases Option.bind_eq_some_iff.mp outcome with ⟨⟨machine, lineage⟩, ran, outcome⟩
  rcases Option.bind_eq_some_iff.mp outcome with ⟨space, found, outcome⟩
  rcases Option.map_eq_some_iff.mp outcome with ⟨copy, copied, observed⟩
  simp only [Prod.mk.injEq, List.cons.injEq, decide_eq_true_eq, List.isEmpty_iff] at observed
  rcases observed with ⟨unbacked, asked, legal, unasked, bare, legal', -⟩
  have fresh : eightFrames.Fresh := .bootstrapped starts_eightFrames
  have grown := Regime.reaches_of_follow ran
  rcases first_touch_served_iff fresh grown found legal frame with
    ⟨behind, result, after, looked, returns, refused, served⟩
  rcases first_touch_served_iff fresh grown copied legal' frame with
    ⟨_, result', after', -, returns', refused', -⟩
  have untouched : behind = none := by
    rw [looked] at unbacked
    exact Option.some.inj unbacked
  have success : result = .ok () :=
    served.mpr ⟨fun undeclared => (refused.mp undeclared).2.1 stack.2 asked, untouched⟩
  have failure : result' = .error (.undeclared touched) := by
    rw [unasked, bare] at refused'
    exact refused'.mpr ⟨by decide, fun _ => List.not_mem_nil, List.forall_mem_nil _⟩
  rw [success] at returns
  rw [failure] at returns'
  exact ⟨machine, lineage, space, copy, after, ran, found, copied, legal, legal', returns,
    after', returns'⟩

/-- A stack that was never asked for is legal to touch, but no frame can be put there. -/
theorem first_touch_of_unasked_stack_undeclared :
    let touched : VirtAddr := ⟨0x7FFFF000⟩
    let frame : Frame := ⟨3, by decide⟩
    ∃ made machine space after,
      (growing.follow (eightFrames, fun _ => []) [.create 0]).map Prod.fst = some made ∧
      made.execute (.pool .take) = .ok (.frame frame, machine) ∧
      machine.spaces.find? 0 = some space ∧
      space.rightsAt? touched = some .readWrite ∧
      space.attach touched frame machine.memory = .ok (.error (.undeclared touched), after) := by
  intro touched frame
  have outcome : ((growing.follow (eightFrames, fun _ => []) [.create 0]).map Prod.fst).bind
      (fun made => (made.execute (.pool .take)).toOption.bind fun taken =>
        (taken.2.spaces.find? 0).bind fun space =>
          (space.attach touched frame taken.2.memory).toOption.map fun attached =>
            (taken.1, space.rightsAt? touched, attached.1)) =
      some (Answer.frame frame, some Rights.readWrite, .error (SpaceError.undeclared touched)) := by
    decide +kernel
  rcases Option.bind_eq_some_iff.mp outcome with ⟨made, ran, outcome⟩
  rcases Option.bind_eq_some_iff.mp outcome with ⟨⟨answer, machine⟩, taken, outcome⟩
  rcases Option.bind_eq_some_iff.mp outcome with ⟨space, found, outcome⟩
  rcases Option.map_eq_some_iff.mp outcome with ⟨⟨result, after⟩, attached, observed⟩
  simp only [Prod.mk.injEq] at observed
  rcases observed with ⟨rfl, legal, rfl⟩
  exact ⟨made, machine, space, after, ran, Checked.ok_of_toOption taken, found, legal,
    Checked.ok_of_toOption attached⟩

end Machine

end PagedMemory
