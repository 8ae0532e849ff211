import PagedMemory.Proofs.Frames.FreeEntries

/-!
# Free stacks with arbitrary links

Nothing is assumed here of where the links of a table lead, except that they
stay inside it: they may run in circles, meet, or end at allocated frames, and
the counter may be anything.

The list that the links spell is of no use then.  What is left is the entry of
each frame on its own.  The entry of a frame that was taken says "allocated"
until the frame is put back, so the frame is not taken twice in between; and
every frame that is taken uses up one free entry, so taking frames comes to an
end even if the links run in a circle.
-/

namespace PagedMemory

/-- The link of an entry, if it has one, leads to an entry of a table of that
size. -/
def FrameEntry.LinksBelow (size : Nat) : FrameEntry → Prop
  | .allocated => True
  | .free next => ∀ index ∈ next, index < size

namespace FreeStack

/-- One use of a free stack. -/
inductive Use where
  | pop
  | push (frame : Frame)
  deriving DecidableEq

/-- What a use was answered. -/
inductive Outcome where
  | popped (result : Except TakeError Frame)
  | pushed (frame : Frame) (result : Except ReleaseError Unit)
  deriving DecidableEq

def use (stack : FreeStack) : Use → Checked (Outcome × FreeStack)
  | .pop => do
      let (result, stack) ← stack.pop
      return (.popped result, stack)
  | .push frame => do
      let (result, stack) ← stack.push frame
      return (.pushed frame result, stack)

/-- Use a stack several times, with the answers in order. -/
def useAll (stack : FreeStack) : List Use → Checked (List Outcome × FreeStack)
  | [] => return ([], stack)
  | next :: rest => do
      let (outcome, stack) ← stack.use next
      let (outcomes, stack) ← stack.useAll rest
      return (outcome :: outcomes, stack)

/-- The head and all links are indices into the table. -/
structure Linked (stack : FreeStack) : Prop where
  head : ∀ index ∈ stack.head, index < stack.total
  links : ∀ entry ∈ stack.entries, entry.LinksBelow stack.total

/-- The entry of a frame says that the frame is allocated. -/
def Withholds (stack : FreeStack) (frame : Frame) : Prop :=
  ∃ index, frame.number = stack.first.number + index ∧
    stack.entries[index]? = some .allocated

/-- No further frame can be taken.  Frames without a number come last: they only
exist in a table that goes beyond physical memory. -/
inductive Halted (stack : FreeStack) : Prop where
  | refused (refusal : TakeError)
      (popped : stack.pop = .ok (.error refusal, stack))
  | overdrawn (popped : stack.pop = .error .counterUnderflow)
  | unnamed (beyond : blockLimit < stack.first.number + stack.total)
      (popped : stack.pop = .error .frameNumberTooLarge)

variable {stack after : FreeStack} {frame : Frame} {panic : Panic}

/-! ## Panics -/

/-- A table whose links stay inside it is never indexed out of bounds by taking
a frame. -/
theorem Linked.pop_panics (linked : stack.Linked)
    (panicked : stack.pop = .error panic) :
    panic = .counterUnderflow ∨ panic = .frameNumberTooLarge ∧
      blockLimit < stack.first.number + stack.total := by
  cases popPanics_of_pop panicked with
  | outside top outside =>
      exact absurd (linked.head _ top) (Nat.not_lt_of_le outside)
  | overdrawn => exact .inl rfl
  | unnamed top inside beyond =>
      exact .inr ⟨rfl, Nat.lt_of_le_of_lt beyond (Nat.add_lt_add_left inside _)⟩

/-! ## What a use does -/

/-- What one use of a stack may do. -/
inductive Uses (stack : FreeStack) : Use → Outcome → FreeStack → Prop
  | pop {result : Except TakeError Frame} {after : FreeStack}
      (pops : stack.Pops result after) : Uses stack .pop (.popped result) after
  | push {frame : Frame} {result : Except ReleaseError Unit} {after : FreeStack}
      (pushes : stack.Pushes frame result after) :
      Uses stack (.push frame) (.pushed frame result) after

theorem uses_of_use {next : Use} {outcome : Outcome}
    (used : stack.use next = .ok (outcome, after)) :
    stack.Uses next outcome after := by
  cases next with
  | pop =>
      obtain ⟨⟨result, rest⟩, popped, answered⟩ := Checked.bind_eq_ok.mp used
      cases answered
      exact .pop (pops_of_pop popped)
  | push frame =>
      obtain ⟨⟨result, rest⟩, pushed, answered⟩ := Checked.bind_eq_ok.mp used
      cases answered
      exact .push (pushes_of_push pushed)

/-- The first of several uses is answered, and the others follow from what it leaves. -/
theorem useAll_cons {next : Use} {rest : List Use} {outcomes : List Outcome}
    (used : stack.useAll (next :: rest) = .ok (outcomes, after)) :
    ∃ outcome between others, stack.Uses next outcome between ∧
      between.useAll rest = .ok (others, after) ∧ outcomes = outcome :: others := by
  obtain ⟨⟨outcome, between⟩, first, continued⟩ := Checked.bind_eq_ok.mp used
  obtain ⟨⟨others, last⟩, followed, answered⟩ := Checked.bind_eq_ok.mp continued
  cases answered
  exact ⟨outcome, between, others, uses_of_use first, followed, rfl⟩

/-- What each use keeps holds after all of them. -/
theorem useAll_keeps (Good : FreeStack → Prop)
    (each : ∀ {before next outcome after}, Good before →
      before.Uses next outcome after → Good after)
    {uses : List Use} {outcomes : List Outcome} (good : Good stack)
    (used : stack.useAll uses = .ok (outcomes, after)) : Good after := by
  induction uses generalizing stack outcomes with
  | nil =>
      cases used
      exact good
  | cons next rest induction =>
      obtain ⟨outcome, between, others, first, followed, rfl⟩ := useAll_cons used
      exact induction (each good first) followed

theorem Uses.bounds {next : Use} {outcome : Outcome}
    (uses : stack.Uses next outcome after) : after.bounds = stack.bounds := by
  cases uses with
  | pop pops => exact pops.bounds
  | push pushes => exact pushes.bounds

/-! ## Links stay inside the table -/

/-- An entry may be replaced by another one whose link stays inside the table. -/
theorem Linked.replace (linked : stack.Linked) {target : Nat}
    {entry : FrameEntry} (inside : target < stack.entries.size)
    {head : Option Nat} {count : Nat}
    (below : entry.LinksBelow stack.total)
    (top : ∀ index ∈ head, index < stack.total) :
    Linked { stack with
      entries := stack.entries.set target entry
      head
      freeCount := count } where
  head := by
    simpa only [total, Array.size_set] using top
  links := by
    intro other member
    simp only [total, Array.size_set]
    rcases Array.mem_or_eq_of_mem_set (w := inside) member with old | rfl
    · exact linked.links other old
    · exact below

theorem Linked.uses (linked : stack.Linked) {next : Use} {outcome : Outcome}
    (uses : stack.Uses next outcome after) : after.Linked := by
  cases uses with
  | pop pops =>
      cases pops with
      | exhausted empty => exact linked
      | corrupt top number tag => exact linked
      | taken top number inside tag counted =>
          have links := linked.links _ (Array.getElem_mem inside)
          rw [tag] at links
          exact linked.replace inside trivial links
  | push pushes =>
      cases pushes with
      | outOfRange absent => exact linked
      | doubleFree found tag => exact linked
      | put found unreserved inside tag countable =>
          refine linked.replace inside linked.head fun index top => ?_
          rw [← Option.mem_some.mp top]
          exact inside

theorem Linked.use_panics (linked : stack.Linked) {next : Use}
    (routed : ∀ frame, next = .push frame →
      stack.first.number + stack.reserved ≤ frame.number)
    (panicked : stack.use next = .error panic) :
    panic = .counterUnderflow ∨
      panic = .counterOverflow ∧ UInt64.size ≤ stack.freeCount + 1 ∨
      panic = .frameNumberTooLarge ∧ blockLimit < stack.first.number + stack.total := by
  cases next with
  | pop =>
      rcases Checked.bind_eq_error.mp panicked with failed | ⟨_, _, ⟨⟩⟩
      exact (linked.pop_panics failed).imp_right .inr
  | push frame =>
      rcases Checked.bind_eq_error.mp panicked with failed | ⟨_, _, ⟨⟩⟩
      obtain ⟨rfl, full, -⟩ := overfull_of_push (routed frame rfl) failed
      exact .inr (.inl ⟨rfl, full⟩)

/-- Each use raises the counter by one at most. -/
theorem Uses.freeCount_le {next : Use} {outcome : Outcome}
    (uses : stack.Uses next outcome after) : after.freeCount ≤ stack.freeCount + 1 := by
  cases uses with
  | pop pops =>
      cases pops with
      | exhausted empty => exact Nat.le_succ _
      | corrupt top number tag => exact Nat.le_succ _
      | taken top number inside tag counted =>
          exact Nat.le_succ_of_le (Nat.sub_le _ _)
  | push pushes =>
      cases pushes with
      | outOfRange absent => exact Nat.le_succ _
      | doubleFree found tag => exact Nat.le_succ _
      | put found unreserved inside tag countable => exact Nat.le_refl _

/-- Uses of a linked stack panic only at the ends of the counter, if the table lies
in physical memory, and at the upper end only if there are enough of them to reach it. -/
theorem Linked.useAll_panics (linked : stack.Linked) {uses : List Use}
    (routed : ∀ frame, .push frame ∈ uses →
      stack.first.number + stack.reserved ≤ frame.number)
    (panicked : stack.useAll uses = .error panic) :
    panic = .counterUnderflow ∨
      panic = .counterOverflow ∧ UInt64.size ≤ stack.freeCount + uses.length ∨
      panic = .frameNumberTooLarge ∧ blockLimit < stack.first.number + stack.total := by
  induction uses generalizing stack with
  | nil => cases panicked
  | cons next rest induction =>
      rw [List.length_cons]
      rcases Checked.bind_eq_error.mp panicked with
        failed | ⟨⟨outcome, between⟩, used, continued⟩
      · have reasons := linked.use_panics
          (fun frame same => routed frame (same ▸ List.mem_cons_self)) failed
        exact reasons.imp_right (Or.imp_left (And.imp_right (by omega)))
      · rcases Checked.bind_eq_error.mp continued with later | ⟨_, _, ⟨⟩⟩
        have step := uses_of_use used
        have raised := step.freeCount_le
        obtain ⟨first, total, reserved⟩ := TableBounds.mk.inj step.bounds
        have reasons := induction (linked.uses step) (fun frame member => by
          rw [first, reserved]
          exact routed frame (List.mem_cons_of_mem _ member)) later
        rw [first, total] at reasons
        exact reasons.imp_right (Or.imp_left (And.imp_right (by omega)))

/-! ## A frame is handed out once -/

/-- Changing another entry does not touch the entry of a frame. -/
theorem Withholds.replace (withholds : stack.Withholds frame) {target : Nat}
    {entry : FrameEntry} (inside : target < stack.entries.size)
    {head : Option Nat} {count : Nat}
    (kept : frame.number = stack.first.number + target → entry = .allocated) :
    Withholds { stack with
      entries := stack.entries.set target entry
      head
      freeCount := count } frame := by
  obtain ⟨index, number, found⟩ := withholds
  refine ⟨index, number, ?_⟩
  by_cases same : target = index
  · subst same
    simp [inside, kept number]
  · rw [Array.getElem?_set_ne inside same]
    exact found

/-- A frame that is taken is withheld from then on, and was not before. -/
theorem Pops.withholds (pops : stack.Pops (.ok frame) after) :
    after.Withholds frame ∧ ¬ stack.Withholds frame := by
  cases pops with
  | @taken index _ next top number inside tag counted =>
      refine ⟨⟨index, number, by simp [inside]⟩, ?_⟩
      rintro ⟨index', number', found⟩
      obtain rfl : index = index' := by omega
      rw [Array.getElem?_eq_getElem inside, tag] at found
      cases found

/-- A frame is withheld until it is put back. -/
theorem Withholds.uses (withholds : stack.Withholds frame) {next : Use}
    {outcome : Outcome} (uses : stack.Uses next outcome after)
    (unreturned : outcome ≠ .pushed frame (.ok ())) : after.Withholds frame := by
  cases uses with
  | pop pops =>
      cases pops with
      | exhausted empty => exact withholds
      | corrupt top number tag => exact withholds
      | taken top number inside tag counted =>
          exact withholds.replace inside fun _ => rfl
  | @push other _ _ pushes =>
      cases pushes with
      | outOfRange absent => exact withholds
      | doubleFree found tag => exact withholds
      | put found unreserved inside tag countable =>
          refine withholds.replace inside fun number => ?_
          obtain ⟨number', -⟩ := indexOf?_eq_some_iff.mp found
          have same : other = frame :=
            Block.number_inj.mp (number'.trans number.symm)
          exact absurd (congrArg (Outcome.pushed · (.ok ())) same) unreturned

/-- A withheld frame is taken only after it was put back. -/
theorem Withholds.returned (withholds : stack.Withholds frame) {uses : List Use}
    {between later : List Outcome}
    (used : stack.useAll uses =
      .ok (between ++ .popped (.ok frame) :: later, after)) :
    .pushed frame (.ok ()) ∈ between := by
  induction uses generalizing stack between with
  | nil => simp [useAll, pure, Except.pure] at used
  | cons next rest induction =>
      obtain ⟨outcome, second, others, first, followed, listed⟩ := useAll_cons used
      cases between with
      | nil =>
          obtain ⟨rfl, rfl⟩ := List.cons.inj listed
          cases first with
          | pop pops => exact absurd withholds pops.withholds.2
      | cons answer between =>
          obtain ⟨rfl, rfl⟩ := List.cons.inj listed
          by_cases returned : answer = .pushed frame (.ok ())
          · exact returned ▸ List.mem_cons_self
          · exact List.mem_cons_of_mem _
              (induction (withholds.uses first returned) followed)

/-- Between two times that a frame is taken it was put back. -/
theorem returned_between {uses : List Use} {earlier between later : List Outcome}
    (used : stack.useAll uses = .ok (earlier ++ .popped (.ok frame) ::
      (between ++ .popped (.ok frame) :: later), after)) :
    .pushed frame (.ok ()) ∈ between := by
  induction uses generalizing stack earlier with
  | nil => simp [useAll, pure, Except.pure] at used
  | cons next rest induction =>
      obtain ⟨outcome, second, others, first, followed, listed⟩ := useAll_cons used
      cases earlier with
      | nil =>
          obtain ⟨rfl, rfl⟩ := List.cons.inj listed
          cases first with
          | pop pops => exact pops.withholds.1.returned followed
      | cons answer earlier =>
          obtain ⟨rfl, rfl⟩ := List.cons.inj listed
          exact induction followed

/-! ## Taking frames comes to an end -/

/-- Either no further frame can be taken, or one is. -/
theorem Linked.halted_or_pops (linked : stack.Linked) :
    stack.Halted ∨ ∃ frame rest, stack.pop = .ok (.ok frame, rest) := by
  cases popped : stack.pop with
  | error reason =>
      rcases linked.pop_panics popped with rfl | ⟨rfl, beyond⟩
      · exact .inl (.overdrawn popped)
      · exact .inl (.unnamed beyond popped)
  | ok answered =>
      obtain ⟨result, rest⟩ := answered
      cases result with
      | error refusal =>
          obtain rfl := (pops_of_pop popped).eq_of_error
          exact .inl (.refused refusal popped)
      | ok frame => exact .inr ⟨frame, rest, rfl⟩

/-- Frames are taken one after the other until no further one can be, and there
are no more of them than free entries. -/
theorem Linked.drains (linked : stack.Linked) :
    ∃ (frames : List Frame) (last : FreeStack),
      frames.length ≤ stack.freeEntries ∧
      stack.useAll (List.replicate frames.length .pop) =
        .ok (frames.map fun frame => .popped (.ok frame), last) ∧
      last.Halted := by
  induction free : stack.freeEntries using Nat.strongRecOn
    generalizing stack with
  | ind count induction =>
      rcases linked.halted_or_pops with halted | ⟨frame, rest, popped⟩
      · exact ⟨[], stack, Nat.zero_le _, rfl, halted⟩
      · -- one free entry fewer is left for the frames that follow
        have pops := pops_of_pop popped
        have fewer := pops.freeEntries
        obtain ⟨frames, last, bound, drained, halted⟩ :=
          induction rest.freeEntries (by omega) (linked.uses (.pop pops)) rfl
        have used : stack.use .pop = .ok (.popped (.ok frame), rest) := by
          simp only [use, popped]
          rfl
        refine ⟨frame :: frames, last, ?_, ?_, halted⟩
        · rw [List.length_cons]
          omega
        · simp only [List.length_cons, List.replicate_succ, useAll, used, bind,
            Except.bind, drained]
          rfl

/-! ## The stack as a whole -/

/-- A table whose head and links stay inside it, and are arbitrary otherwise, is
never indexed out of bounds.  If its frames have numbers, it panics only where the
counter would leave its word, at the lower end or, after enough uses to get there,
at the upper one.  It hands a frame out again only after the frame was put back, says
of a damaged top which frame that is and leaves everything as it is, and runs out of
frames after as many as it has free entries. -/
theorem damaged_stack_hands_out_once {uses : List Use} (linked : stack.Linked)
    (routed : ∀ frame, .push frame ∈ uses →
      stack.first.number + stack.reserved ≤ frame.number) :
    (∀ panic, stack.useAll uses = .error panic →
      panic = .counterUnderflow ∨
        panic = .counterOverflow ∧ UInt64.size ≤ stack.freeCount + uses.length ∨
        panic = .frameNumberTooLarge ∧ blockLimit < stack.first.number + stack.total) ∧
    ∀ outcomes after, stack.useAll uses = .ok (outcomes, after) →
      after.Linked ∧ after.bounds = stack.bounds ∧
      (∀ earlier between later frame,
        outcomes = earlier ++ .popped (.ok frame) ::
          (between ++ .popped (.ok frame) :: later) →
        .pushed frame (.ok ()) ∈ between) ∧
      (∀ address rest, after.pop = .ok (.error (.corrupt address), rest) →
        rest = after ∧ ∃ (index : Nat) (frame : Frame), after.head = some index ∧
          after.entries[index]? = some .allocated ∧
          frame.number = after.first.number + index ∧ address = frame.base) ∧
      ∃ (frames : List Frame) (last : FreeStack),
        frames.length ≤ after.freeEntries ∧
        after.useAll (List.replicate frames.length .pop) =
          .ok (frames.map fun frame => .popped (.ok frame), last) ∧
        last.Halted := by
  refine ⟨fun panic => linked.useAll_panics routed, fun outcomes after used => ?_⟩
  have linked' : after.Linked :=
    useAll_keeps Linked (fun linked step => linked.uses step) linked used
  have bounds : after.bounds = stack.bounds :=
    useAll_keeps (fun later => later.bounds = stack.bounds)
      (fun same step => step.bounds.trans same) rfl used
  refine ⟨linked', bounds, ?_, ?_, linked'.drains⟩
  · rintro earlier between later frame rfl
    exact returned_between used
  · intro address rest popped
    have pops := pops_of_pop popped
    refine ⟨pops.eq_of_error, ?_⟩
    cases pops with
    | corrupt top number tag => exact ⟨_, _, top, tag, number, rfl⟩

/-- Three entries, the first one allocated and the other two in a circle. -/
def circular : FreeStack :=
  { first := ⟨16, by decide⟩
    entries := #[.allocated, .free (some 2), .free (some 1)]
    reserved := 1
    head := some 1
    freeCount := 5 }

/-- A circle is gone round once.  The frame that is handed out again was put back
before, and no frame is left although the counter says three. -/
theorem damaged_stack_hands_out_once_in_circle :
    let second : Frame := ⟨17, by decide⟩
    let third : Frame := ⟨18, by decide⟩
    let uses : List Use := [.pop, .pop, .push second, .pop]
    ∃ after, circular.useAll uses = .ok
        ([.popped (.ok second), .popped (.ok third), .pushed second (.ok ()),
          .popped (.ok second)], after) ∧
      circular.Linked ∧ after.Linked ∧ after.freeCount = 3 ∧
      .pushed second (.ok ()) ∈
        [Outcome.popped (.ok third), .pushed second (.ok ())] ∧
      after.pop = .ok (.error (.corrupt second.base), after) := by
  intro second third uses
  have linked : circular.Linked :=
    ⟨by simp [circular, total], by simp [circular, total, FrameEntry.LinksBelow]⟩
  have routed : ∀ frame, .push frame ∈ uses →
      circular.first.number + circular.reserved ≤ frame.number := by
    intro frame member
    obtain rfl : frame = second := by simpa [uses] using member
    decide
  obtain ⟨-, answers⟩ := damaged_stack_hands_out_once linked routed
  obtain ⟨linked', -, once, -, -⟩ := answers _ _ rfl
  exact ⟨_, rfl, linked, linked', rfl,
    once [] [.popped (.ok third), .pushed second (.ok ())] [] second rfl, rfl⟩

end FreeStack

end PagedMemory
