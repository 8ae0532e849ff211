import PagedMemory.Space.PageFault
import PagedMemory.Proofs.Space.Pages

/-!
# Serving a page fault

A fault takes a frame and puts it behind the page; if the page does not take it,
the frame goes straight back.  Either way the tree of the space stays a tree, and
its page map has been extended by the answer or is as it was.
-/

namespace PagedMemory.AddressSpace

open Memory

variable {memory : Memory} {rest : List Frame}

/-- The entry that a fault has made, by its answer. -/
def faulted? (address : VirtAddr) : Except FaultError Frame → Option (Page × Frame)
  | .ok frame => some (address.block, frame)
  | .error _ => none

/-- What a page fault comes to for the tree of its space, and the entry it has made. -/
structure Faults (before : Memory) (root : Frame) (added? : Option (Page × Frame))
    (after : Memory) : Prop where
  settles : Settles before (before.ram.reach root) after (after.ram.reach root)
  tree : after.ram.Tree root
  unbacked : ∀ entry ∈ added?, before.ram.behind root entry.1 = none
  behind : after.ram.behind root = PageMap.extend (before.ram.behind root) added?
  lostFrames : after.lostFrames = before.lostFrames

/-- A fault that came to nothing. -/
theorem Faults.of_same {before after : Memory} {root : Frame}
    (settles : Settles before (before.ram.reach root) after (before.ram.reach root))
    (same : after.ram.Tree root ∧ after.ram.reach root = before.ram.reach root)
    (behind : after.ram.behind root = before.ram.behind root)
    (lostFrames : after.lostFrames = before.lostFrames) : Faults before root none after := by
  refine ⟨?_, same.1, ?_, behind, lostFrames⟩
  · rw [same.2]
    exact settles
  · intro entry member
    cases member

/-- The frame of a fault that came to nothing goes straight back. -/
theorem giveBack_ensures {between : Memory} {root frame : Frame}
    (owns : between.Owns (frame :: between.ram.reach root))
    (kept : between.ram.Tree root ∧ between.ram.reach root = memory.ram.reach root)
    (behind : between.ram.behind root = memory.ram.behind root)
    (taken : Exchange memory (memory.ram.reach root) between (frame :: memory.ram.reach root))
    (lostFrames : between.lostFrames = memory.lostFrames) (error : FaultError) :
    Ensures (do let _ ← releaseFrame frame; return (.error error : Except FaultError Frame))
      between fun result after =>
        result = .error error ∧ Faults memory root none after := by
  refine (releaseFrame_ensures owns List.mem_cons_self).bind ?_
  rintro _ after ⟨rfl, gone, returns⟩
  have settles : Settles memory (memory.ram.reach root) after (memory.ram.reach root) := by
    refine ⟨gone, taken.trans (returns.exchange.beside (memory.ram.reach root)), ?_⟩
    rw [← taken.territory]
    exact returns.unmanaged
  rw [← returns.ram] at kept behind
  exact Ensures.pure ⟨rfl, .of_same settles kept behind (returns.lostFrames.trans lostFrames)⟩

theorem serveFault_ensures {space : AddressSpace}
    (owns : memory.Owns (memory.ram.reach space.root ++ rest))
    (tree : memory.ram.Tree space.root) (address : VirtAddr) :
    Ensures (space.serveFault address) memory
      fun result after => Faults memory space.root (faulted? address result) after := by
  unfold serveFault
  cases space.rightsAt? address with
  | none =>
      exact Ensures.pure (.of_same (.of_exchange (.refl owns.sound _)) ⟨tree, rfl⟩ rfl rfl)
  | some rights =>
      refine (takeZeroed_ensures owns).bind ?_
      intro result between obtains
      cases result with
      | error refusal =>
          have same := obtains.ram_of_refused
          have extension := Extends.of_refused owns.sound obtains (memory.ram.reach space.root)
          refine Ensures.pure (.of_same (.of_exchange extension.exchange) ?_ ?_
            extension.lostFrames)
          · rw [same]
            exact ⟨tree, rfl⟩
          · rw [same]
      | ok frame =>
          have taken := obtains.extension
          have among : ∀ other ∈ memory.ram.reach space.root,
              other ∈ memory.ram.reach space.root ++ rest :=
            fun other member => List.mem_append_left rest member
          have kept := taken.exchange.tree owns tree among
          have behind : between.ram.behind space.root = memory.ram.behind space.root :=
            Ram.behind_congr fun other member => taken.kept owns (among other member)
          have beside : Exchange memory (memory.ram.reach space.root) between
              (frame :: memory.ram.reach space.root) :=
            taken.exchange.beside (memory.ram.reach space.root)
          have owned : between.Owns (frame :: between.ram.reach space.root) := by
            rw [kept.2]
            exact beside.owns owns.left
          refine (attach_ensures owned kept.1 address).bind ?_
          intro outcome later attaches
          cases attaches with
          | attached exchange tree' unbacked extended pool log =>
              rw [kept.2] at exchange
              rw [behind] at unbacked extended
              refine Ensures.pure ⟨.of_exchange (beside.trans exchange), tree', ?_, extended, ?_⟩
              · intro entry member
                cases member
                exact unbacked
              · rw [← taken.lostFrames, Memory.lostFrames, log]
                rfl
          | refused =>
              refine (giveBack_ensures owned kept behind beside taken.lostFrames _).imp ?_
              rintro result after ⟨rfl, faults⟩
              exact faults

end PagedMemory.AddressSpace
