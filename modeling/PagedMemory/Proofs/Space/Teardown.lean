import PagedMemory.Space.Teardown
import PagedMemory.Proofs.Memory.Ownership

/-!
# Tearing down gives everything back

A step of a teardown *releases* a list of frames if, whoever owns these frames,
it gives them back in order and meets no rejection.  Releasing is closed under
loops, so what a teardown gives back is read off its two nested loops: the data
frames and the table of every directory slot, and the root at the end.
-/

namespace PagedMemory.AddressSpace

open Memory

namespace Teardown

/-- A step gives back certain frames, as long as RAM is in a certain state. -/
def Releases (step : Teardown → MemoryM Teardown) (ram : Ram) (frames : List Frame) : Prop :=
  ∀ (progress : Teardown) (memory : Memory) (rest : List Frame),
    progress.outcome = .ok () → memory.ram = ram → memory.Owns (frames ++ rest) →
      Ensures (step progress) memory fun next after =>
        next.outcome = .ok () ∧ ∃ gone, Returns memory frames gone after

namespace Releases

variable {ram : Ram} {step next : Teardown → MemoryM Teardown} {first second : List Frame}

theorem release (frame : Frame) :
    Releases (fun progress => progress.release frame) ram [frame] := by
  intro progress memory rest clear _ owns
  unfold Teardown.release
  refine (releaseFrame_ensures owns List.mem_cons_self).bind ?_
  rintro _ after ⟨rfl, returns⟩
  rw [clear]
  exact Ensures.pure ⟨rfl, returns⟩

theorem releaseData (frame : Frame) :
    Releases (fun progress => progress.releaseData frame) ram [frame] := by
  intro progress memory rest clear same owns
  refine (release frame progress memory rest clear same owns).bind ?_
  rintro next after ⟨stillClear, returns⟩
  exact Ensures.pure ⟨stillClear, returns⟩

/-- One step after another. -/
theorem andThen (earlier : Releases step ram first) (later : Releases next ram second) :
    Releases (fun progress => step progress >>= next) ram (first ++ second) := by
  intro progress memory rest clear same owns
  rw [List.append_assoc] at owns
  refine (earlier progress memory (second ++ rest) clear same owns).bind ?_
  rintro halfway between ⟨clearBetween, gone, returns⟩
  have owns' : between.Owns (second ++ (rest ++ gone)) := by
    have left := (returns.exchange.beside (second ++ rest)).owns owns
    have shuffled : (gone ++ (second ++ rest)).Perm ((second ++ rest) ++ gone) :=
      List.perm_append_comm
    rw [List.append_assoc] at shuffled
    exact left.of_perm shuffled
  refine (later halfway between (rest ++ gone) clearBetween
    (returns.ram.trans same) owns').imp ?_
  rintro result after ⟨clearAfter, lost, returns'⟩
  exact ⟨clearAfter, gone ++ lost, returns.trans returns'⟩

/-- A loop over steps. -/
theorem foldlM {α : Type} {body : Teardown → α → MemoryM Teardown}
    {frames : α → List Frame} {items : List α}
    (each : ∀ item ∈ items, Releases (fun progress => body progress item) ram (frames item)) :
    Releases (fun progress => items.foldlM body progress) ram (items.flatMap frames) := by
  induction items with
  | nil =>
      intro progress memory rest clear _ owns
      exact Ensures.pure ⟨clear, [], .refl owns.sound⟩
  | cons item items induction =>
      have first := each item List.mem_cons_self
      have others := induction fun other member => each other (List.mem_cons_of_mem _ member)
      exact first.andThen others

theorem releaseTable (table : Frame) :
    Releases (fun progress => progress.releaseTable table) ram (ram.branch table) := by
  intro progress memory rest clear same owns
  have held : memory.ram.holds table = true := by
    apply owns.held_of_mem
    apply List.mem_append_left
    exact List.mem_append_right _ List.mem_cons_self
  refine (backed_ensures held).bind ?_
  rintro found memory ⟨rfl, listed⟩
  rw [same] at listed
  have data : Releases (fun progress => found.foldlM
      (fun progress entry => progress.releaseData entry.2) progress) ram
      (ram.dataFrames table) := by
    rw [Ram.dataFrames, ← listed, List.map_eq_flatMap]
    exact foldlM fun entry _ => releaseData entry.2
  exact data.andThen (release table) progress memory rest clear same owns

end Releases

end Teardown

variable {memory : Memory} {rest : List Frame}

/-- The whole tree is released, the root last. -/
theorem teardown_ensures {space : AddressSpace} (live : space.released = false)
    (owns : memory.Owns (memory.ram.reach space.root ++ rest)) :
    Ensures space.teardown memory fun outcome after =>
      outcome = (.ok (), { space with regions := .empty, released := true }) ∧
        ∃ gone, Returns memory (memory.ram.reach space.root) gone after := by
  have held : memory.ram.holds space.root = true :=
    owns.held_of_mem (List.mem_append_left rest (Ram.root_mem_reach _ _))
  unfold teardown
  rw [live, if_neg Bool.false_ne_true]
  refine (tables_ensures held).bind ?_
  rintro found memory ⟨rfl, listed⟩
  have branches : Teardown.Releases (fun progress => found.foldlM
      (fun progress entry => progress.releaseTable entry.2) progress) memory.ram
      (found.flatMap fun entry => memory.ram.branch entry.2) :=
    Teardown.Releases.foldlM fun entry _ => Teardown.Releases.releaseTable entry.2
  have whole := branches.andThen (Teardown.Releases.release space.root)
  rw [listed, ← Ram.reach_eq] at whole
  rw [listed]
  have released := whole Teardown.start memory rest rfl rfl owns
  rw [← bind_assoc]
  refine released.bind ?_
  rintro progress between ⟨clear, gone, returns⟩
  apply Ensures.record_then
  rw [clear]
  exact Ensures.pure ⟨rfl, gone, returns.record rfl⟩

/-- A space that was torn down before gives nothing back. -/
theorem discard_of_released {space : AddressSpace} (released : space.released = true) :
    space.discard memory = .ok ((), memory) := by
  simp only [discard, teardown, released, if_true]
  rfl

theorem discard_ensures {space : AddressSpace} (live : space.released = false)
    (owns : memory.Owns (memory.ram.reach space.root ++ rest)) :
    Ensures space.discard memory fun _ after =>
      ∃ gone, Returns memory (memory.ram.reach space.root) gone after := by
  refine (teardown_ensures live owns).bind ?_
  rintro _ after ⟨rfl, returns⟩
  exact Ensures.pure returns

theorem destroy_ensures {space : AddressSpace} (live : space.released = false)
    (owns : memory.Owns (memory.ram.reach space.root ++ rest)) :
    Ensures space.destroy memory fun outcome after =>
      outcome = .ok () ∧
        ∃ gone, Returns memory (memory.ram.reach space.root) gone after := by
  refine (teardown_ensures live owns).bind ?_
  rintro _ after ⟨rfl, returns⟩
  have silent : Ensures (discard { space with regions := .empty, released := true }) after
      fun _ later => later = after :=
    Ensures.of_eq (discard_of_released rfl) rfl
  refine silent.bind ?_
  rintro _ later rfl
  exact Ensures.pure ⟨rfl, returns⟩

end PagedMemory.AddressSpace
