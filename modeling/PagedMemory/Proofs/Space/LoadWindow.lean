import PagedMemory.Space.LoadWindow
import PagedMemory.Proofs.Space.Declare

/-!
# Opening and closing the load window

Neither operation touches a frame.  Opening a window cannot find rights that are
kept aside already, because no region keeps any while the window is closed.
-/

namespace PagedMemory.AddressSpace

open Memory

variable {memory : Memory}

/-- A closed window can be opened: no region has rights aside yet. -/
theorem openWindow_total {entries : List Region}
    (settled : ∀ region ∈ entries, region.saved = none) :
    ∃ opened, entries.mapM Region.openWindow = .ok opened := by
  induction entries with
  | nil => exact ⟨[], rfl⟩
  | cons region rest induction =>
      have fresh := settled region List.mem_cons_self
      rcases induction fun other member => settled other (List.mem_cons_of_mem _ member)
        with ⟨opened, mapped⟩
      refine ⟨{ region with
        rights := region.rights.set .write true
        saved := some region.rights } :: opened, ?_⟩
      rw [List.mapM_cons, mapped]
      simp only [Region.openWindow, Checked.require_of fresh, bind, Except.bind, pure,
        Except.pure]

theorem openWindow_ensures {space : AddressSpace} (settled : space.Settled)
    (sound : memory.pool.Sound) (tree : memory.ram.Tree space.root) :
    Ensures space.openWindow memory fun outcome after =>
      Changes memory space outcome.2 [] [] after := by
  unfold openWindow
  cases loading : space.loading with
  | true =>
      rw [if_pos rfl]
      exact Ensures.pure (.refl sound tree)
  | false =>
      rw [if_neg Bool.false_ne_true]
      rcases openWindow_total (settled loading) with ⟨opened, mapped⟩
      have widened : space.regions.openWindow = .ok { space.regions with entries := opened } := by
        rw [RegionList.openWindow, mapped]
        rfl
      apply Ensures.lift_then widened
      apply Ensures.record_then
      have changes : Changes memory space { space with
          regions := { space.regions with entries := opened }
          loading := true } [] [] memory := by
        refine ⟨.refl sound tree, rfl, rfl, rfl, ?_⟩
        intro _ closed
        cases closed
      exact Ensures.pure (changes.record rfl)

theorem closeWindow_ensures {space : AddressSpace} (sound : memory.pool.Sound)
    (tree : memory.ram.Tree space.root) :
    Ensures space.closeWindow memory fun outcome after =>
      Changes memory space outcome.2 [] [] after := by
  unfold closeWindow
  cases loading : space.loading with
  | false =>
      rw [if_neg Bool.false_ne_true]
      exact Ensures.pure (.refl sound tree)
  | true =>
      rw [if_pos rfl]
      apply Ensures.record_then
      have changes : Changes memory space { space with
          regions := space.regions.closeWindow
          loading := false } [] [] memory := by
        refine ⟨.refl sound tree, rfl, rfl, rfl, ?_⟩
        intro _ _ region member
        rcases List.mem_map.mp member with ⟨opened, -, rfl⟩
        unfold Region.closeWindow
        split
        · rfl
        · assumption
      exact Ensures.pure (changes.record rfl)

end PagedMemory.AddressSpace
