import PagedMemory.Proofs.Machine.LoadWindows
import PagedMemory.Proofs.Space.Legal

/-!
# Writing through an open window

Opening the load window makes the regions writable that are there at that moment.
A region that is declared later, while the window is still open, has its declared
rights in force.  So it depends on the order of declarations and windows which
regions can be written, and where two regions overlap the earlier one decides.
-/

namespace PagedMemory

namespace Declaration

/-- Whether the region of a declaration can be written while the window is open. -/
def Writable (declaration : Declaration) : Prop :=
  declaration.opened = true ∨ declaration.rights.allows .write = true

theorem allows_write_region (declaration : Declaration) :
    (declaration.region true).rights.allows .write = true ↔ declaration.Writable := by
  rw [rights_region, Bool.true_and, Writable]
  cases opened : declaration.opened with
  | true => simp
  | false => simp

end Declaration

namespace AddressSpace

variable {space : AddressSpace} {declarations : List Declaration}

/-- The region that decides about an address is that of the first declaration of its page. -/
theorem Reflects.find?_regions (reflects : space.Reflects declarations) (address : VirtAddr) :
    space.regions.find? address =
      (declarations.find? fun declaration => (address.block : Page) ∈ declaration.pages).map
        fun declaration => declaration.region space.loading := by
  have decides : ((fun region : Region => region.contains address) ∘
        fun declaration : Declaration => declaration.region space.loading) =
      fun declaration => decide ((address.block : Page) ∈ declaration.pages) := by
    funext declaration
    rw [Function.comp_apply, Bool.eq_iff_iff, Region.contains_iff, declaration.pages_region,
      decide_eq_true_eq]
  rw [RegionList.find?, reflects, List.find?_map, decides]

/-- Which regions of a space can be written while its window is open. -/
structure GrantsWriting (space : AddressSpace) (declarations : List Declaration) : Prop where
  /-- There is one region for each declaration, in order. -/
  regions : List.Forall₂ (fun declaration region =>
      region.pages = declaration.pages ∧
        (region.rights.allows .write = true ↔ declaration.Writable))
    declarations space.regions.entries
  everywhere : (∀ region ∈ space.regions.entries, region.rights.allows .write = true) ↔
    ∀ declaration ∈ declarations, declaration.opened = false →
      declaration.rights.allows .write = true
  /-- The first declaration of a page decides about its addresses. -/
  inForce : ∀ address declaration,
    declarations.find? (fun declaration => (address.block : Page) ∈ declaration.pages) =
        some declaration →
      ∃ rights, space.rightsAt? address = some rights ∧
        (rights.allows .write = true ↔ declaration.Writable)

theorem Reflects.grantsWriting (reflects : space.Reflects declarations)
    (loading : space.loading = true) : space.GrantsWriting declarations := by
  have located := reflects.find?_regions
  rw [Reflects, loading] at reflects
  rw [loading] at located
  refine ⟨?_, ?_, ?_⟩
  · rw [reflects, List.forall₂_map_right_iff, List.forall₂_same]
    intro declaration _
    exact ⟨declaration.pages_region true, declaration.allows_write_region⟩
  · rw [reflects, List.forall_mem_map]
    apply forall₂_congr
    intro declaration _
    rw [declaration.allows_write_region, Declaration.Writable]
    cases declaration.opened <;> simp
  · intro address declaration first
    refine ⟨(declaration.region true).rights, ?_, declaration.allows_write_region⟩
    rw [rightsAt?, located, first]
    rfl

end AddressSpace

namespace Machine

variable {machine : Machine} {record : Nat → List Declaration}

/--
In every state that a run reaches, exactly those regions of a space can be written
while its load window is open that the window was opened over or that were declared
writable; and the first of them around an address decides about the address.
-/
theorem open_windows_grant_writing {first : Machine} (empty : first.spaces = .empty)
    (records : declaring.Reaches (first, fun _ => []) (machine, record)) {name : Nat}
    {space : AddressSpace} (found : machine.spaces.find? name = some space)
    (loading : space.loading = true) : space.GrantsWriting (record name) := by
  have reflects : space.Reflects (record name) :=
    reflects_of_reaches empty records name space found
  exact reflects.grantsWriting loading

/-- Three regions overlap; of the two declared inside the window, one is read-only. -/
theorem open_windows_grant_writing_to_three_regions :
    let commands : List Command := [
      .create 0,
      .change 0 (.declare ⟨0x400000⟩ 0x2000 ⟨5⟩ .available),
      .change 0 .openWindow,
      .change 0 (.declare ⟨0x401000⟩ 0x2000 ⟨5⟩ .available),
      .change 0 (.declare ⟨0x402000⟩ 0x2000 ⟨7⟩ .available)]
    ∃ machine record space,
      declaring.follow (eightFrames, fun _ => []) commands = some (machine, record) ∧
      machine.spaces.find? 0 = some space ∧ space.loading = true ∧
      ¬ (∀ region ∈ space.regions.entries, region.rights.allows .write = true) ∧
      (∃ rights, space.rightsAt? ⟨0x401000⟩ = some rights ∧ rights.allows .write = true) ∧
      (∃ rights, space.rightsAt? ⟨0x402000⟩ = some rights ∧ rights.allows .write = false) ∧
      ∃ rights, space.rightsAt? ⟨0x403000⟩ = some rights ∧ rights.allows .write = true := by
  intro commands
  have outcome : (declaring.follow (eightFrames, fun _ => []) commands).bind (fun reached =>
      (reached.1.spaces.find? 0).map fun space => (space.loading, reached.2 0)) =
      some (true, [⟨⟨0x400000⟩, 0x2000, ⟨5⟩, true⟩, ⟨⟨0x401000⟩, 0x2000, ⟨5⟩, false⟩,
        ⟨⟨0x402000⟩, 0x2000, ⟨7⟩, false⟩]) := by
    decide +kernel
  rcases Option.bind_eq_some_iff.mp outcome with ⟨⟨machine, record⟩, ran, outcome⟩
  rcases Option.map_eq_some_iff.mp outcome with ⟨space, found, observed⟩
  rcases Prod.mk.inj observed with ⟨loading, recorded⟩
  have grants := open_windows_grant_writing rfl (Regime.reaches_of_follow ran) found loading
  dsimp only at recorded
  rw [recorded] at grants
  have everywhere := grants.everywhere
  have first := grants.inForce ⟨0x401000⟩ ⟨⟨0x400000⟩, 0x2000, ⟨5⟩, true⟩ (by decide +kernel)
  have second := grants.inForce ⟨0x402000⟩ ⟨⟨0x401000⟩, 0x2000, ⟨5⟩, false⟩ (by decide +kernel)
  have third := grants.inForce ⟨0x403000⟩ ⟨⟨0x402000⟩, 0x2000, ⟨7⟩, false⟩ (by decide +kernel)
  refine ⟨machine, record, space, ran, found, loading, ?_, ?_, ?_, ?_⟩
  · intro writable
    exact absurd (everywhere.mp writable ⟨⟨0x401000⟩, 0x2000, ⟨5⟩, false⟩ (by decide) rfl)
      (by decide)
  · rcases first with ⟨rights, inForce, allowed⟩
    exact ⟨rights, inForce, allowed.mpr (Or.inl rfl)⟩
  · rcases second with ⟨rights, inForce, allowed⟩
    refine ⟨rights, inForce, Bool.eq_false_iff.mpr fun granted => ?_⟩
    rcases allowed.mp granted with opened | declared
    · cases opened
    · exact absurd declared (by decide)
  · rcases third with ⟨rights, inForce, allowed⟩
    exact ⟨rights, inForce, allowed.mpr (Or.inr (by decide))⟩

/-- A region is declared in an open window, and writing to it is not granted. -/
theorem region_declared_in_window_is_read_only :
    let commands : List Command := [
      .create 0,
      .change 0 .openWindow,
      .change 0 (.declare ⟨0x400000⟩ 0x1000 ⟨5⟩ .available)]
    ∃ machine record space,
      declaring.follow (eightFrames, fun _ => []) commands = some (machine, record) ∧
      machine.spaces.find? 0 = some space ∧ space.loading = true ∧
      (∃ region ∈ space.regions.entries, region.contains ⟨0x400000⟩ = true ∧
        region.rights.allows .write = false) ∧
      space.rightsAt? ⟨0x400000⟩ = some ⟨5⟩ := by
  intro commands
  have outcome : (declaring.follow (eightFrames, fun _ => []) commands).bind (fun reached =>
      (reached.1.spaces.find? 0).map fun space =>
        (space.loading, space.regions.entries, space.rightsAt? ⟨0x400000⟩)) =
      some (true, [⟨⟨0x400, by decide⟩, 1, ⟨5⟩, none⟩], some ⟨5⟩) := by
    decide +kernel
  rcases Option.bind_eq_some_iff.mp outcome with ⟨⟨machine, record⟩, ran, outcome⟩
  rcases Option.map_eq_some_iff.mp outcome with ⟨space, found, observed⟩
  simp only [Prod.mk.injEq] at observed
  rcases observed with ⟨loading, entries, rights⟩
  let region : Region := ⟨⟨0x400, by decide⟩, 1, ⟨5⟩, none⟩
  have member : region ∈ space.regions.entries := by
    rw [entries]
    exact List.mem_singleton_self _
  exact ⟨machine, record, space, ran, found, loading, ⟨region, member, by decide, by decide⟩,
    rights⟩

end Machine

end PagedMemory
