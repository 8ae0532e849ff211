import Mathlib.Data.Nat.Count
import PagedMemory.Proofs.Space.Backing
import PagedMemory.Proofs.Space.Pages

/-!
# Tables for pages

Declaring pages takes a frame for every directory slot that covers one of them and has
no table yet, and for nothing else.  The frames that can be taken and the tables of the
tree together stay the same in number with every step, so however many steps there are,
their cost is the number of slots that were missing at the beginning.
-/

namespace PagedMemory

namespace Ram

variable {ram before after : Ram} {root : Frame} {pages : List Page}

/-- A directory slot that covers one of some pages and has no table. -/
def Missing (ram : Ram) (root : Frame) (pages : List Page) (slot : Nat) : Prop :=
  ram.slot root slot = none ∧ ∃ page ∈ pages, page.directoryIndex = slot

instance : DecidablePred (ram.Missing root pages) :=
  fun _ => inferInstanceAs (Decidable (_ ∧ _))

theorem count_missing_mono (ram : Ram) (root : Frame) {more : List Page} (subset : pages ⊆ more)
    (bound : Nat) :
    Nat.count (ram.Missing root pages) bound ≤ Nat.count (ram.Missing root more) bound := by
  refine Nat.count_mono_left fun slot _ => ?_
  rintro ⟨absent, page, member, same⟩
  exact ⟨absent, page, subset member, same⟩

/-- No more tables are missing than there are slots that the pages lie in. -/
theorem count_missing_le (ram : Ram) (root : Frame) {slots : List Nat}
    (within : ∀ page ∈ pages, page.directoryIndex ∈ slots) (bound : Nat) :
    Nat.count (ram.Missing root pages) bound ≤ slots.length := by
  have among : (Finset.range bound).filter (ram.Missing root pages) ⊆ slots.toFinset := by
    intro slot member
    obtain ⟨-, page, inside, rfl⟩ := (Finset.mem_filter.mp member).2
    exact List.mem_toFinset.mpr (within page inside)
  rw [Nat.count_eq_card_filter_range]
  exact Nat.le_trans (Finset.card_le_card among) slots.toFinset_card_le

theorem length_tables (ram : Ram) (root : Frame) :
    (ram.tables root).length =
      Nat.count (fun slot => (ram.slot root slot).isSome = true) slotsPerTable := by
  rw [tables, List.length_filterMap_eq_countP, Nat.count]
  simp

/-- Where just the missing tables have been built, their number is that of the new tables. -/
theorem length_tables_of_filled
    (filled : ∀ slot, after.slot root slot = none ↔
      before.slot root slot = none ∧ ∀ page ∈ pages, page.directoryIndex ≠ slot) :
    (after.tables root).length =
      (before.tables root).length + Nat.count (before.Missing root pages) slotsPerTable := by
  have here (slot : Nat) : (if (after.slot root slot).isSome = true then 1 else 0) =
      (if (before.slot root slot).isSome = true then 1 else 0) +
        if before.Missing root pages slot then 1 else 0 := by
    cases present : before.slot root slot with
    | some table =>
        have kept : after.slot root slot ≠ none := by
          rw [Ne, filled, present]
          exact fun absent => nomatch absent.1
        have settled : ¬ before.Missing root pages slot := by
          rw [Missing, present]
          exact fun absent => nomatch absent.1
        rw [if_pos (Option.isSome_iff_ne_none.mpr kept), if_neg settled]
        rfl
    | none =>
        have same : (after.slot root slot).isSome = true ↔ before.Missing root pages slot := by
          rw [Option.isSome_iff_ne_none, Ne, filled, Missing]
          simp [present]
        simp only [same]
        simp
  rw [length_tables, length_tables]
  generalize slotsPerTable = bound
  induction bound with
  | zero => rfl
  | succ bound induction =>
      rw [Nat.count_succ, Nat.count_succ, Nat.count_succ, induction, here bound]
      omega

end Ram

namespace Memory

/-- Tables have been built for the pages that had none, with one frame each, and nowhere else. -/
structure Furnishes (before : Memory) (root : Frame) (pages : List Page) (after : Memory) :
    Prop where
  filled : ∀ slot, after.ram.slot root slot = none ↔
    before.ram.slot root slot = none ∧ ∀ page ∈ pages, page.directoryIndex ≠ slot
  available : before.pool.available.length + (before.ram.tables root).length =
    after.pool.available.length + (after.ram.tables root).length
  grants : before.grants + (before.ram.tables root).length =
    after.grants + (after.ram.tables root).length

namespace Furnishes

variable {before between after : Memory} {root : Frame} {pages more : List Page} {page : Page}

/-- Neither the directory nor the pool has changed. -/
theorem of_same (slots : ∀ slot, after.ram.slot root slot = before.ram.slot root slot)
    (available : after.pool.available = before.pool.available)
    (grants : after.grants = before.grants)
    (covered : ∀ page ∈ pages, before.ram.covers root page = true) :
    Furnishes before root pages after := by
  have tables : after.ram.tables root = before.ram.tables root :=
    List.filterMap_congr fun slot _ => slots slot
  refine ⟨?_, ?_, ?_⟩
  · intro slot
    rw [slots, iff_self_and]
    rintro absent page member rfl
    have present := covered page member
    rw [Ram.covers, absent] at present
    cases present
  · rw [available, tables]
  · rw [grants, tables]

theorem refl (memory : Memory) (root : Frame) : Furnishes memory root [] memory :=
  .of_same (fun _ => rfl) rfl rfl nofun

theorem trans (first : Furnishes before root pages between)
    (second : Furnishes between root more after) : Furnishes before root (pages ++ more) after where
  filled slot := by
    rw [second.filled, first.filled, List.forall_mem_append, and_assoc]
  available := first.available.trans second.available
  grants := first.grants.trans second.grants

theorem record (furnishes : Furnishes before root pages after) (event : Event) :
    Furnishes before root pages { after with log := event :: after.log } :=
  ⟨furnishes.filled, furnishes.available, furnishes.grants⟩

/-- The first page of a slot without a table has one built. -/
theorem of_adds {table : Frame}
    (adds : AddsTable before root page.directoryIndex table after)
    (absent : before.ram.slot root page.directoryIndex = none) :
    Furnishes before root [page] after := by
  have filled : ∀ slot, after.ram.slot root slot = none ↔
      before.ram.slot root slot = none ∧ ∀ other ∈ [page], other.directoryIndex ≠ slot := by
    intro slot
    rw [adds.slots, List.forall_mem_singleton]
    split
    next same => simp [same]
    next apart => simp [Ne.symm apart]
  have single : Nat.count (before.ram.Missing root [page]) slotsPerTable = 1 := by
    have only : (Finset.range slotsPerTable).filter (before.ram.Missing root [page]) =
        {page.directoryIndex} := by
      ext slot
      simp only [Finset.mem_filter, Finset.mem_range, Ram.Missing, List.mem_singleton,
        exists_eq_left, Finset.mem_singleton]
      constructor
      · exact fun missing => missing.2.2.symm
      · rintro rfl
        exact ⟨page.directoryIndex_lt, absent, rfl⟩
    rw [Nat.count_eq_card_filter_range, only, Finset.card_singleton]
  have tables := Ram.length_tables_of_filled filled
  have granted := adds.extension.grants
  have balance := adds.extension.exchange.balance.length_eq
  rw [single] at tables
  simp only [List.length_append, List.length_cons, List.length_nil] at granted balance
  exact ⟨filled, by omega, by omega⟩

/-- What was taken is what was missing. -/
theorem available_eq (furnishes : Furnishes before root pages after) :
    before.pool.available.length = after.pool.available.length +
      Nat.count (before.ram.Missing root pages) slotsPerTable := by
  have tables := Ram.length_tables_of_filled furnishes.filled
  have available := furnishes.available
  omega

theorem grants_eq (furnishes : Furnishes before root pages after) :
    before.grants = after.grants + Nat.count (before.ram.Missing root pages) slotsPerTable := by
  have tables := Ram.length_tables_of_filled furnishes.filled
  have grants := furnishes.grants
  omega

/-- What is missing for some pages and for more is missing for the former, and for the
latter once those have their tables. -/
theorem count_missing_append (furnishes : Furnishes before root pages after)
    (more : List Page) :
    Nat.count (before.ram.Missing root (pages ++ more)) slotsPerTable =
      Nat.count (before.ram.Missing root pages) slotsPerTable +
        Nat.count (after.ram.Missing root more) slotsPerTable := by
  have apart : ∀ slot ∈ Finset.range slotsPerTable, before.ram.Missing root pages slot →
      ¬ after.ram.Missing root more slot := by
    rintro slot - ⟨-, page, member, same⟩ ⟨absent, -⟩
    exact ((furnishes.filled slot).mp absent).2 page member same
  have either : (Finset.range slotsPerTable).filter (before.ram.Missing root (pages ++ more)) =
      (Finset.range slotsPerTable).filter (before.ram.Missing root pages) ∪
        (Finset.range slotsPerTable).filter (after.ram.Missing root more) := by
    rw [← Finset.filter_or]
    refine Finset.filter_congr fun slot _ => ?_
    simp only [Ram.Missing, furnishes.filled, List.mem_append]
    constructor
    · rintro ⟨absent, page, early | late, same⟩
      · exact Or.inl ⟨absent, page, early, same⟩
      · by_cases known : ∃ page ∈ pages, page.directoryIndex = slot
        · exact Or.inl ⟨absent, known⟩
        · refine Or.inr ⟨⟨absent, fun page member same => known ⟨page, member, same⟩⟩, ?_⟩
          exact ⟨page, late, same⟩
    · rintro (⟨absent, page, member, same⟩ | ⟨⟨absent, -⟩, page, member, same⟩)
      · exact ⟨absent, page, Or.inl member, same⟩
      · exact ⟨absent, page, Or.inr member, same⟩
  rw [Nat.count_eq_card_filter_range, either,
    Finset.card_union_of_disjoint (Finset.disjoint_filter.mpr apart),
    ← Nat.count_eq_card_filter_range, ← Nat.count_eq_card_filter_range]

end Furnishes

end Memory

end PagedMemory
