import PagedMemory.Proofs.Table.Slot

/-!
# Tables as arrays of slots

A table is written and read one slot at a time, and every slot passes through a packed
word on the way.  What comes out is what went in: a table that began empty is the
array of the slots set last.

Decoding is not the inverse of encoding in the other direction.  A word with reserved
bits set loses them, and one that is not valid loses everything; only the canonical
words survive, which are the ones that encoding produces.  The two levels differ in
what they make of a word that is neither valid nor zero: a directory takes it for an
absent table and a page slot panics.
-/

namespace PagedMemory

/-! ## Words -/

/-- The reserved bits, as a number. -/
theorem toNat_and_reserved (bits : UInt32) :
    (bits &&& 0xFFE).toNat = bits.toNat / 2 % 2048 * 2 := by
  have parity : (bits.toNat &&& 0xFFE) % 2 ^ 1 = 0 := by
    rw [Nat.and_mod_two_pow]
    exact Nat.and_zero _
  have shifted : (bits.toNat &&& 0xFFE) >>> 1 = bits.toNat / 2 % 2048 := by
    rw [Nat.shiftRight_and_distrib, show 0xFFE >>> 1 = 2 ^ 11 - 1 from rfl,
      Nat.and_two_pow_sub_one_eq_mod]
    rfl
  have mask : (0xFFE : UInt32).toNat = 0xFFE := rfl
  rw [UInt32.toNat_and, mask]
  rw [Nat.shiftRight_eq_div_pow] at shifted
  omega

namespace TableWord

/-- The word is zero, or it is valid and no reserved bit is set. -/
def Canonical (word : TableWord) : Prop :=
  word.bits = 0 ∨ word.bits &&& 1 = 1 ∧ word.bits &&& 0xFFE = 0

theorem toNat_and_valid (word : TableWord) :
    (word.bits &&& 1).toNat = word.bits.toNat % 2 := by
  have mask : (1 : UInt32).toNat = 2 ^ 1 - 1 := rfl
  rw [UInt32.toNat_and, mask, Nat.and_two_pow_sub_one_eq_mod]

theorem isValid_iff {word : TableWord} : word.isValid = true ↔ word.bits &&& 1 = 1 := by
  rw [isValid, beq_iff_eq, ← UInt32.toNat_inj, toNat_and_valid]
  rfl

theorem isValid_eq_false_iff {word : TableWord} :
    word.isValid = false ↔ word.bits &&& 1 = 0 := by
  rw [← Bool.not_eq_true, isValid, beq_iff_eq, ← UInt32.toNat_inj, toNat_and_valid]
  exact Nat.mod_two_ne_one

theorem eq_empty_iff {word : TableWord} : word = empty ↔ word.bits = 0 := by
  cases word
  simp [empty]

/-- A valid word is the one that its frame is packed into exactly if no reserved bit
is set. -/
theorem ofFrame_target_iff {word : TableWord} :
    ofFrame word.target = word ↔ word.bits &&& 1 = 1 ∧ word.bits &&& 0xFFE = 0 := by
  have value := toNat_bits_ofFrame word.target
  have target : word.target.number = word.bits.toNat / pageSize := rfl
  have same : ofFrame word.target = word ↔
      (ofFrame word.target).bits.toNat = word.bits.toNat := by
    rw [UInt32.toNat_inj]
    cases word
    cases ofFrame _
    simp
  rw [same, value, target, ← UInt32.toNat_inj, ← UInt32.toNat_inj, toNat_and_valid,
    toNat_and_reserved]
  show _ ↔ _ = 1 ∧ _ = 0
  simp only [pageSize]
  omega

theorem canonical_of_valid {word : TableWord} (valid : word.isValid = true) :
    word.Canonical ↔ ofFrame word.target = word := by
  rw [ofFrame_target_iff]
  constructor
  · rintro (zero | canonical)
    · rw [eq_empty_iff.mpr zero] at valid
      cases valid
    · exact canonical
  · exact Or.inr

theorem canonical_of_invalid {word : TableWord} (invalid : word.isValid = false) :
    word.Canonical ↔ word = empty := by
  rw [eq_empty_iff]
  constructor
  · rintro (zero | ⟨valid, -⟩)
    · exact zero
    · rw [isValid_iff.mpr valid] at invalid
      cases invalid
  · exact Or.inl

end TableWord

namespace PageSlot

variable {word : TableWord}

theorem decode_of_valid (valid : word.isValid = true) :
    decode word = .ok (.backed word.target) := by
  simp [decode, TableWord.frame?, valid]

theorem decode_of_invalid (invalid : word.isValid = false) :
    decode word = if word.bits = 0 then .ok .unmapped else .error .staleBits := by
  simp only [decode, TableWord.frame?, invalid, Bool.false_eq_true, if_false,
    Checked.require, TableWord.eq_empty_iff]
  split <;> rfl

theorem decode_eq_backed_iff {frame : Frame} :
    decode word = .ok (.backed frame) ↔ word.frame? = some frame := by
  cases valid : word.isValid with
  | true => simp [decode_of_valid valid, TableWord.frame?, valid]
  | false =>
      rw [decode_of_invalid valid]
      split <;> simp [TableWord.frame?, valid]

/-- Reading a page slot panics exactly on what is neither valid nor zero. -/
theorem decode_panics_iff :
    (∃ panic, decode word = .error panic) ↔ word.bits &&& 1 = 0 ∧ word.bits ≠ 0 := by
  rw [← TableWord.isValid_eq_false_iff]
  cases valid : word.isValid with
  | true => simp [decode_of_valid valid]
  | false =>
      rw [decode_of_invalid valid]
      split <;> simp_all

theorem encode_decode_iff :
    (∃ slot, decode word = .ok slot ∧ slot.encode = word) ↔ word.Canonical := by
  cases valid : word.isValid with
  | true => simp [decode_of_valid valid, encode, TableWord.canonical_of_valid valid]
  | false =>
      rw [decode_of_invalid valid, TableWord.canonical_of_invalid valid]
      split
      next zero => simp [encode, TableWord.eq_empty_iff.mpr zero]
      next stale => simp [TableWord.eq_empty_iff, stale]

theorem canonical_encode (slot : PageSlot) : slot.encode.Canonical :=
  encode_decode_iff.mp ⟨slot, decode_encode slot, rfl⟩

end PageSlot

namespace DirectorySlot

variable {word : TableWord}

theorem decode_eq_table_iff {frame : Frame} :
    decode word = .table frame ↔ word.frame? = some frame := by
  cases found : word.frame? <;> simp [decode, found]

theorem encode_decode_iff : (decode word).encode = word ↔ word.Canonical := by
  cases valid : word.isValid with
  | true =>
      simp [decode, TableWord.frame?, valid, encode, TableWord.canonical_of_valid valid]
  | false =>
      simp [decode, TableWord.frame?, valid, encode, TableWord.canonical_of_invalid valid,
        eq_comm (a := TableWord.empty)]

end DirectorySlot

/-! ## Tables -/

/-- The slot that was set last at an index, or the empty one if none was. -/
def lastSet {σ : Type} (empty : σ) (settings : List (Fin slotsPerTable × σ))
    (index : Fin slotsPerTable) : σ :=
  ((settings.filter (·.1 = index)).getLast?.map Prod.snd).getD empty

theorem lastSet_append {σ : Type} (empty : σ) (settings : List (Fin slotsPerTable × σ))
    (index other : Fin slotsPerTable) (slot : σ) :
    lastSet empty (settings ++ [(index, slot)]) other =
      if index = other then slot else lastSet empty settings other := by
  by_cases same : index = other <;> simp [lastSet, List.filter_append, same]

/-- Set slots of a table of some level one after the other. -/
def setAll {σ τ : Type} (set : τ → Nat → σ → Checked τ) (table : τ)
    (settings : List (Fin slotsPerTable × σ)) : Checked τ :=
  settings.foldlM (fun table setting => set table setting.1 setting.2) table

namespace FrameContents

variable {σ : Type} {encode : σ → TableWord} {empty : σ} {contents : FrameContents}

/-- Every word is the one of the slot at its index. -/
def Stores (contents : FrameContents) (encode : σ → TableWord)
    (slots : Fin slotsPerTable → σ) : Prop :=
  ∀ index : Fin slotsPerTable, contents.get index = .ok (encode (slots index)).bits

theorem stores_zero (blank : encode empty = .empty) :
    zero.Stores encode (lastSet empty []) := by
  intro index
  rw [get_zero index.isLt]
  simp [lastSet, blank, TableWord.empty]

theorem set_eq_put (contents : FrameContents) (index : Fin slotsPerTable) (word : UInt32) :
    contents.set index word = .ok (contents.put index word index.isLt) :=
  dif_pos index.isLt

/-- Setting a slot is one more setting. -/
theorem Stores.put {past : List (Fin slotsPerTable × σ)}
    (stores : contents.Stores encode (lastSet empty past))
    (index : Fin slotsPerTable) (slot : σ) :
    (contents.put index (encode slot).bits index.isLt).Stores encode
      (lastSet empty (past ++ [(index, slot)])) := by
  intro other
  rw [get_put, lastSet_append, stores other]
  simp only [Fin.val_inj, eq_comm (a := other)]
  split <;> rfl

/-- Any sequence of settings returns a table that stores the slots set last. -/
theorem Stores.setAll {τ : Type} {table : FrameContents → τ} {set : τ → Nat → σ → Checked τ}
    (puts : ∀ (contents : FrameContents) (index : Fin slotsPerTable) (slot : σ),
      set (table contents) index slot =
        .ok (table (contents.put index (encode slot).bits index.isLt)))
    {past : List (Fin slotsPerTable × σ)}
    (stores : contents.Stores encode (lastSet empty past))
    (settings : List (Fin slotsPerTable × σ)) :
    ∃ after, PagedMemory.setAll set (table contents) settings = .ok (table after) ∧
      after.Stores encode (lastSet empty (past ++ settings)) := by
  induction settings generalizing contents past with
  | nil => exact ⟨contents, rfl, by simpa using stores⟩
  | cons setting rest ih =>
      obtain ⟨after, returned, stored⟩ := ih (stores.put setting.1 setting.2)
      refine ⟨after, ?_, by simpa using stored⟩
      rw [PagedMemory.setAll, List.foldlM_cons, puts]
      exact returned

/-- The indices of the entries ascend. -/
theorem pairwise_frames (contents : FrameContents) :
    (contents.frames.map Prod.fst).Pairwise (· < ·) :=
  List.pairwise_lt_range.sublist contents.map_fst_frames_sublist

end FrameContents

namespace PageTable

theorem set_eq_put (contents : FrameContents) (index : Fin slotsPerTable) (slot : PageSlot) :
    set ⟨contents⟩ index slot =
      .ok ⟨contents.put index slot.encode.bits index.isLt⟩ := by
  rw [set, FrameContents.set_eq_put]
  rfl

theorem mem_backed_iff {table : PageTable} {index : Nat} {frame : Frame} :
    (index, frame) ∈ table.backed ↔ table.get index = .ok (.backed frame) := by
  rw [backed, FrameContents.mem_frames, get, Checked.bind_eq_ok]
  simp only [PageSlot.decode_eq_backed_iff]

end PageTable

namespace PageDirectory

theorem set_eq_put (contents : FrameContents) (index : Fin slotsPerTable)
    (slot : DirectorySlot) :
    set ⟨contents⟩ index slot =
      .ok ⟨contents.put index slot.encode.bits index.isLt⟩ := by
  rw [set, FrameContents.set_eq_put]
  rfl

theorem mem_tables_iff {directory : PageDirectory} {index : Nat} {frame : Frame} :
    (index, frame) ∈ directory.tables ↔ directory.get index = .ok (.table frame) := by
  rw [tables, FrameContents.mem_frames, get, Checked.bind_eq_ok]
  simp only [pure, Except.pure, Except.ok.injEq, DirectorySlot.decode_eq_table_iff]

/-- Any words will do: a directory can be read wherever it has a slot. -/
theorem get_returns (directory : PageDirectory) (index : Fin slotsPerTable) :
    ∃ slot, directory.get index = .ok slot := by
  rw [get, FrameContents.get_of_lt _ index.isLt]
  exact ⟨_, rfl⟩

end PageDirectory

/--
A slot comes back from its word at both levels, and frame zero is not the empty slot.
Reading a page slot panics exactly on the words that are neither valid nor zero, and
reading a directory slot never does; a word comes back from its slot exactly if it is
zero, or valid without reserved bits.  After any sequence of settings, a table that
began empty holds at each index the slot set last there, and lists the slots that name
a frame in ascending order.
-/
theorem tables_hold_slots_set_last :
    (∀ slot : PageSlot, PageSlot.decode slot.encode = .ok slot) ∧
    (∀ slot : DirectorySlot, DirectorySlot.decode slot.encode = slot) ∧
    (∀ frame : Frame, (PageSlot.backed frame).encode ≠ PageSlot.unmapped.encode ∧
      (DirectorySlot.table frame).encode ≠ DirectorySlot.absent.encode) ∧
    (∀ word : TableWord,
      ((∃ panic, PageSlot.decode word = .error panic) ↔
        word.bits &&& 1 = 0 ∧ word.bits ≠ 0) ∧
      ((∃ slot, PageSlot.decode word = .ok slot ∧ slot.encode = word) ↔
        word.bits = 0 ∨ word.bits &&& 1 = 1 ∧ word.bits &&& 0xFFE = 0) ∧
      ((DirectorySlot.decode word).encode = word ↔
        word.bits = 0 ∨ word.bits &&& 1 = 1 ∧ word.bits &&& 0xFFE = 0)) ∧
    (∀ (directory : PageDirectory) (index : Fin slotsPerTable),
      ∃ slot, directory.get index = .ok slot) ∧
    (∀ settings : List (Fin slotsPerTable × PageSlot),
      ∃ table, setAll PageTable.set .empty settings = .ok table ∧
        (∀ index : Fin slotsPerTable,
          table.get index = .ok (lastSet .unmapped settings index)) ∧
        (∀ index frame, (index, frame) ∈ table.backed ↔
          table.get index = .ok (.backed frame)) ∧
        (table.backed.map Prod.fst).Pairwise (· < ·)) ∧
    ∀ settings : List (Fin slotsPerTable × DirectorySlot),
      ∃ directory, setAll PageDirectory.set .empty settings = .ok directory ∧
        (∀ index : Fin slotsPerTable,
          directory.get index = .ok (lastSet .absent settings index)) ∧
        (∀ index frame, (index, frame) ∈ directory.tables ↔
          directory.get index = .ok (.table frame)) ∧
        (directory.tables.map Prod.fst).Pairwise (· < ·) := by
  refine ⟨PageSlot.decode_encode, DirectorySlot.decode_encode, fun frame => ⟨?_, ?_⟩,
    fun word => ⟨PageSlot.decode_panics_iff, PageSlot.encode_decode_iff,
      DirectorySlot.encode_decode_iff⟩,
    PageDirectory.get_returns, fun settings => ?_, fun settings => ?_⟩
  · intro same
    have decoded := congrArg PageSlot.decode same
    simp only [PageSlot.decode_encode] at decoded
    cases decoded
  · intro same
    have decoded := congrArg DirectorySlot.decode same
    simp only [DirectorySlot.decode_encode] at decoded
    cases decoded
  · have blank : FrameContents.zero.Stores PageSlot.encode (lastSet .unmapped []) :=
      FrameContents.stores_zero rfl
    obtain ⟨contents, returned, stores⟩ := blank.setAll PageTable.set_eq_put settings
    refine ⟨⟨contents⟩, returned, fun index => ?_,
      fun index frame => PageTable.mem_backed_iff, contents.pairwise_frames⟩
    rw [PageTable.get, stores index]
    exact PageSlot.decode_encode _
  · have blank : FrameContents.zero.Stores DirectorySlot.encode (lastSet .absent []) :=
      FrameContents.stores_zero rfl
    obtain ⟨contents, returned, stores⟩ := blank.setAll PageDirectory.set_eq_put settings
    refine ⟨⟨contents⟩, returned, fun index => ?_,
      fun index frame => PageDirectory.mem_tables_iff, contents.pairwise_frames⟩
    rw [PageDirectory.get, stores index]
    exact congrArg Except.ok (DirectorySlot.decode_encode _)

end PagedMemory
