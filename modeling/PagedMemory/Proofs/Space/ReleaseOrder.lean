import PagedMemory.Proofs.Frames.GivingBack
import PagedMemory.Proofs.Space.Backing
import PagedMemory.Proofs.Space.Teardown

/-!
# The order in which a space is torn down

A teardown is one loop over a list of frames in disguise: whatever the pool
answers, its two nested loops give the reached frames back one after another, in
order, and remember the first rejection.  So a step of a teardown is described by
the frames that it gives back; steps compose by appending these lists.

The walk reads the tables while their frames are being given back.  That does it
no harm, because giving back a frame does not write to RAM.
-/

namespace PagedMemory

open Memory

/-! ## Slots in order -/

namespace Ram

/-- Looking up each place of a list in order is going through the list. -/
theorem filterMap_range_getElem? {α β : Type} (pick : α → Option β) (items : List α) :
    (List.range items.length).filterMap (fun place => items[place]?.bind pick) =
      items.filterMap pick := by
  induction items with
  | nil => rfl
  | cons item rest induction =>
      rw [List.length_cons, List.range_succ_eq_map, List.filterMap_cons, List.filterMap_map,
        List.filterMap_cons, ← induction]
      rfl

/-- The slots of a frame are its words in ascending order. -/
theorem filterMap_slot_eq_words (ram : Ram) (frame : Frame) :
    (List.range slotsPerTable).filterMap (ram.slot frame) =
      (ram.contentsOf frame).words.toList.filterMap fun word => (TableWord.mk word).frame? := by
  rw [← filterMap_range_getElem? _ (ram.contentsOf frame).words.toList, Vector.length_toList]
  apply List.filterMap_congr
  intro place _
  rw [slot, FrameContents.slot, Vector.getElem?_toList]

/-- The directory slots in ascending order, in each table the page slots likewise. -/
theorem reach_eq_ascending (ram : Ram) (root : Frame) :
    ram.reach root =
      ((List.range slotsPerTable).filterMap (ram.slot root)).flatMap (fun table =>
        (List.range slotsPerTable).filterMap (ram.slot table) ++ [table]) ++ [root] := by
  have branches : ((List.range slotsPerTable).filterMap (ram.slot root)).flatMap ram.branch =
      ((List.range slotsPerTable).filterMap (ram.slot root)).flatMap fun table =>
        (List.range slotsPerTable).filterMap (ram.slot table) ++ [table] := by
    apply List.flatMap_congr
    intro table _
    rw [branch, dataFrames_eq]
  rw [reach_eq_slots, branches]

end Ram

/-! ## Giving back a list of frames -/

namespace Memory

variable {memory before after : Memory} {frames : List Frame}

theorem ram_of_releaseFrame {frame : Frame} {result : Except ReleaseError Unit}
    (released : releaseFrame frame before = .ok (result, after)) : after.ram = before.ram := by
  rcases onPool_eq_ok.mp released with ⟨reply, -, -, rfl⟩
  rfl

theorem ram_of_mapM_releaseFrame {results : List (Except ReleaseError Unit)}
    (released : frames.mapM releaseFrame before = .ok (results, after)) :
    after.ram = before.ram := by
  induction frames generalizing before results with
  | nil =>
      rw [List.mapM_nil] at released
      rcases pure_eq_ok.mp released with ⟨-, rfl⟩
      rfl
  | cons frame rest induction =>
      rw [List.mapM_cons] at released
      rcases bind_eq_ok.mp released with ⟨result, between, first, others⟩
      rcases bind_eq_ok.mp others with ⟨answers, later, remaining, finished⟩
      rcases pure_eq_ok.mp finished with ⟨-, rfl⟩
      exact (induction remaining).trans (ram_of_releaseFrame first)

/-- What a pool makes of frames that are given back one after another. -/
structure GivesBack (before : Memory) (frames : List Frame)
    (results : List (Except ReleaseError Unit)) (after : Memory) : Prop where
  bounded : after.pool.Bounded
  /-- No reserved frame is rejected. -/
  reserved : List.Forall₂ (fun frame result =>
    before.pool.Reserves frame = true → result = .ok ()) frames results
  leakedFrees : after.pool.leakedFrees =
    before.pool.leakedFrees + frames.countP before.pool.Reserves

theorem releaseFrame_answers (bounded : memory.pool.Bounded) (frame : Frame) :
    Ensures (releaseFrame frame) memory fun result after =>
      FramePool.Handles memory.pool frame result after.pool := by
  rcases bounded.release frame with ⟨result, pool, events, released, handles⟩
  exact Ensures.of_eq (onPool_eq_ok.mpr ⟨_, released, rfl, rfl⟩) handles

/-- Whatever frames are given back, the pool answers each of them. -/
theorem mapM_releaseFrame_answers (bounded : memory.pool.Bounded) (frames : List Frame) :
    Ensures (frames.mapM releaseFrame) memory (GivesBack memory frames) := by
  induction frames generalizing memory with
  | nil => exact Ensures.pure ⟨bounded, .nil, rfl⟩
  | cons frame rest induction =>
      rw [List.mapM_cons]
      refine (releaseFrame_answers bounded frame).bind ?_
      intro result between handles
      refine (induction handles.bounded).bind ?_
      intro results after others
      have same := handles.reserves
      refine Ensures.pure ⟨others.bounded, ?_, ?_⟩
      · refine .cons handles.reserved ?_
        rw [← same]
        exact others.reserved
      · rw [others.leakedFrees, same, handles.leakedFrees, List.countP_cons]
        omega

/-- Frames that the pool has handed out become available again, the last one first. -/
theorem mapM_releaseFrame_recovers (sound : memory.pool.Sound) (distinct : frames.Nodup)
    (owned : ∀ frame ∈ frames,
      memory.pool.territory.Manages frame ∧ frame ∉ memory.pool.available) :
    Ensures (frames.mapM releaseFrame) memory fun results after =>
      (∀ result ∈ results, result = .ok ()) ∧ after.pool.Sound ∧
        after.pool.territory = memory.pool.territory ∧
        after.pool.leakedFrees = memory.pool.leakedFrees ∧
        after.pool.available = frames.reverse ++ memory.pool.available := by
  induction frames generalizing memory with
  | nil => exact Ensures.pure ⟨nofun, sound, rfl, rfl, rfl⟩
  | cons frame rest induction =>
      rcases owned frame List.mem_cons_self with ⟨managed, taken⟩
      rcases List.nodup_cons.mp distinct with ⟨fresh, distinct⟩
      rcases sound.release (FramePool.accepts_of_manages managed) taken with
        ⟨pool, events, released, recovers⟩
      rcases recovers.managed managed with ⟨available, leakedFrees⟩
      have returned : Ensures (releaseFrame frame) memory fun result after =>
          result = .ok () ∧ after.pool = pool :=
        Ensures.of_eq (onPool_eq_ok.mpr ⟨_, released, rfl, rfl⟩) ⟨rfl, rfl⟩
      rw [List.mapM_cons]
      refine returned.bind ?_
      rintro _ between ⟨rfl, rfl⟩
      refine (induction recovers.sound distinct ?_).bind ?_
      · intro other member
        rw [recovers.territory, available]
        rcases owned other (List.mem_cons_of_mem _ member) with ⟨managed, taken⟩
        refine ⟨managed, ?_⟩
        intro listed
        rcases List.mem_cons.mp listed with rfl | old
        · exact fresh member
        · exact taken old
      · rintro results after ⟨clear, sound, territory, counted, listed⟩
        refine Ensures.pure ⟨?_, sound, territory.trans recovers.territory,
          counted.trans leakedFrees, ?_⟩
        · exact List.forall_mem_cons.mpr ⟨rfl, clear⟩
        · rw [listed, available, List.reverse_cons, List.append_assoc, List.singleton_append]

end Memory

namespace AddressSpace

namespace Teardown

/-- The outcome of a teardown once another frame has been answered. -/
def note : Except ReleaseError Unit → Except ReleaseError Unit → Except ReleaseError Unit
  | .ok (), result => result
  | .error cause, _ => .error cause

theorem foldl_note_error (cause : ReleaseError) (results : List (Except ReleaseError Unit)) :
    results.foldl note (.error cause) = .error cause := by
  induction results with
  | nil => rfl
  | cons result rest induction => exact induction

/-- Nothing was rejected, or the first rejection is remembered. -/
theorem foldl_note_eq_ok_iff {results : List (Except ReleaseError Unit)} :
    results.foldl note (.ok ()) = .ok () ↔ ∀ result ∈ results, result = .ok () := by
  induction results with
  | nil => simp
  | cons result rest induction =>
      rw [List.foldl_cons, List.forall_mem_cons]
      cases result with
      | ok _ => simpa [note] using induction
      | error cause => simp [note, foldl_note_error]

theorem foldl_note_eq_error_iff {results : List (Except ReleaseError Unit)}
    {cause : ReleaseError} :
    results.foldl note (.ok ()) = .error cause ↔
      ∃ earlier later, results = earlier ++ .error cause :: later ∧
        ∀ result ∈ earlier, result = .ok () := by
  induction results with
  | nil => simp
  | cons result rest induction =>
      rw [List.foldl_cons]
      cases result with
      | ok _ =>
          rw [note, induction]
          constructor
          · rintro ⟨earlier, later, rfl, clear⟩
            exact ⟨.ok () :: earlier, later, rfl, List.forall_mem_cons.mpr ⟨rfl, clear⟩⟩
          · rintro ⟨earlier, later, split, clear⟩
            cases earlier with
            | nil => cases split
            | cons first earlier =>
                rcases List.cons.inj split with ⟨-, split⟩
                exact ⟨earlier, later, split, (List.forall_mem_cons.mp clear).2⟩
      | error other =>
          rw [note, foldl_note_error]
          constructor
          · intro same
            cases same
            exact ⟨[], rest, rfl, nofun⟩
          · rintro ⟨earlier, later, split, clear⟩
            cases earlier with
            | nil =>
                cases split
                rfl
            | cons first earlier =>
                rcases List.cons.inj split with ⟨rfl, -⟩
                cases clear _ List.mem_cons_self

/-- What a teardown reports, by the answers of the pool. -/
def report (results : List (Except ReleaseError Unit)) : Except SpaceError Unit :=
  (results.foldl note (.ok ())).mapError .ofRelease

theorem report_eq_ok_iff {results : List (Except ReleaseError Unit)} :
    report results = .ok () ↔ ∀ result ∈ results, result = .ok () := by
  rw [← foldl_note_eq_ok_iff, report]
  cases results.foldl note (.ok ()) <;> simp [Except.mapError]

/-- The report names the first rejection. -/
theorem report_eq_error_iff {results : List (Except ReleaseError Unit)} {refusal : SpaceError} :
    report results = .error refusal ↔
      ∃ earlier cause later, results = earlier ++ .error cause :: later ∧
        (∀ result ∈ earlier, result = .ok ()) ∧ refusal = .invariant (.frameRelease cause) := by
  have reported : report results = .error refusal ↔
      ∃ cause, results.foldl note (.ok ()) = .error cause ∧
        refusal = .invariant (.frameRelease cause) := by
    rw [report]
    cases results.foldl note (.ok ()) <;> simp [Except.mapError, SpaceError.ofRelease, eq_comm]
  rw [reported]
  constructor
  · rintro ⟨cause, first, rfl⟩
    rcases foldl_note_eq_error_iff.mp first with ⟨earlier, later, split, clear⟩
    exact ⟨earlier, cause, later, split, clear, rfl⟩
  · rintro ⟨earlier, cause, later, split, clear, rfl⟩
    exact ⟨cause, foldl_note_eq_error_iff.mpr ⟨earlier, later, split, clear⟩, rfl⟩

/--
A step gives back certain frames in order, some of them as data frames, and does
nothing else, as long as RAM is in a certain state.
-/
def Performs (step : Teardown → MemoryM Teardown) (ram : Ram) (frames data : List Frame) :
    Prop :=
  ∀ progress before results after, before.ram = ram →
    frames.mapM releaseFrame before = .ok (results, after) →
      step progress before =
        .ok (⟨results.foldl note progress.outcome, progress.dataFrames + data.length⟩, after)

namespace Performs

variable {ram : Ram} {step next : Teardown → MemoryM Teardown}
  {first second data more : List Frame}

theorem release (frame : Frame) :
    Performs (fun progress => progress.release frame) ram [frame] [] := by
  intro progress before results after _ released
  rw [List.mapM_cons, List.mapM_nil] at released
  rcases bind_eq_ok.mp released with ⟨result, between, answered, finished⟩
  rcases bind_eq_ok.mp finished with ⟨none, later, ended, finished⟩
  rcases pure_eq_ok.mp ended with ⟨rfl, rfl⟩
  rcases pure_eq_ok.mp finished with ⟨rfl, rfl⟩
  refine bind_eq_ok.mpr ⟨result, after, answered, ?_⟩
  rcases progress with ⟨outcome, dataFrames⟩
  cases outcome <;> rfl

theorem releaseData (frame : Frame) :
    Performs (fun progress => progress.releaseData frame) ram [frame] [frame] := by
  intro progress before results after same released
  exact bind_eq_ok.mpr ⟨_, after, release frame progress before results after same released, rfl⟩

/-- One step after another. -/
theorem andThen (earlier : Performs step ram first data) (later : Performs next ram second more) :
    Performs (fun progress => step progress >>= next) ram (first ++ second) (data ++ more) := by
  intro progress before results after same released
  rw [List.mapM_append] at released
  rcases bind_eq_ok.mp released with ⟨answers, between, releasedFirst, remaining⟩
  rcases bind_eq_ok.mp remaining with ⟨others, last, releasedSecond, finished⟩
  rcases pure_eq_ok.mp finished with ⟨rfl, rfl⟩
  have sameBetween := (ram_of_mapM_releaseFrame releasedFirst).trans same
  refine bind_eq_ok.mpr ⟨_, between, earlier progress before _ _ same releasedFirst, ?_⟩
  rw [later _ between _ _ sameBetween releasedSecond, List.foldl_append, List.length_append,
    Nat.add_assoc]

/-- A loop over steps. -/
theorem foldlM {α : Type} {body : Teardown → α → MemoryM Teardown}
    {frames data : α → List Frame} {items : List α}
    (each : ∀ item ∈ items,
      Performs (fun progress => body progress item) ram (frames item) (data item)) :
    Performs (fun progress => items.foldlM body progress) ram (items.flatMap frames)
      (items.flatMap data) := by
  induction items with
  | nil =>
      intro progress before results after _ released
      rcases pure_eq_ok.mp released with ⟨rfl, rfl⟩
      rfl
  | cons item items induction =>
      have first := each item List.mem_cons_self
      have others := induction fun other member => each other (List.mem_cons_of_mem _ member)
      exact first.andThen others

theorem releaseTable {table : Frame} (held : ram.holds table = true) :
    Performs (fun progress => progress.releaseTable table) ram (ram.branch table)
      (ram.dataFrames table) := by
  intro progress before results after same released
  have heldBefore : before.ram.holds table = true := by
    rw [same]
    exact held
  rcases backed_ensures heldBefore with ⟨found, before, read, rfl, listed⟩
  rw [same] at listed
  have frames : ram.dataFrames table = found.map Prod.snd := by
    rw [Ram.dataFrames, listed]
  have data : Performs (fun progress => found.foldlM
      (fun progress entry => progress.releaseData entry.2) progress) ram
      (found.flatMap fun entry => [entry.2]) (found.flatMap fun entry => [entry.2]) :=
    foldlM fun entry _ => releaseData entry.2
  rw [← List.map_eq_flatMap, ← frames] at data
  have whole := data.andThen (release table)
  rw [List.append_nil] at whole
  exact bind_eq_ok.mpr ⟨found, before, read, whole progress before results after same released⟩

end Performs

end Teardown

variable {memory after : Memory} {space : AddressSpace}
  {results : List (Except ReleaseError Unit)}

/-- A space that has not been torn down, and whose tables can be walked. -/
structure Live (space : AddressSpace) (memory : Memory) : Prop where
  unreleased : space.released = false
  root : memory.ram.holds space.root = true
  tables : ∀ index table, memory.ram.slot space.root index = some table →
    memory.ram.holds table = true
  pool : memory.pool.Bounded

/-- A teardown is one loop over the reached frames, whatever the pool answers. -/
theorem Live.teardown_eq (live : space.Live memory)
    (released : (memory.ram.reach space.root).mapM releaseFrame memory = .ok (results, after)) :
    space.teardown memory =
      .ok ((Teardown.report results, { space with regions := .empty, released := true }), {
        after with
        log := .spaceDestroyed space.root (memory.ram.backing space.root).length :: after.log }) := by
  rcases tables_ensures live.root with ⟨found, memory, read, rfl, listed⟩
  have branches : Teardown.Performs (fun progress => found.foldlM
      (fun progress entry => progress.releaseTable entry.2) progress) memory.ram
      (found.flatMap fun entry => memory.ram.branch entry.2)
      (found.flatMap fun entry => memory.ram.dataFrames entry.2) := by
    apply Teardown.Performs.foldlM
    rintro ⟨index, table⟩ member
    rw [listed] at member
    exact .releaseTable (live.tables index table (FrameContents.mem_frames_iff.mp member))
  have backing : (found.flatMap fun entry => memory.ram.dataFrames entry.2) =
      memory.ram.backing space.root := by
    rw [Ram.backing_eq, Ram.tables, ← Ram.dataFrames_eq, Ram.dataFrames, ← listed,
      List.flatMap_map]
  have whole := branches.andThen (.release space.root)
  rw [backing, List.append_nil, listed, ← Ram.reach_eq] at whole
  have walked := whole Teardown.start memory results after rfl released
  -- Comparing the counts by unfolding would look up every page.
  generalize memory.ram.backing space.root = data at walked ⊢
  have counted : Teardown.start.dataFrames + data.length = data.length := Nat.zero_add _
  rw [counted] at walked
  unfold teardown
  rw [live.unreleased, if_neg Bool.false_ne_true]
  refine bind_eq_ok.mpr ⟨found, memory, read, ?_⟩
  rw [← bind_assoc, listed]
  exact bind_eq_ok.mpr ⟨_, after, walked, bind_eq_ok.mpr ⟨(), _, record_eq _ _, rfl⟩⟩

/-- Letting the space go without asking gives the same frames back. -/
theorem Live.discard_eq (live : space.Live memory)
    (released : (memory.ram.reach space.root).mapM releaseFrame memory = .ok (results, after)) :
    ∃ log, space.discard memory = .ok ((), { after with log }) := by
  have ended := live.teardown_eq released
  cases reported : Teardown.report results with
  | ok _ =>
      rw [reported] at ended
      exact ⟨_, bind_eq_ok.mpr ⟨_, _, ended, rfl⟩⟩
  | error refusal =>
      rw [reported] at ended
      exact ⟨_, bind_eq_ok.mpr ⟨_, _, ended, record_eq _ _⟩⟩

/-- Destroying a space ends with letting go of what is left, which is nothing. -/
theorem Live.destroy_eq (live : space.Live memory)
    (released : (memory.ram.reach space.root).mapM releaseFrame memory = .ok (results, after)) :
    space.destroy memory =
      .ok (Teardown.report results, { after with
        log := .spaceDestroyed space.root (memory.ram.backing space.root).length :: after.log }) :=
  bind_eq_ok.mpr ⟨_, _, live.teardown_eq released,
    bind_eq_ok.mpr ⟨(), _, discard_of_released rfl, rfl⟩⟩

end AddressSpace

end PagedMemory
