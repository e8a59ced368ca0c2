-- SUMMARY: The block that the joiner fills and the blocks it has stored on top of a directory, as an invariant of its steps.
import NineNMpc.DataJoin.JoinerInvariant
import NineNMpc.DataJoin.JoinerFinished

/-!
# The form of the produced blocks

A run of the joiner on a directory that has blocks already. The first item of a block sets
both its times and each further one may move them. `closings` is history: what closed each
block.
-/

namespace DataJoin

variable {ι ρ : Type}

/-! ## Filling a block -/

section

variable [DecidableEq ι]

/-- The maker has been given these items of the dictionary. -/
structure DataBlockMaker.Fills (d : ItemDict ι ρ) (mk : DataBlockMaker ι ρ)
    (items : List (Item ι ρ)) : Prop where
  found : ∀ item ∈ items, d.get? item.exampleId = some item
  ids : mk.exampleIds = items.map (·.exampleId)
  records : mk.records = items.map (·.record)
  times : items ≠ [] → (items.map (·.eventTime)).min? = some mk.startTime ∧
    (items.map (·.eventTime)).max? = some mk.endTime

theorem DataBlockMaker.fills_new {d : ItemDict ι ρ} {index : Nat} :
    ({ dataBlockIndex := index } : DataBlockMaker ι ρ).Fills d [] :=
  ⟨by simp, rfl, rfl, fun h => absurd rfl h⟩

end

/-- The minimum moves as the start time does. -/
theorem min?_append_singleton {times : List Int} {start t : Int}
    (h : times ≠ [] → times.min? = some start) :
    (times ++ [t]).min? = some (if times = [] ∨ t < start then t else start) := by
  cases times with
  | nil => simp
  | cons x xs =>
    have hstart : xs.foldl min x = start := Option.some.inj (h (List.cons_ne_nil x xs))
    rw [List.cons_append, List.min?_cons', List.foldl_append, hstart]
    simp only [List.foldl_cons, List.foldl_nil, reduceCtorEq, false_or]
    split <;> simp <;> omega

/-- The maximum moves as the end time does. -/
theorem max?_append_singleton {times : List Int} {last t : Int}
    (h : times ≠ [] → times.max? = some last) :
    (times ++ [t]).max? = some (if times = [] ∨ last < t then t else last) := by
  cases times with
  | nil => simp
  | cons x xs =>
    have hlast : xs.foldl max x = last := Option.some.inj (h (List.cons_ne_nil x xs))
    rw [List.cons_append, List.max?_cons', List.foldl_append, hlast]
    simp only [List.foldl_cons, List.foldl_nil, reduceCtorEq, false_or]
    split <;> simp <;> omega

variable [DecidableEq ι]

theorem DataBlockMaker.Fills.save {d : ItemDict ι ρ} {mk : DataBlockMaker ι ρ} {items : List (Item ι ρ)}
    {x : ι} {item : Item ι ρ} (h : mk.Fills d items) (hclosed : mk.closed = false)
    (hx : d.get? x = some item) :
    ∃ mk', mk.save item = some mk' ∧ mk'.Fills d (items ++ [item]) ∧
      mk'.dataBlockIndex = mk.dataBlockIndex ∧ mk'.closed = false := by
  have hid := ItemDict.exampleId_of_get? hx
  have hfirst : mk.records.length = 0 ↔ items.map (·.eventTime) = [] := by
    rw [h.records, List.length_map, List.length_eq_zero_iff, List.map_eq_nil_iff]
  have htimes : items.map (·.eventTime) ≠ [] → items ≠ [] := by simp
  simp only [DataBlockMaker.save, hclosed, Bool.false_eq_true, if_false]
  refine ⟨_, rfl, ⟨?_, ?_, ?_, fun _ => ?_⟩, rfl, rfl⟩
  · intro item' hmem
    rcases List.mem_append.mp hmem with hmem | hmem
    · exact h.found item' hmem
    · rw [List.mem_singleton.mp hmem, hid, hx]
  · simp [h.ids]
  · simp [h.records]
  · simp only [List.map_append, List.map_cons, List.map_nil, hfirst]
    exact ⟨min?_append_singleton fun hne => (h.times (htimes hne)).1,
      max?_append_singleton fun hne => (h.times (htimes hne)).2⟩

/-! ## Stored blocks -/

/-- The block of the meta has one record for each id, in order, and the range of their times. -/
structure Store.Block (cfg : Config ι ρ) (st : Store ι ρ) (m : DataBlockMeta ι)
    (items : List (Item ι ρ)) : Prop where
  found : ∀ item ∈ items, cfg.followerItems.get? item.exampleId = some item
  ids : m.exampleIds = items.map (·.exampleId)
  data : st.dataFiles (cfg.naming.dataBlockFileNameWrap m) = some (items.map (·.record))
  startTime : (items.map (·.eventTime)).min? = some m.startTime
  endTime : (items.map (·.eventTime)).max? = some m.endTime
  size : 1 ≤ m.exampleIds.length ∧ m.exampleIds.length ≤ cfg.dumpDataBlockThreshold

section

variable {cfg : Config ι ρ} {st : Store ι ρ} {m m' : DataBlockMeta ι} {items : List (Item ι ρ)}

/-- The data file of the next block is not that of a stored one. -/
theorem Store.Block.saveData (h : st.Block cfg m items) (hs : st.Synced) (hm : m ∈ st.metaFiles)
    (hm' : m'.dataBlockIndex = st.metaFiles.length) {records : List ρ} :
    (st.saveData (cfg.naming.dataBlockFileNameWrap m') records).Block cfg m items := by
  have hne : cfg.naming.dataBlockFileNameWrap m ≠ cfg.naming.dataBlockFileNameWrap m' := by
    intro heq
    have hindex := cfg.naming.index_of_name m m' heq
    obtain ⟨i, hi⟩ := List.getElem?_of_mem hm
    have hget := Store.index_of_getElem? hs.contiguous hi
    obtain ⟨hlt, -⟩ := List.getElem?_eq_some_iff.mp hi
    omega
  refine { h with data := ?_ }
  rw [← h.data]
  exact Function.update_of_ne hne _ _

theorem Store.Block.of_dataFiles {st' : Store ι ρ} (h : st.Block cfg m items)
    (hst : st'.dataFiles = st.dataFiles) : st'.Block cfg m items :=
  { h with data := by rw [hst]; exact h.data }

end

/-! ## Runs with the reasons of closing -/

inductive Closing where
  | threshold
  | finishedBatch
  | timeSpan
deriving DecidableEq

omit [DecidableEq ι] in
/-- What closes a block in a step between two places. -/
def closedBy (span : Bool) : JoinerPc ι → JoinerPc ι → List Closing
  | .batch (_ :: _) _, .store _ => [.threshold]
  | .batch [] true, .store _ => [.finishedBatch]
  | .flush, .store _ => if span then [.timeSpan] else []
  | _, _ => []

structure TracedFollower (ι ρ : Type) extends Follower ι ρ where
  closings : List Closing := []

/-- The follower, with the reasons of closing. -/
def TracedFollower.machine (cfg : Config ι ρ) :
    Machine (TracedFollower ι ρ) (Follower.Action ι) where
  step t a :=
    ((Follower.machine cfg).step t.toFollower a).map fun f =>
      { f with
        closings :=
          match a with
          | .join span => t.closings ++ closedBy span t.joiner.pc f.joiner.pc
          | _ => t.closings }

/-- A block that its size closes is full. -/
def Closing.Fits (cfg : Config ι ρ) (c : Closing) (size : Nat) : Prop :=
  c = .threshold → size = cfg.dumpDataBlockThreshold

omit [DecidableEq ι] in
/-- The size of the block that is being stored. -/
def Joiner.storingSizes (j : Joiner ι ρ) : List Nat :=
  if j.pc.isStoring then (j.dataBlockMaker.map (·.exampleIds.length)).toList else []

/-- `new` are the blocks stored on top of `old`. -/
structure Joiner.Formed (cfg : Config ι ρ) (old new : List (DataBlockMeta ι)) (st : Store ι ρ)
    (j : Joiner ι ρ) (closings : List Closing) : Prop where
  synced : st.Synced
  files : st.metaFiles = old ++ new
  blocks : ∀ m ∈ new, ∃ items, st.Block cfg m items
  maker : ∀ mk, j.dataBlockMaker = some mk → j.pc.isClose = false →
    mk.dataBlockIndex = st.metaFiles.length ∧ mk.closed = j.pc.isUpdate ∧
      ∃ items, items ≠ [] ∧ mk.Fills cfg.followerItems items ∧
        (items.length < cfg.dumpDataBlockThreshold ∨
          j.pc.isStoring = true ∧ items.length = cfg.dumpDataBlockThreshold)
  storing : j.pc.isStoring = true → j.dataBlockMaker.isSome = true
  written : ∀ mk, j.dataBlockMaker = some mk → j.pc.isUpdate = true →
    st.dataFiles (cfg.naming.dataBlockFileNameWrap (mk.dataBlockMeta cfg.naming)) = some mk.records
  closed : List.Forall₂ (Closing.Fits cfg) closings
    (new.map (·.exampleIds.length) ++ j.storingSizes)

namespace Joiner

variable {cfg : Config ι ρ} {old new : List (DataBlockMeta ι)} {st st' : Store ι ρ}
  {j j' : Joiner ι ρ} {closings : List Closing}

omit [DecidableEq ι] in
theorem isUpdate_of_isStoring {pc : JoinerPc ι} (h : pc.isStoring = false) : pc.isUpdate = false := by
  cases pc <;> first | rfl | cases h

/-- Moving between places where no block is being stored. -/
theorem Formed.goto (h : j.Formed cfg old new st closings) (hj : j.pc.isClose = false)
    (hj' : j.pc.isStoring = false) (hmaker : j'.dataBlockMaker = j.dataBlockMaker)
    (hpc : j'.pc.isStoring = false) : j'.Formed cfg old new st closings where
  synced := h.synced
  files := h.files
  blocks := h.blocks
  maker := by
    intro mk hmk _
    obtain ⟨hindex, hclosed, items, hne, hfills, hsize⟩ := h.maker mk (hmaker ▸ hmk) hj
    rw [isUpdate_of_isStoring hj'] at hclosed
    refine ⟨hindex, hclosed.trans (isUpdate_of_isStoring hpc).symm, items, hne, hfills, .inl ?_⟩
    refine hsize.resolve_right fun hfull => ?_
    rw [hj'] at hfull
    cases hfull.1
  storing := by
    intro hstoring
    rw [hpc] at hstoring
    cases hstoring
  written := by
    intro mk _ hup
    rw [isUpdate_of_isStoring hpc] at hup
    cases hup
  closed := by
    have hclosed := h.closed
    rw [storingSizes, hj'] at hclosed
    rwa [storingSizes, hpc]

/-- A block is closed before it is full. -/
theorem Formed.toStore (h : j.Formed cfg old new st closings) (hj : j.pc.isClose = false)
    (hj' : j.pc.isStoring = false) (hsome : j.dataBlockMaker.isSome = true) {k : Finalizing ι}
    {c : Closing} (hc : c ≠ .threshold) :
    Formed cfg old new st { j with pc := .store k } (closings ++ [c]) where
  synced := h.synced
  files := h.files
  blocks := h.blocks
  maker := by
    intro mk hmk _
    obtain ⟨hindex, hclosed, items, hne, hfills, hsize⟩ := h.maker mk hmk hj
    rw [isUpdate_of_isStoring hj'] at hclosed
    refine ⟨hindex, hclosed, items, hne, hfills, .inl (hsize.resolve_right fun hfull => ?_)⟩
    rw [hj'] at hfull
    cases hfull.1
  storing := fun _ => hsome
  written := by simp [JoinerPc.isUpdate]
  closed := by
    obtain ⟨mk, hmk⟩ := Option.isSome_iff_exists.mp hsome
    have hclosed := h.closed
    rw [storingSizes, hj', if_neg (by decide), List.append_nil] at hclosed
    have hsizes : storingSizes { j with pc := .store k } = [mk.exampleIds.length] := by
      simp [storingSizes, hmk, JoinerPc.isStoring]
    rw [hsizes]
    exact List.rel_append hclosed (.cons (fun heq => absurd heq hc) .nil)

theorem Formed.acquireDataBlockMaker (h : j.Formed cfg old new st closings)
    (ht : 1 ≤ cfg.dumpDataBlockThreshold) (hj : j.pc.isClose = false) (hj' : j.pc.isStoring = false) :
    ∃ mk items, Joiner.acquireDataBlockMaker st j = (st, some mk) ∧
      mk.dataBlockIndex = st.metaFiles.length ∧ mk.closed = false ∧
        mk.Fills cfg.followerItems items ∧ items.length < cfg.dumpDataBlockThreshold := by
  cases hmk : j.dataBlockMaker with
  | some mk =>
    obtain ⟨hindex, hclosed, items, -, hfills, hsize⟩ := h.maker mk hmk hj
    refine ⟨mk, items, by simp [Joiner.acquireDataBlockMaker, hmk], hindex,
      hclosed.trans (isUpdate_of_isStoring hj'), hfills, hsize.resolve_right fun hfull => ?_⟩
    rw [hj'] at hfull
    cases hfull.1
  | none =>
    refine ⟨{ dataBlockIndex := st.metaFiles.length }, [], ?_, rfl, rfl,
      DataBlockMaker.fills_new, ht⟩
    simp [Joiner.acquireDataBlockMaker, hmk, h.synced.acquireProducedDataBlockNumber]

theorem stepExample_formed {x : ι} {rest : List ι} {finished span : Bool}
    (h : j.Formed cfg old new st closings) (ht : 1 ≤ cfg.dumpDataBlockThreshold)
    (hpc : j.pc = .batch (x :: rest) finished) :
    (stepExample cfg.joiner st j x rest finished).2.Formed cfg old new
      (stepExample cfg.joiner st j x rest finished).1
      (closings ++ closedBy span j.pc (stepExample cfg.joiner st j x rest finished).2.pc) := by
  have hj : j.pc.isClose = false := by rw [hpc]; rfl
  have hj' : j.pc.isStoring = false := by rw [hpc]; rfl
  cases hx : cfg.followerItems.get? x with
  | none =>
    rw [stepExample_of_skip hx, hpc]
    simp only [closedBy, List.append_nil]
    exact h.goto hj hj' rfl rfl
  | some item =>
    obtain ⟨mk, items, hacq, hindex, hclosed, hfills, hsize⟩ := h.acquireDataBlockMaker ht hj hj'
    obtain ⟨mk', hsave, hfills', hindex', hclosed'⟩ := hfills.save hclosed hx
    have hlen : mk'.exampleIds.length = items.length + 1 := by simp [hfills'.ids]
    have hsizes := h.closed
    rw [storingSizes, hj', if_neg (by decide), List.append_nil] at hsizes
    rw [stepExample_of_save hx hacq hsave, hpc]
    by_cases hfull : mk'.isDataBlockExceedThreshold cfg.joiner.dumpDataBlockThreshold = true
    · have hle : cfg.dumpDataBlockThreshold ≤ mk'.exampleIds.length := of_decide_eq_true hfull
      have heq : mk'.exampleIds.length = cfg.dumpDataBlockThreshold := by omega
      simp only [hfull, if_true, closedBy]
      refine ⟨h.synced, h.files, h.blocks, ?_, fun _ => rfl, by simp [JoinerPc.isUpdate], ?_⟩
      · rintro _ ⟨⟩ _
        refine ⟨hindex'.trans hindex, hclosed', items ++ [item], by simp, hfills', .inr ⟨rfl, ?_⟩⟩
        rw [← heq, hlen, List.length_append, List.length_singleton]
      · exact List.rel_append hsizes (.cons (fun _ => heq) .nil)
    · have hlt : ¬ cfg.dumpDataBlockThreshold ≤ mk'.exampleIds.length := fun hle =>
        hfull (decide_eq_true hle)
      simp only [hfull, Bool.false_eq_true, if_false, closedBy, List.append_nil]
      refine ⟨h.synced, h.files, h.blocks, ?_, by simp [JoinerPc.isStoring],
        by simp [JoinerPc.isUpdate], ?_⟩
      · rintro _ ⟨⟩ _
        refine ⟨hindex'.trans hindex, hclosed', items ++ [item], by simp, hfills', .inl ?_⟩
        rw [List.length_append, List.length_singleton]
        omega
      · simpa [storingSizes, JoinerPc.isStoring] using hsizes

omit [DecidableEq ι] in
theorem storingSizes_of_maker {mk : DataBlockMaker ι ρ} (hmk : j.dataBlockMaker = some mk)
    (hpc : j.pc.isStoring = true) : j.storingSizes = [mk.exampleIds.length] := by
  rw [storingSizes, if_pos hpc, hmk]
  rfl

theorem stepEndOfBatch_formed {finished span : Bool} (h : j.Formed cfg old new st closings)
    (hpc : j.pc = .batch [] finished) :
    (stepEndOfBatch j finished).Formed cfg old new st
      (closings ++ closedBy span j.pc (stepEndOfBatch j finished).pc) := by
  have hj : j.pc.isClose = false := by rw [hpc]; rfl
  have hj' : j.pc.isStoring = false := by rw [hpc]; rfl
  rw [hpc]
  simp only [stepEndOfBatch]
  split
  · next hfin =>
    subst hfin
    split
    · next hsome => exact h.toStore (c := .finishedBatch) hj hj' hsome (by decide)
    · simp only [closedBy, List.append_nil]
      exact h.goto hj hj' rfl rfl
  · simp only [closedBy, List.append_nil]
    exact h.goto hj hj' rfl rfl

theorem stepFlush_formed {span : Bool} (h : j.Formed cfg old new st closings) (hpc : j.pc = .flush) :
    (stepFlush j span).Formed cfg old new st
      (closings ++ closedBy span j.pc (stepFlush j span).pc) := by
  have hj : j.pc.isClose = false := by rw [hpc]; rfl
  have hj' : j.pc.isStoring = false := by rw [hpc]; rfl
  rw [hpc]
  simp only [stepFlush]
  split
  · next hflush =>
    obtain ⟨hsome, hspan⟩ := Bool.and_eq_true_iff.mp hflush
    split
    · simp only [closedBy, hspan, if_true]
      exact h.toStore (c := .timeSpan) hj hj' hsome (by decide)
    · simp only [raise, closedBy, List.append_nil]
      exact h.goto hj hj' rfl rfl
  · simp only [closedBy, List.append_nil]
    exact h.goto hj hj' rfl rfl

theorem stepStore_formed {k : Finalizing ι} (h : j.Formed cfg old new st closings)
    (hpc : j.pc = .store k) :
    (stepStore cfg.joiner st j k).2.Formed cfg old new (stepStore cfg.joiner st j k).1 closings ∧
      (stepStore cfg.joiner st j k).2.pc = .update k := by
  have hj : j.pc.isClose = false := by rw [hpc]; rfl
  have hstoring : j.pc.isStoring = true := by rw [hpc]; rfl
  obtain ⟨mk, hmk⟩ := Option.isSome_iff_exists.mp (h.storing hstoring)
  obtain ⟨hindex, -, items, hne, hfills, hsize⟩ := h.maker mk hmk hj
  have hids : mk.exampleIds ≠ [] := by
    rw [hfills.ids]
    simpa using hne
  set name := cfg.naming.dataBlockFileNameWrap (mk.dataBlockMeta cfg.naming) with hname
  have hstep : stepStore cfg.joiner st j k = (st.saveData name mk.records,
      { j with dataBlockMaker := some { mk with closed := true }, pc := .update k }) :=
    stepStore_of_maker hmk hids
  rw [hstep]
  refine ⟨⟨h.synced.saveData, h.files, fun m hm => ?_, ?_, fun _ => rfl, ?_, ?_⟩, rfl⟩
  · obtain ⟨items, hblock⟩ := h.blocks m hm
    exact ⟨items, hblock.saveData h.synced (by rw [h.files]; exact List.mem_append_right _ hm) hindex⟩
  · rintro _ ⟨⟩ _
    refine ⟨hindex, rfl, items, hne, ⟨hfills.found, hfills.ids, hfills.records, hfills.times⟩,
      hsize.imp_right fun hfull => ⟨rfl, hfull.2⟩⟩
  · rintro _ ⟨⟩ _
    exact Function.update_self ..
  · have hclosed := h.closed
    rw [storingSizes_of_maker hmk hstoring] at hclosed
    exact hclosed

theorem stepUpdate_formed {k : Finalizing ι} (h : j.Formed cfg old new st closings)
    (hpc : j.pc = .update k) :
    (∃ m, (stepUpdate cfg.joiner st j k).2.Formed cfg old (new ++ [m])
        (stepUpdate cfg.joiner st j k).1 closings) ∧
      (stepUpdate cfg.joiner st j k).2.pc = .close k := by
  have hj : j.pc.isClose = false := by rw [hpc]; rfl
  have hstoring : j.pc.isStoring = true := by rw [hpc]; rfl
  obtain ⟨mk, hmk⟩ := Option.isSome_iff_exists.mp (h.storing hstoring)
  obtain ⟨hindex, -, items, hne, hfills, hsize⟩ := h.maker mk hmk hj
  set m := mk.dataBlockMeta cfg.naming with hm
  have hindex' : m.dataBlockIndex = st.metaFiles.length := hindex
  obtain ⟨hret, hsync, hfiles⟩ := h.synced.updateDataBlockMeta hindex'
  have hstep : stepUpdate cfg.joiner st j k =
      ((st.updateDataBlockMeta m).1, { j with pc := .close k }) :=
    stepUpdate_of_returned hmk (Prod.ext rfl hret)
  have hlen : 1 ≤ items.length := List.length_pos_iff.mpr hne
  have hblock : (st.updateDataBlockMeta m).1.Block cfg m items := by
    refine ⟨hfills.found, hfills.ids, ?_, (hfills.times hne).1, (hfills.times hne).2, ?_⟩
    · rw [Store.updateDataBlockMeta_dataFiles, ← hfills.records]
      exact h.written mk hmk (by rw [hpc]; rfl)
    · have hids : m.exampleIds.length = items.length := by
        rw [show m.exampleIds = mk.exampleIds from rfl, hfills.ids, List.length_map]
      omega
  rw [hstep]
  refine ⟨⟨m, hsync, ?_, fun m' hm' => ?_, by simp [JoinerPc.isClose], by simp [JoinerPc.isStoring],
    by simp [JoinerPc.isUpdate], ?_⟩, rfl⟩
  · rw [hfiles, h.files, List.append_assoc]
  · rcases List.mem_append.mp hm' with hm' | hm'
    · obtain ⟨items, hblock'⟩ := h.blocks m' hm'
      exact ⟨items, hblock'.of_dataFiles Store.updateDataBlockMeta_dataFiles⟩
    · rw [List.mem_singleton.mp hm']
      exact ⟨items, hblock⟩
  · have hclosed := h.closed
    rw [storingSizes_of_maker hmk hstoring] at hclosed
    rw [storingSizes, if_neg (by simp [JoinerPc.isStoring]), List.append_nil, List.map_append]
    exact hclosed

theorem stepClose_formed {k : Finalizing ι} (h : j.Formed cfg old new st closings)
    (hpc : j.pc = .close k) :
    (stepClose j k).Formed cfg old new st closings ∧ (stepClose j k).pc.isStoring = false := by
  have hclosed := h.closed
  rw [storingSizes, show j.pc.isStoring = false by rw [hpc]; rfl] at hclosed
  cases k with
  | _ =>
    refine ⟨⟨h.synced, h.files, h.blocks, ?_, ?_, ?_, hclosed⟩, rfl⟩
    · simp [stepClose, resume]
    · simp [stepClose, resume, JoinerPc.isStoring]
    · simp [stepClose, resume]

omit [DecidableEq ι] in
theorem closedBy_eq_nil {span : Bool} {pc pc' : JoinerPc ι} (h : ∀ k, pc' ≠ .store k) :
    closedBy span pc pc' = [] := by
  unfold closedBy
  split
  · exact absurd rfl (h _)
  · exact absurd rfl (h _)
  · exact absurd rfl (h _)
  · rfl

/-- A step keeps the form of the blocks, and stores at most one. -/
theorem step_formed {queue queue' : List (LiteExampleIds ι)} {span : Bool}
    (h : j.Formed cfg old new st closings) (ht : 1 ≤ cfg.dumpDataBlockThreshold)
    (hs : j.step cfg.joiner span st queue = some (st', queue', j')) :
    ∃ new', j'.Formed cfg old new' st' (closings ++ closedBy span j.pc j'.pc) := by
  apply step_elim (motive := fun st' _ j' =>
    ∃ new', j'.Formed cfg old new' st' (closings ++ closedBy span j.pc j'.pc)) hs
  case idle =>
    intro hpc _ _
    rw [closedBy_eq_nil (by simp), List.append_nil]
    exact ⟨new, h.goto (by rw [hpc]; rfl) (by rw [hpc]; rfl) rfl rfl⟩
  case take =>
    intro b rest hpc _ _
    rw [closedBy_eq_nil (by simp), List.append_nil]
    exact ⟨new, h.goto (by rw [hpc]; rfl) (by rw [hpc]; rfl) rfl rfl⟩
  case next =>
    intro x rest finished hpc
    exact ⟨new, stepExample_formed h ht hpc⟩
  case endOfBatch =>
    intro finished hpc
    exact ⟨new, stepEndOfBatch_formed h hpc⟩
  case flush =>
    intro hpc
    exact ⟨new, stepFlush_formed h hpc⟩
  case store =>
    intro k hpc
    obtain ⟨hformed, hpc'⟩ := stepStore_formed h hpc
    rw [closedBy_eq_nil (by simp [hpc']), List.append_nil]
    exact ⟨new, hformed⟩
  case update =>
    intro k hpc
    obtain ⟨⟨m, hformed⟩, hpc'⟩ := stepUpdate_formed h hpc
    rw [closedBy_eq_nil (by simp [hpc']), List.append_nil]
    exact ⟨new ++ [m], hformed⟩
  case close =>
    intro k hpc
    obtain ⟨hformed, hpc'⟩ := stepClose_formed h hpc
    have hne : ∀ k', (stepClose j k).pc ≠ .store k' := by
      intro k' heq
      rw [heq] at hpc'
      cases hpc'
    rw [closedBy_eq_nil hne, List.append_nil]
    exact ⟨new, hformed⟩

end Joiner

end DataJoin
